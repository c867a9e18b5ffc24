import Mathlib.Data.List.Basic
import Mathlib.Data.Option.Basic

namespace CodexMonitor

/-!
# Worktrees — a repository with its branches and its worktrees

The branches of a version control repository, and the places where one of them is checked out.
A branch is renamed with the heads that point to it, a worktree moves to another place.

* `relabel` — one label is replaced by another; undone when the new one was free.
* `Repo.renameBranch`, `Repo.moveWorktree` — the two commands, with the rules that undo them.
-/

/-! ### Relabelling -/

section Relabel

variable {α : Type*} [DecidableEq α] {old new a : α}

/-- The label after `old` was replaced by `new`. -/
def relabel (old new a : α) : α := if a = old then new else a

theorem relabel_old : relabel old new old = new := if_pos rfl

theorem relabel_of_ne (h : a ≠ old) : relabel old new a = a := if_neg h

/-- **The other way round restores** a label that was not the new one. -/
theorem relabel_undo (h : a ≠ new) : relabel new old (relabel old new a) = a := by
  by_cases ha : a = old
  · rw [ha, relabel_old, relabel_old]
  · rw [relabel_of_ne ha, relabel_of_ne h]

theorem relabel_same (a : α) : relabel old old a = a := by
  by_cases ha : a = old
  · rw [ha, relabel_old]
  · exact relabel_of_ne ha

/-- The old label is gone. -/
theorem relabel_ne_old (h : new ≠ old) : relabel old new a ≠ old := by
  by_cases ha : a = old
  · rwa [ha, relabel_old]
  · rwa [relabel_of_ne ha]

end Relabel

/-- A map over a list is undone when it is for every element. -/
theorem map_undo {α β : Type*} {f : α → β} {g : β → α} {l : List α} (h : ∀ a ∈ l, g (f a) = a) :
    (l.map f).map g = l := by
  rw [List.map_map]
  calc l.map (g ∘ f) = l.map id := List.map_congr_left h
    _ = l := List.map_id l

/-! ### The repository -/

/-- A linked worktree: where it is, and the branch that is checked out there. -/
structure Worktree (P B : Type*) where
  place : P
  head : Option B
  deriving DecidableEq, Repr

/-- A repository; what is checked out is one of its branches. -/
@[ext] structure Repo (P B : Type*) where
  branches : List B
  worktrees : List (Worktree P B) := []
  heads_mem : ∀ t ∈ worktrees, ∀ b ∈ t.head, b ∈ branches

namespace Repo

variable {P B : Type*} (r : Repo P B)

/-- There is a worktree at the place. -/
def HasWorktree (place : P) : Prop := ∃ t ∈ r.worktrees, t.place = place

instance [DecidableEq P] (place : P) : Decidable (r.HasWorktree place) :=
  inferInstanceAs (Decidable (∃ t ∈ r.worktrees, t.place = place))

/-- A branch gets another name, and so does every head that points to it. -/
def renameBranch [DecidableEq B] (old new : B) : Repo P B where
  branches := r.branches.map (relabel old new)
  worktrees := r.worktrees.map fun t => { t with head := t.head.map (relabel old new) }
  heads_mem := by
    intro t' ht' b' hb'
    obtain ⟨t, ht, rfl⟩ := List.mem_map.mp ht'
    obtain ⟨b, hb, rfl⟩ := Option.map_eq_some_iff.mp hb'
    exact List.mem_map_of_mem (r.heads_mem t ht b hb)

/-- The worktree at a place is moved to another. -/
def moveWorktree [DecidableEq P] (src dst : P) : Repo P B where
  branches := r.branches
  worktrees := r.worktrees.map fun t => { t with place := relabel src dst t.place }
  heads_mem := by
    intro t' ht' b hb
    obtain ⟨t, ht, rfl⟩ := List.mem_map.mp ht'
    exact r.heads_mem t ht b hb

/-! ### Renaming a branch -/

section Rename

variable {r} [DecidableEq B] {old new : B} {place : P}

theorem mem_renameBranch (h : old ∈ r.branches) : new ∈ (r.renameBranch old new).branches :=
  List.mem_map.mpr ⟨old, h, relabel_old⟩

theorem not_mem_renameBranch (h : new ≠ old) : old ∉ (r.renameBranch old new).branches := by
  intro hmem
  obtain ⟨b, -, hb⟩ := List.mem_map.mp hmem
  exact relabel_ne_old h hb

theorem hasWorktree_renameBranch :
    (r.renameBranch old new).HasWorktree place ↔ r.HasWorktree place := by
  simp only [HasWorktree, renameBranch, List.mem_map]
  constructor
  · rintro ⟨_, ⟨t, ht, rfl⟩, hplace⟩
    exact ⟨t, ht, hplace⟩
  · rintro ⟨t, ht, hplace⟩
    exact ⟨_, ⟨t, ht, rfl⟩, hplace⟩

/-- **Renaming a branch back** restores the repository, if the new name was free. -/
theorem renameBranch_undo (h : new ∉ r.branches) :
    (r.renameBranch old new).renameBranch new old = r := by
  have hfree : ∀ b ∈ r.branches, relabel new old (relabel old new b) = b := by
    intro b hb
    apply relabel_undo
    rintro rfl
    exact h hb
  apply Repo.ext
  · exact map_undo hfree
  · apply map_undo
    intro t ht
    -- a head points to one of the branches
    have hhead : (t.head.map (relabel old new)).map (relabel new old) = t.head := by
      cases hb : t.head with
      | none => rfl
      | some b => exact congrArg some (hfree b (r.heads_mem t ht b hb))
    show Worktree.mk t.place _ = t
    rw [hhead]

end Rename

/-! ### Moving a worktree -/

section Move

variable {r} [DecidableEq P] {src dst : P}

theorem hasWorktree_moveWorktree (h : r.HasWorktree src) :
    (r.moveWorktree src dst).HasWorktree dst := by
  obtain ⟨t, ht, rfl⟩ := h
  exact ⟨_, List.mem_map_of_mem ht, relabel_old⟩

theorem not_hasWorktree_moveWorktree (h : dst ≠ src) :
    ¬ (r.moveWorktree src dst).HasWorktree src := by
  rintro ⟨_, ht', hplace⟩
  obtain ⟨t, -, rfl⟩ := List.mem_map.mp ht'
  exact relabel_ne_old h hplace

/-- **Moving a worktree back** restores the repository, if the place was free. -/
theorem moveWorktree_undo (h : ¬ r.HasWorktree dst) :
    (r.moveWorktree src dst).moveWorktree dst src = r := by
  apply Repo.ext
  · rfl
  · apply map_undo
    intro t ht
    have hplace : relabel dst src (relabel src dst t.place) = t.place :=
      relabel_undo fun heq => h ⟨t, ht, heq⟩
    show Worktree.mk _ t.head = t
    rw [hplace]

/-- Moves of a worktree to two places differ, unless there is none to move. -/
theorem moveWorktree_eq_iff {dst' : P} :
    r.moveWorktree src dst = r.moveWorktree src dst' ↔ dst = dst' ∨ ¬ r.HasWorktree src := by
  constructor
  · intro h
    refine or_iff_not_imp_right.mpr fun hsrc => ?_
    obtain ⟨t, ht, rfl⟩ := not_not.mp hsrc
    have heq := congrArg Worktree.place (List.map_inj_left.mp (congrArg Repo.worktrees h) t ht)
    rwa [relabel_old, relabel_old] at heq
  · rintro (rfl | h)
    · rfl
    · apply Repo.ext
      · rfl
      · apply List.map_congr_left
        intro t ht
        have hne : t.place ≠ src := fun heq => h ⟨t, ht, heq⟩
        rw [relabel_of_ne hne, relabel_of_ne hne]

theorem moveWorktree_same (src : P) : r.moveWorktree src src = r := by
  apply Repo.ext
  · rfl
  · calc r.worktrees.map _ = r.worktrees.map id :=
        List.map_congr_left fun t _ => by rw [relabel_same]; rfl
      _ = r.worktrees := List.map_id _

end Move

end Repo

end CodexMonitor
