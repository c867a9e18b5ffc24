import Mathlib.Data.List.Infix

namespace CodexMonitor

/-!
# File trees — the directories and files that exist

A path is the list of its components.  With a directory every directory above it exists, which
the tree carries as a field.

* `create`, `createAll` — directories are made, with those above them.
* `removeDirAll` — a directory and what is below it is removed, as far as it can be.
* `move` — a directory is moved, with what is below it; moving it back restores the tree
  (`mem_move_move`).
-/

/-- The directories and the other files. -/
structure FileTree (α : Type*) where
  dirs : List (List α)
  files : List (List α) := []
  closed : ∀ d ∈ dirs, ∀ p, p <+: d → p ∈ dirs

namespace FileTree

variable {α : Type*} (t : FileTree α)

/-! ### Making directories -/

def create (p : List α) : FileTree α where
  dirs := p.inits ++ t.dirs
  files := t.files
  closed := by
    intro d hd q hq
    rw [List.mem_append, List.mem_inits] at hd ⊢
    rcases hd with hd | hd
    · exact .inl (hq.trans hd)
    · exact .inr (t.closed d hd q hq)

def createAll (ps : List (List α)) : FileTree α := ps.foldr (fun p t => t.create p) t

theorem mem_create {p d : List α} (h : d ∈ t.dirs) : d ∈ (t.create p).dirs :=
  List.mem_append_right _ h

theorem mem_createAll {ps : List (List α)} {d : List α} (h : d ∈ t.dirs) :
    d ∈ (t.createAll ps).dirs := by
  induction ps with
  | nil => exact h
  | cons p ps ih => exact mem_create _ ih

variable [DecidableEq α]

/-! ### What exists -/

def isDir (p : List α) : Bool := p ∈ t.dirs

theorem isDir_iff {p : List α} : t.isDir p = true ↔ p ∈ t.dirs := decide_eq_true_iff

/-- Something has this path. -/
def present (p : List α) : Bool := p ∈ t.dirs || p ∈ t.files

/-- Nothing is below the path. -/
def isEmptyBelow (p : List α) : Bool := (t.dirs ++ t.files).all fun q => !(p <+: q) || q = p

/-! ### Removing a directory -/

/-- A path at or below `p` that is removed with it; those of `kept` stay, and what they are
    in. -/
def removes (p : List α) (kept : List (List α)) (q : List α) : Bool :=
  p <+: q && !kept.any fun k => q <+: k

def removeDirAll (p : List α) (kept : List (List α)) : FileTree α where
  dirs := t.dirs.filter fun d => !removes p kept d
  files := t.files.filter fun f => f = p || !removes p kept f
  closed := by
    intro d hd q hq
    rw [List.mem_filter] at hd ⊢
    refine ⟨t.closed d hd.1 q hq, ?_⟩
    have hd' := hd.2
    simp only [removes, Bool.not_and, Bool.not_not, Bool.or_eq_true, Bool.not_eq_true',
      decide_eq_false_iff_not, List.any_eq_true, decide_eq_true_eq] at hd' ⊢
    rcases hd' with hbelow | ⟨k, hk, hdk⟩
    · exact .inl fun hpq => hbelow (hpq.trans hq)
    · exact .inr ⟨k, hk, hq.trans hdk⟩

/-- What is left of the directories. -/
theorem mem_removeDirAll {p d : List α} {kept : List (List α)} :
    d ∈ (t.removeDirAll p kept).dirs ↔
      d ∈ t.dirs ∧ (p <+: d → ∃ k ∈ kept, d <+: k) := by
  show d ∈ t.dirs.filter _ ↔ _
  rw [List.mem_filter]
  simp only [removes, Bool.not_and, Bool.not_not, Bool.or_eq_true, Bool.not_eq_true',
    decide_eq_false_iff_not, List.any_eq_true, decide_eq_true_eq, imp_iff_not_or]

/-! ### Moving a directory -/

/-- The path after `old` was moved to `new`. -/
def moved (old new q : List α) : List α :=
  if old <+: q then new ++ q.drop old.length else q

theorem moved_append (old new rest : List α) : moved old new (old ++ rest) = new ++ rest := by
  rw [moved, if_pos (List.prefix_append _ _), List.drop_left]

theorem moved_of_not {old new q : List α} (h : ¬ old <+: q) : moved old new q = q := if_neg h

def move (old new : List α) : FileTree α where
  dirs := new.inits ++ t.dirs.map (moved old new)
  files := t.files.map (moved old new)
  closed := by
    intro d hd q hq
    simp only [List.mem_append, List.mem_inits, List.mem_map] at hd ⊢
    rcases hd with hd | ⟨d, hd, rfl⟩
    · exact .inl (hq.trans hd)
    · by_cases hold : old <+: d
      · obtain ⟨rest, rfl⟩ := hold
        rw [moved_append] at hq
        -- a path above the moved one is above `new`, or was moved too
        rcases List.prefix_or_prefix_of_prefix hq (List.prefix_append new rest) with h | ⟨r, rfl⟩
        · exact .inl h
        · refine .inr ⟨old ++ r, t.closed _ hd _ ?_, moved_append _ _ _⟩
          exact (List.prefix_append_right_inj old).mpr ((List.prefix_append_right_inj new).mp hq)
      · rw [moved_of_not hold] at hq
        exact .inr ⟨q, t.closed d hd q hq, moved_of_not fun h => hold (h.trans hq)⟩

/-- A move is possible: there is something to move, nothing is in its way, and it is not moved
    below itself. -/
def movable (old new : List α) : Bool := t.isDir old && !t.present new && !(old <+: new : Bool)

theorem movable_iff {old new : List α} :
    t.movable old new = true ↔ old ∈ t.dirs ∧ (new ∉ t.dirs ∧ new ∉ t.files) ∧ ¬ old <+: new := by
  simp [movable, isDir, present, and_assoc]

theorem mem_move {old new d : List α} :
    d ∈ (t.move old new).dirs ↔ d <+: new ∨ ∃ q ∈ t.dirs, moved old new q = d := by
  show d ∈ new.inits ++ t.dirs.map (moved old new) ↔ _
  rw [List.mem_append, List.mem_inits, List.mem_map]

/-- A directory that is not below the moved one stays. -/
theorem mem_move_of_not {old new d : List α} (h : ¬ old <+: d) (hd : d ∈ t.dirs) :
    d ∈ (t.move old new).dirs :=
  t.mem_move.mpr (.inr ⟨d, hd, moved_of_not h⟩)

/-- Nothing is left at the old path. -/
theorem not_mem_move {old new : List α} (h : t.movable old new) : old ∉ (t.move old new).dirs := by
  obtain ⟨hold, hnew, hbelow⟩ := t.movable_iff.mp h
  rw [mem_move]
  rintro (hle | ⟨q, hq, hmoved⟩)
  · exact hbelow hle
  · by_cases hold' : old <+: q
    · obtain ⟨rest, rfl⟩ := hold'
      rw [moved_append] at hmoved
      have habove : new <+: old := ⟨rest, hmoved⟩
      exact hnew.1 (t.closed old hold new habove)
    · rw [moved_of_not hold'] at hmoved
      subst hmoved
      exact hold' List.prefix_rfl

/-- **Moving back.** After a move and the move back every directory is there again. -/
theorem mem_move_move {old new d : List α} (h : t.movable old new) (hd : d ∈ t.dirs) :
    d ∈ ((t.move old new).move new old).dirs := by
  obtain ⟨_, hnew, _⟩ := t.movable_iff.mp h
  rw [mem_move]
  by_cases hold : old <+: d
  · obtain ⟨rest, rfl⟩ := hold
    refine .inr ⟨new ++ rest, ?_, moved_append _ _ _⟩
    exact t.mem_move.mpr (.inr ⟨_, hd, moved_append _ _ _⟩)
  · refine .inr ⟨d, t.mem_move_of_not hold hd, moved_of_not ?_⟩
    intro habove
    exact hnew.1 (t.closed d hd new habove)

/-- The move back is possible. -/
theorem movable_move {old new : List α} (h : t.movable old new) :
    (t.move old new).movable new old := by
  obtain ⟨hold, hnew, hbelow⟩ := t.movable_iff.mp h
  have habove : ¬ new <+: old := fun hle => hnew.1 (t.closed old hold new hle)
  refine ((t.move old new).movable_iff).mpr ⟨?_, ⟨t.not_mem_move h, ?_⟩, habove⟩
  · exact t.mem_move.mpr (.inl List.prefix_rfl)
  · intro hfile
    obtain ⟨f, hf, hmoved⟩ := List.mem_map.mp hfile
    by_cases hle : old <+: f
    · obtain ⟨rest, rfl⟩ := hle
      rw [moved_append] at hmoved
      exact habove ⟨rest, hmoved⟩
    · rw [moved_of_not hle] at hmoved
      subst hmoved
      exact hle List.prefix_rfl

end FileTree

end CodexMonitor
