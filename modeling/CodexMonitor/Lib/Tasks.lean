import Mathlib.Data.List.AList
import Mathlib.Logic.Function.Basic

namespace CodexMonitor

/-!
# Tasks — tables of running tasks, and the maps they share

Concurrent code is modelled as a table that says where each task stands, beside the data
the tasks share.  A step moves one task on.

* `Tasks` — the table; `set` moves one task.
* `exists_set` — a task that stands somewhere still does after a move.
* `Each` — a condition on every task of the table.
* `Each.set` — one task moves, the others keep the condition.
* `Distinct` — the tasks have different keys.
* `Registry` — a map shared by the tasks, an association list with distinct keys.
* `Registry.Each`, with its rules for inserting, erasing and looking up.
-/

/-- Where each task stands; `none` for a number that no task has. -/
abbrev Tasks (τ : Type*) := Nat → Option τ

namespace Tasks

variable {τ : Type*} {P Q : Nat → τ → Prop} {tasks : Tasks τ} {i j : Nat} {t u : τ}

/-- The task `i` moves to `t`. -/
def set (tasks : Tasks τ) (i : Nat) (t : τ) : Tasks τ := Function.update tasks i (some t)

/-- No task runs. -/
def idle : Tasks τ := fun _ => none

@[simp] theorem idle_apply : (idle : Tasks τ) i = none := rfl

@[simp] theorem set_self : tasks.set i t i = some t := by
  simp [set]

@[simp] theorem set_of_ne (h : j ≠ i) : tasks.set i t j = tasks j := by
  simp [set, h]

@[simp] theorem set_set : (tasks.set i t).set i u = tasks.set i u := by
  simp [set]

/-- A task after a move is the one that moved or one that stood there before. -/
theorem set_eq_some (h : tasks.set i t j = some u) : j = i ∧ u = t ∨ j ≠ i ∧ tasks j = some u := by
  by_cases hj : j = i
  · subst hj
    rw [set_self] at h
    exact .inl ⟨rfl, (Option.some.inj h).symm⟩
  · rw [set_of_ne hj] at h
    exact .inr ⟨hj, h⟩

section Stands

variable {R : τ → Prop}

/-- **A task stands somewhere with `R`**, also after a move, if the task that moves is another
    one or still has `R`. -/
theorem exists_set (h : ∃ u, tasks j = some u ∧ R u)
    (hmove : j = i → ∀ u, tasks i = some u → R u → R t) :
    ∃ u, tasks.set i t j = some u ∧ R u := by
  obtain ⟨u, hu, hr⟩ := h
  by_cases hj : j = i
  · subst hj
    exact ⟨t, set_self, hmove rfl u hu hr⟩
  · exact ⟨u, (set_of_ne hj).trans hu, hr⟩

theorem exists_set_of_ne (h : ∃ u, tasks j = some u ∧ R u) (hj : j ≠ i) :
    ∃ u, tasks.set i t j = some u ∧ R u :=
  exists_set h fun heq => absurd heq hj

/-- A new task is none of those that stand somewhere. -/
theorem exists_set_of_none (h : ∃ u, tasks j = some u ∧ R u) (hi : tasks i = none) :
    ∃ u, tasks.set i t j = some u ∧ R u := by
  refine exists_set h ?_
  intro _ u hu
  rw [hi] at hu
  cases hu

end Stands

/-- The condition `P` holds of every task. -/
def Each (P : Nat → τ → Prop) (tasks : Tasks τ) : Prop := ∀ i t, tasks i = some t → P i t

theorem Each.idle : (idle : Tasks τ).Each P := by
  intro i t h
  cases h

theorem Each.mono (h : tasks.Each P) (himp : ∀ i t, tasks i = some t → P i t → Q i t) :
    tasks.Each Q :=
  fun i t ht => himp i t ht (h i t ht)

/-- **One task moves.** What the moved task meets, and the others still meet after the move,
    every task of the new table meets. -/
theorem Each.set (h : tasks.Each P) (hnew : Q i t)
    (hothers : ∀ j u, j ≠ i → tasks j = some u → P j u → Q j u) :
    (tasks.set i t).Each Q := by
  intro j u hu
  rcases set_eq_some hu with ⟨rfl, rfl⟩ | ⟨hj, hju⟩
  · exact hnew
  · exact hothers j u hj hju (h j u hju)

/-- The others need no argument where the condition does not depend on the shared data. -/
theorem Each.set_same (h : tasks.Each P) (hnew : P i t) : (tasks.set i t).Each P :=
  h.set hnew fun _ _ _ _ hp => hp

/-- One task runs. -/
theorem Each.set_alone (hnew : P i t) (hothers : ∀ j, j ≠ i → tasks j = none) :
    (tasks.set i t).Each P := by
  intro j u hu
  rcases set_eq_some hu with ⟨rfl, rfl⟩ | ⟨hj, hju⟩
  · exact hnew
  · rw [hothers j hj] at hju
    cases hju

section Keys

variable {κ : Type*} {key : τ → Option κ}

/-- No two tasks have the same key. -/
def Distinct (key : τ → Option κ) (tasks : Tasks τ) : Prop :=
  ∀ i j t u k, tasks i = some t → tasks j = some u → key t = some k → key u = some k → i = j

theorem Distinct.idle : (idle : Tasks τ).Distinct key := by
  intro i j t u k hi
  cases hi

/-- A task that moves keeps the keys distinct if the others do not have its new key. -/
theorem Distinct.set (h : tasks.Distinct key)
    (hnew : ∀ j u k, j ≠ i → tasks j = some u → key u = some k → key t ≠ some k) :
    (tasks.set i t).Distinct key := by
  intro a b u v k ha hb hu hv
  rcases set_eq_some ha with ⟨rfl, rfl⟩ | ⟨hai, ha'⟩ <;>
    rcases set_eq_some hb with ⟨rfl, rfl⟩ | ⟨hbi, hb'⟩
  · rfl
  · exact absurd hu (hnew b v k hbi hb' hv)
  · exact absurd hv (hnew a u k hai ha' hu)
  · exact h a b u v k ha' hb' hu hv

/-- A task that moves with its key, or without one. -/
theorem Distinct.set_same (h : tasks.Distinct key) (hi : tasks i = some t)
    (hkey : key u = key t ∨ key u = none) : (tasks.set i u).Distinct key := by
  apply h.set
  intro j v k hj hv hk hu
  rcases hkey with hsame | hnone
  · exact hj (h j i v t k hv hi hk (hsame ▸ hu))
  · rw [hnone] at hu
    cases hu

end Keys

end Tasks

/-- A map shared by tasks. -/
abbrev Registry (κ α : Type*) := AList fun _ : κ => α

namespace Registry

variable {κ α : Type*} [DecidableEq κ] {P Q : κ → α → Prop} {r : Registry κ α} {k : κ} {a : α}

/-- The condition `P` holds of every entry. -/
def Each (P : κ → α → Prop) (r : Registry κ α) : Prop := ∀ k a, r.lookup k = some a → P k a

theorem Each.empty : Each P (∅ : Registry κ α) := by
  intro k a h
  rw [AList.lookup_empty] at h
  cases h

theorem Each.mono (h : Each P r) (himp : ∀ k a, r.lookup k = some a → P k a → Q k a) :
    Each Q r :=
  fun k a hk => himp k a hk (h k a hk)

theorem lookup_insert_eq_some {k' : κ} {a' : α} (h : (r.insert k a).lookup k' = some a') :
    k' = k ∧ a' = a ∨ k' ≠ k ∧ r.lookup k' = some a' := by
  by_cases hk : k' = k
  · subst hk
    rw [AList.lookup_insert] at h
    exact .inl ⟨rfl, (Option.some.inj h).symm⟩
  · rw [AList.lookup_insert_ne hk] at h
    exact .inr ⟨hk, h⟩

theorem lookup_erase_eq_some {k' : κ} {a' : α} (h : (r.erase k).lookup k' = some a') :
    k' ≠ k ∧ r.lookup k' = some a' := by
  by_cases hk : k' = k
  · subst hk
    rw [AList.lookup_erase] at h
    cases h
  · rw [AList.lookup_erase_ne hk] at h
    exact ⟨hk, h⟩

theorem Each.insert (h : Each P r) (hnew : P k a) : Each P (r.insert k a) := by
  intro k' a' hk'
  rcases lookup_insert_eq_some hk' with ⟨rfl, rfl⟩ | ⟨_, hold⟩
  · exact hnew
  · exact h k' a' hold

theorem Each.erase (h : Each P r) : Each P (r.erase k) := by
  intro k' a' hk'
  exact h k' a' (lookup_erase_eq_some hk').2

/-- A registry in which no key can be looked up is empty. -/
theorem eq_empty_of_lookup (h : ∀ k, r.lookup k = none) : r = ∅ := by
  apply AList.ext
  show r.entries = []
  apply List.eq_nil_iff_forall_not_mem.mpr
  rintro ⟨k, a⟩ hmem
  have hk : r.lookup k = some a := AList.mem_lookup_iff.mpr hmem
  rw [h k] at hk
  cases hk

/-- An entry of the list is found by its key. -/
theorem lookup_of_mem {e : Sigma fun _ : κ => α} (h : e ∈ r.entries) :
    r.lookup e.1 = some e.2 :=
  AList.mem_lookup_iff.mpr h

theorem mem_of_lookup (h : r.lookup k = some a) : (⟨k, a⟩ : Sigma fun _ : κ => α) ∈ r.entries :=
  AList.mem_lookup_iff.mp h

/-- The entries whose value meets a condition, in their order. -/
def retain (r : Registry κ α) (p : α → Bool) : Registry κ α :=
  ⟨r.entries.filter fun e => p e.2, r.nodupKeys.sublist List.filter_sublist⟩

theorem lookup_retain {p : α → Bool} : (r.retain p).lookup k = some a ↔
    r.lookup k = some a ∧ p a = true := by
  show a ∈ (r.retain p).lookup k ↔ _
  rw [AList.mem_lookup_iff]
  show _ ∈ r.entries.filter _ ↔ _
  rw [List.mem_filter, ← AList.mem_lookup_iff]
  exact Iff.rfl

end Registry

end CodexMonitor
