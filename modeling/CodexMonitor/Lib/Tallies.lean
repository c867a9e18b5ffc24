import CodexMonitor.Lib.OrderedMap
import Mathlib.Algebra.BigOperators.Group.List.Basic
import Mathlib.Algebra.Ring.Int.Defs

namespace CodexMonitor

/-!
# Tallies — changing the entries of a map, and their sums

* `OrderedMap.modify` — the value under a key, if there is one.
* `OrderedMap.bump` — an amount is added under a key, which may be new.
* `sum_modify`, `sum_bump` — what becomes of the sum over all entries.
-/

namespace OrderedMap

variable {κ α β : Type*} [DecidableEq κ] {key : κ} {entries : List (κ × α)}

def modify (key : κ) (f : α → α) : List (κ × α) → List (κ × α)
  | [] => []
  | e :: es => if e.1 = key then (e.1, f e.2) :: es else e :: modify key f es

def bump {M : Type*} [Add M] (key : κ) (amount : M) : List (κ × M) → List (κ × M)
  | [] => [(key, amount)]
  | e :: es => if e.1 = key then (e.1, e.2 + amount) :: es else e :: bump key amount es

/-- The keys stay as they are. -/
theorem keys_modify (key : κ) (f : α → α) (entries : List (κ × α)) :
    (modify key f entries).map Prod.fst = entries.map Prod.fst := by
  induction entries with
  | nil => rfl
  | cons e es ih =>
    rw [modify]
    split
    · rfl
    · rw [List.map_cons, List.map_cons, ih]

theorem get_isSome_iff : (get key entries).isSome = true ↔ key ∈ entries.map Prod.fst := by
  induction entries with
  | nil => simp
  | cons e es ih =>
    rw [get_cons, List.map_cons, List.mem_cons]
    by_cases he : e.1 = key
    · rw [if_pos he]
      exact iff_of_true rfl (.inl he.symm)
    · rw [if_neg he, ih]
      exact (or_iff_right fun h => he h.symm).symm

theorem exists_of_get {value : α} (h : get key entries = some value) :
    ∃ e ∈ entries, e.2 = value := by
  induction entries with
  | nil => cases h
  | cons e es ih =>
    rw [get_cons] at h
    split at h
    · exact ⟨e, List.mem_cons_self, Option.some.inj h⟩
    · obtain ⟨d, hd, hvalue⟩ := ih h
      exact ⟨d, List.mem_cons_of_mem _ hd, hvalue⟩

/-- A change that changes nothing. -/
theorem modify_of_id {f : α → α} (h : ∀ a, f a = a) : modify key f entries = entries := by
  induction entries with
  | nil => rfl
  | cons e es ih => rw [modify, h, ih, ite_self]

/-- A view of the values that the change respects is changed in the same way. -/
theorem map_modify {f : α → α} {g : α → β} {f' : β → β} (h : ∀ a, g (f a) = f' (g a)) :
    (modify key f entries).map (fun e => (e.1, g e.2)) =
      modify key f' (entries.map fun e => (e.1, g e.2)) := by
  induction entries with
  | nil => rfl
  | cons e es ih =>
    by_cases he : e.1 = key
    · simp only [modify, List.map_cons, if_pos he, h]
    · simp only [modify, List.map_cons, if_neg he, ih]

/-- What holds of all values still does, if the change keeps it. -/
theorem forall_modify (P : α → Prop) {f : α → α} (h : ∀ e ∈ entries, P e.2)
    (hf : ∀ a, P a → P (f a)) : ∀ e ∈ modify key f entries, P e.2 := by
  induction entries with
  | nil => exact h
  | cons e es ih =>
    rw [List.forall_mem_cons] at h
    rw [modify]
    split
    · exact List.forall_mem_cons.mpr ⟨hf _ h.1, h.2⟩
    · exact List.forall_mem_cons.mpr ⟨h.1, ih h.2⟩

/-- **The sum grows by what the value does.** -/
theorem sum_modify {M : Type*} [AddCommMonoid M] (measure : α → M) (f : α → α) (amount : M)
    (hkey : key ∈ entries.map Prod.fst) (hf : ∀ a, measure (f a) = measure a + amount) :
    ((modify key f entries).map fun e => measure e.2).sum =
      (entries.map fun e => measure e.2).sum + amount := by
  induction entries with
  | nil => cases hkey
  | cons e es ih =>
    rw [modify, List.map_cons, List.sum_cons]
    by_cases he : e.1 = key
    · rw [if_pos he, List.map_cons, List.sum_cons, hf, add_right_comm]
    · have hrest : key ∈ es.map Prod.fst :=
        (List.mem_cons.mp hkey).resolve_left fun h => he h.symm
      rw [if_neg he, List.map_cons, List.sum_cons, ih hrest, add_assoc]

/-- **The sum grows by the amount.** -/
theorem sum_bump {M : Type*} [AddCommMonoid M] (key : κ) (amount : M) (entries : List (κ × M)) :
    ((bump key amount entries).map Prod.snd).sum = (entries.map Prod.snd).sum + amount := by
  induction entries with
  | nil => simp [bump]
  | cons e es ih =>
    rw [bump, List.map_cons, List.sum_cons]
    split
    · rw [List.map_cons, List.sum_cons, add_right_comm]
    · rw [List.map_cons, List.sum_cons, ih, add_assoc]

/-- An entry is found under its key, if no other one has it. -/
theorem get_of_mem (h : (entries.map Prod.fst).Nodup) {e : κ × α} (he : e ∈ entries) :
    get e.1 entries = some e.2 := by
  induction entries with
  | nil => cases he
  | cons d es ih =>
    rw [List.map_cons, List.nodup_cons] at h
    rw [get_cons]
    rcases List.mem_cons.mp he with rfl | hmem
    · exact if_pos rfl
    · have hne : d.1 ≠ e.1 := fun heq => h.1 (heq ▸ List.mem_map_of_mem hmem)
      rw [if_neg hne]
      exact ih h.2 hmem

end OrderedMap

end CodexMonitor
