import Mathlib.Data.List.Sort

namespace CodexMonitor

/-!
# Stable sorting — elements with the same key keep their order

* `filter_insertionSort` — the elements with one key, before and after sorting.
* `pairwise_insertionSort_iff` — a relation that only says something about elements with the same
  key holds of the sorted list exactly if it holds of the list.
-/

namespace StableSort

variable {α : Type*} (key : α → Nat)

theorem filter_orderedInsert (k : Nat) (a : α) (l : List α) :
    (l.orderedInsert (fun a b => key a ≤ key b) a).filter (fun b => key b = k) =
      (a :: l).filter fun b => key b = k := by
  induction l with
  | nil => rfl
  | cons b l ih =>
    rw [List.orderedInsert_cons]
    split
    · rfl
    · next hlater =>
      -- the element goes behind one with a smaller key
      by_cases hb : key b = k
      · have ha : key a ≠ k := by omega
        rw [List.filter_cons_of_pos (by simpa using hb), ih,
          List.filter_cons_of_neg (by simpa using ha), List.filter_cons_of_neg (by simpa using ha),
          List.filter_cons_of_pos (by simpa using hb)]
      · rw [List.filter_cons_of_neg (by simpa using hb), ih]
        by_cases ha : key a = k
        · rw [List.filter_cons_of_pos (by simpa using ha),
            List.filter_cons_of_pos (by simpa using ha), List.filter_cons_of_neg (by simpa using hb)]
        · rw [List.filter_cons_of_neg (by simpa using ha),
            List.filter_cons_of_neg (by simpa using ha), List.filter_cons_of_neg (by simpa using hb)]

/-- **The elements with one key** are in the order in which they were. -/
theorem filter_insertionSort (k : Nat) (l : List α) :
    (l.insertionSort fun a b => key a ≤ key b).filter (fun a => key a = k) =
      l.filter fun a => key a = k := by
  induction l with
  | nil => rfl
  | cons a l ih =>
    rw [List.insertionSort_cons, filter_orderedInsert]
    by_cases ha : key a = k
    · rw [List.filter_cons_of_pos (by simpa using ha), List.filter_cons_of_pos (by simpa using ha),
        ih]
    · rw [List.filter_cons_of_neg (by simpa using ha), List.filter_cons_of_neg (by simpa using ha),
        ih]

variable {key} {R : α → α → Prop} {l : List α}

/-- A relation that only says something about elements with the same key. -/
theorem pairwise_iff_filter (hR : ∀ a b, key a ≠ key b → R a b) :
    l.Pairwise R ↔ ∀ k, (l.filter fun a => key a = k).Pairwise R := by
  constructor
  · intro h k
    exact h.filter _
  · intro h
    induction l with
    | nil => exact .nil
    | cons a l ih =>
      refine List.pairwise_cons.mpr ⟨?_, ih fun k => ?_⟩
      · intro b hb
        by_cases hkey : key a = key b
        · have hsame := h (key a)
          rw [List.filter_cons_of_pos (by simp)] at hsame
          refine (List.pairwise_cons.mp hsame).1 b (List.mem_filter.mpr ⟨hb, ?_⟩)
          simpa using hkey.symm
        · exact hR a b hkey
      · have hall := h k
        by_cases ha : key a = k
        · rw [List.filter_cons_of_pos (by simpa using ha)] at hall
          exact (List.pairwise_cons.mp hall).2
        · rwa [List.filter_cons_of_neg (by simpa using ha)] at hall

/-- **Sorting does not matter** to a relation that only says something about elements with the
    same key. -/
theorem pairwise_insertionSort_iff (hR : ∀ a b, key a ≠ key b → R a b) :
    (l.insertionSort fun a b => key a ≤ key b).Pairwise R ↔ l.Pairwise R := by
  rw [pairwise_iff_filter hR, pairwise_iff_filter hR]
  simp only [filter_insertionSort]

end StableSort

end CodexMonitor
