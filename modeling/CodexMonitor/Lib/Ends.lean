import Mathlib.Data.List.DropRight

namespace CodexMonitor

/-!
# The two ends of a list

* `rtake_append_rtake` — the end of a list that grows is the end of what was kept of it.
* `bothEnds` — the first elements of a list, and the last ones of the rest.
* `filter_rdrop_eq_iff` — dropping the last elements against dropping the last matches.
-/

variable {α : Type*} {l m : List α} {n : Nat}

theorem length_rtake (n : Nat) (l : List α) : (l.rtake n).length = min n l.length := by
  unfold List.rtake
  rw [List.length_drop]
  omega

theorem rtake_of_length_le (h : l.length ≤ n) : l.rtake n = l := by
  unfold List.rtake
  rw [Nat.sub_eq_zero_of_le h, List.drop_zero]

/-- What is appended fills the end alone. -/
theorem rtake_append_of_le (h : n ≤ m.length) : (l ++ m).rtake n = m.rtake n := by
  have hcut : (l ++ m).length - n = l.length + (m.length - n) := by
    rw [List.length_append]
    omega
  unfold List.rtake
  rw [hcut, List.drop_append]
  simp

/-- What was dropped before plays no part in the end. -/
theorem rtake_append_rtake (l m : List α) (n : Nat) :
    (l.rtake n ++ m).rtake n = (l ++ m).rtake n := by
  have hlen := length_rtake n l
  by_cases hle : l.length ≤ n
  · rw [rtake_of_length_le hle]
  · have hsplit : l.take (l.length - n) ++ l.rtake n = l := List.take_append_drop _ l
    have hlong : n ≤ (l.rtake n ++ m).length := by
      rw [List.length_append]
      omega
    have hgrown : l ++ m = l.take (l.length - n) ++ (l.rtake n ++ m) := by
      rw [← List.append_assoc, hsplit]
    rw [hgrown, rtake_append_of_le hlong]

/-- **Both ends**: the first `front` elements, and the last `back` of the others. -/
def bothEnds (front back : Nat) (l : List α) : List α :=
  l.take front ++ (l.drop front).rtake back

/-- The ends, by their lengths. -/
theorem bothEnds_eq (front back : Nat) (l : List α) :
    bothEnds front back l = l.take (min l.length front) ++
      l.rtake (min (l.length - min l.length front) back) := by
  have hfirst : l.take (min l.length front) = l.take front := by
    by_cases hle : l.length ≤ front
    · rw [min_eq_left hle, List.take_of_length_le le_rfl, List.take_of_length_le hle]
    · rw [min_eq_right (by omega)]
  have hlast : (l.drop front).rtake back =
      l.rtake (min (l.length - min l.length front) back) := by
    by_cases hle : l.length ≤ front
    · rw [List.drop_of_length_le hle, min_eq_left hle, Nat.sub_self, Nat.zero_min,
        List.rtake_nil, List.rtake_zero]
    · have hfront : min l.length front = front := by omega
      have hcut : l.length - min (l.length - front) back =
          front + (l.length - front - back) := by omega
      unfold List.rtake
      rw [hfront, List.drop_drop, List.length_drop, hcut]
  unfold bothEnds
  rw [hfirst, hlast]

/-! ### Dropping from the end -/

theorem rdrop_append_rtake (l : List α) (n : Nat) : l.rdrop n ++ l.rtake n = l :=
  List.take_append_drop _ _

/-- As much as was appended is dropped from it alone. -/
theorem rdrop_append_of_le (h : n ≤ m.length) : (l ++ m).rdrop n = l ++ m.rdrop n := by
  have hcut : (l ++ m).length - n = l.length + (m.length - n) := by
    rw [List.length_append]
    omega
  unfold List.rdrop
  rw [hcut, List.take_length_add_append]

theorem map_rdrop {β : Type*} (f : α → β) (l : List α) (n : Nat) :
    (l.map f).rdrop n = (l.rdrop n).map f := by
  unfold List.rdrop
  rw [List.length_map, List.map_take]

theorem map_rtake {β : Type*} (f : α → β) (l : List α) (n : Nat) :
    (l.map f).rtake n = (l.rtake n).map f := by
  unfold List.rtake
  rw [List.length_map, List.map_drop]

/-- **Dropping the last elements, and the last matches**: the same matches are left exactly if
    all that is dropped matches, or nothing else does. -/
theorem filter_rdrop_eq_iff (p : α → Bool) (l : List α) (n : Nat) :
    (l.rdrop n).filter p = (l.filter p).rdrop n ↔
      (∀ a ∈ l.rtake n, p a = true) ∨ ∀ a ∈ l.rdrop n, ¬ p a = true := by
  have hsplit : l.filter p = (l.rdrop n).filter p ++ (l.rtake n).filter p := by
    rw [← List.filter_append, rdrop_append_rtake]
  have hlength := congrArg List.length hsplit
  have hback := length_rtake n l
  have hfront : (l.rdrop n).length = l.length - n := List.length_take_of_le (Nat.sub_le _ _)
  have hle := List.length_filter_le p (l.rtake n)
  rw [List.length_append] at hlength
  have hlast : (∀ a ∈ l.rtake n, p a = true) ↔
      ((l.rtake n).filter p).length = (l.rtake n).length := List.length_filter_eq_length_iff.symm
  have hfirst : (∀ a ∈ l.rdrop n, ¬ p a = true) ↔ ((l.rdrop n).filter p).length = 0 := by
    rw [List.length_eq_zero_iff, List.filter_eq_nil_iff]
  rw [hlast, hfirst]
  constructor
  · intro heq
    have hkept := congrArg List.length heq
    unfold List.rdrop at hkept hfront heq hlength hfirst ⊢
    rw [List.length_take] at hkept
    omega
  · intro hcases
    -- both are front parts of one list, and equally long
    have hkept : ((l.rdrop n).filter p).length = (l.filter p).length - n := by
      have hzero : (l.rdrop n).length = 0 → ((l.rdrop n).filter p).length = 0 := by
        intro h
        rw [List.length_eq_zero_iff.mp h]
        rfl
      omega
    show _ = (l.filter p).take ((l.filter p).length - n)
    rw [← hkept, hsplit, List.take_left]

end CodexMonitor
