import Mathlib.Data.List.Basic

namespace CodexMonitor

/-!
# Occurrences of a word in a growing list

Searching a list that arrives in pieces: where a word occurs first, and how much of the end of
the list may still become an occurrence.

* `findSub` — the position of the first occurrence.
* `overlapLen` — the longest proper prefix of the word that ends the list.
* `findSub_append_of_some` — an occurrence stays the first one when the list grows.
* `findSub_append_of_none` — without an occurrence, only the overlap matters for what follows.
* `overlapLen_append` — nor does anything else matter for the next overlap.
-/

variable {α : Type*} {word items front back newer : List α} {k n : Nat}

/-- An occurrence in the grown list that ends before the new part was there before. -/
theorem prefix_drop_of_le (h : word <+: (items ++ newer).drop k)
    (hle : k + word.length ≤ items.length) : word <+: items.drop k := by
  rw [List.drop_append_of_le_length (by omega)] at h
  refine List.prefix_of_prefix_length_le h (List.prefix_append _ _) ?_
  rw [List.length_drop]
  omega

/-- A word that occurs inside another occurrence, and ends before it, is part of that word. -/
theorem exists_part_of_occurrences {inner outer : List α} {j : Nat}
    (houter : outer <+: items.drop k) (hinner : inner <+: items.drop j) (hkj : k ≤ j)
    (hends : j + inner.length < k + outer.length) :
    ∃ before after, outer = before ++ inner ++ after ∧ after ≠ [] := by
  have hdrop : outer.drop (j - k) <+: items.drop j := by
    obtain ⟨rest, hrest⟩ := houter
    rw [← Nat.add_sub_cancel' hkj, ← List.drop_drop, ← hrest,
      List.drop_append_of_le_length (by omega), Nat.add_sub_cancel_left]
    exact List.prefix_append _ _
  have hpart : inner <+: outer.drop (j - k) := by
    refine List.prefix_of_prefix_length_le hinner hdrop ?_
    rw [List.length_drop]
    omega
  obtain ⟨after, hafter⟩ := hpart
  refine ⟨outer.take (j - k), after, ?_, ?_⟩
  · rw [List.append_assoc, hafter, List.take_append_drop]
  · rintro rfl
    have hlength := congrArg List.length hafter
    rw [List.append_nil, List.length_drop] at hlength
    omega

variable [DecidableEq α]

/-! ### The first occurrence -/

/-- The position of the first occurrence of a word. -/
def findSub (word : List α) : List α → Option Nat
  | [] => if word.isEmpty then some 0 else none
  | x :: items =>
      if word.isPrefixOf (x :: items) then some 0 else (findSub word items).map (· + 1)

theorem findSub_nil (hword : word ≠ []) : findSub word ([] : List α) = none := by
  unfold findSub
  rw [if_neg (by simpa using hword)]

theorem findSub_of_prefix (h : word <+: items) : findSub word items = some 0 := by
  cases items with
  | nil =>
    rw [List.prefix_nil.mp h]
    rfl
  | cons x items =>
    unfold findSub
    rw [if_pos (List.isPrefixOf_iff_prefix.mpr h)]

/-- **The first occurrence**: the word is there, and at no position before. -/
theorem findSub_eq_some_iff : findSub word items = some k ↔
    k ≤ items.length ∧ word <+: items.drop k ∧ ∀ j < k, ¬ word <+: items.drop j := by
  induction items generalizing k with
  | nil =>
    unfold findSub
    by_cases hword : word = []
    · rw [hword]
      simp only [List.isEmpty_nil, if_true, Option.some.injEq, List.length_nil, Nat.le_zero_eq]
      constructor
      · rintro rfl
        exact ⟨rfl, List.nil_prefix, fun j hj => absurd hj (Nat.not_lt_zero j)⟩
      · rintro ⟨rfl, -⟩
        rfl
    · rw [if_neg (by simpa using hword)]
      constructor
      · intro h
        cases h
      · rintro ⟨-, hprefix, -⟩
        rw [List.drop_nil] at hprefix
        exact absurd (List.prefix_nil.mp hprefix) hword
  | cons x items ih =>
    unfold findSub
    by_cases hhere : word.isPrefixOf (x :: items) = true
    · rw [if_pos hhere, Option.some.injEq]
      constructor
      · rintro rfl
        exact ⟨Nat.zero_le _, List.isPrefixOf_iff_prefix.mp hhere,
          fun j hj => absurd hj (Nat.not_lt_zero j)⟩
      · rintro ⟨-, -, hbefore⟩
        by_contra hne
        exact hbefore 0 (by omega) (List.isPrefixOf_iff_prefix.mp hhere)
    · rw [if_neg hhere, Option.map_eq_some_iff]
      have hnot : ¬ word <+: x :: items := fun h => hhere (List.isPrefixOf_iff_prefix.mpr h)
      constructor
      · rintro ⟨j, hj, rfl⟩
        obtain ⟨hle, hprefix, hbefore⟩ := ih.mp hj
        refine ⟨Nat.succ_le_succ hle, hprefix, ?_⟩
        intro i hi
        cases i with
        | zero => exact hnot
        | succ i => exact hbefore i (by omega)
      · rintro ⟨hle, hprefix, hbefore⟩
        cases k with
        | zero => exact absurd hprefix hnot
        | succ k =>
          exact ⟨k, ih.mpr ⟨Nat.le_of_succ_le_succ hle, hprefix,
            fun j hj => hbefore (j + 1) (by omega)⟩, rfl⟩

theorem findSub_eq_none_iff (hword : word ≠ []) :
    findSub word items = none ↔ ∀ k, ¬ word <+: items.drop k := by
  induction items with
  | nil =>
    unfold findSub
    rw [if_neg (by simpa using hword)]
    refine iff_of_true rfl ?_
    intro k hprefix
    rw [List.drop_nil] at hprefix
    exact hword (List.prefix_nil.mp hprefix)
  | cons x items ih =>
    unfold findSub
    by_cases hhere : word.isPrefixOf (x :: items) = true
    · rw [if_pos hhere]
      constructor
      · intro h
        cases h
      · intro hnot
        exact absurd (List.isPrefixOf_iff_prefix.mp hhere) (hnot 0)
    · rw [if_neg hhere, Option.map_eq_none_iff, ih]
      constructor
      · intro hrest k
        cases k with
        | zero => exact fun h => hhere (List.isPrefixOf_iff_prefix.mpr h)
        | succ k => exact hrest k
      · intro hnot k
        exact hnot (k + 1)

/-- The list around the first occurrence. -/
theorem split_of_findSub (h : findSub word items = some k) :
    items = items.take k ++ word ++ items.drop (k + word.length) := by
  obtain ⟨-, ⟨rest, hrest⟩, -⟩ := findSub_eq_some_iff.mp h
  conv_lhs => rw [← List.take_append_drop k items, ← hrest]
  rw [List.append_assoc, ← List.drop_drop, ← hrest, List.drop_left]

theorem add_length_le_of_findSub (h : findSub word items = some k) :
    k + word.length ≤ items.length := by
  obtain ⟨hle, hprefix, -⟩ := findSub_eq_some_iff.mp h
  have hlength := hprefix.length_le
  rw [List.length_drop] at hlength
  omega

/-- **Growth keeps the first occurrence.** -/
theorem findSub_append_of_some (h : findSub word items = some k) (newer : List α) :
    findSub word (items ++ newer) = some k := by
  have hend := add_length_le_of_findSub h
  obtain ⟨hle, hprefix, hbefore⟩ := findSub_eq_some_iff.mp h
  refine findSub_eq_some_iff.mpr ⟨?_, ?_, ?_⟩
  · rw [List.length_append]
    omega
  · rw [List.drop_append_of_le_length hle]
    exact hprefix.trans (List.prefix_append _ _)
  · intro j hj hearlier
    exact hbefore j hj (prefix_drop_of_le hearlier (by omega))

theorem findSub_append_left (hbefore : ∀ k < front.length, ¬ word <+: (front ++ items).drop k) :
    findSub word (front ++ items) = (findSub word items).map (· + front.length) := by
  induction front with
  | nil =>
    rw [List.nil_append]
    cases findSub word items <;> rfl
  | cons x front ih =>
    have hnot : ¬ word.isPrefixOf (x :: (front ++ items)) = true := fun h =>
      hbefore 0 (Nat.succ_pos _) (List.isPrefixOf_iff_prefix.mp h)
    rw [List.cons_append, findSub, if_neg hnot,
      ih fun k hk => hbefore (k + 1) (Nat.succ_lt_succ hk), Option.map_map]
    rfl

/-! ### The overlap with what follows -/

def overlapUpTo (items word : List α) : Nat → Nat
  | 0 => 0
  | k + 1 => if (word.take (k + 1)).isSuffixOf items then k + 1 else overlapUpTo items word k

/-- The length of the longest proper prefix of a word that ends the list. -/
def overlapLen (items word : List α) : Nat :=
  overlapUpTo items word (min items.length (word.length - 1))

theorem overlapUpTo_le (items word : List α) (n : Nat) : overlapUpTo items word n ≤ n := by
  induction n with
  | zero => exact Nat.le_refl _
  | succ n ih =>
    unfold overlapUpTo
    split
    · exact Nat.le_refl _
    · exact Nat.le_succ_of_le ih

theorem take_overlapUpTo_suffix (items word : List α) (n : Nat) :
    word.take (overlapUpTo items word n) <:+ items := by
  induction n with
  | zero =>
    rw [overlapUpTo, List.take_zero]
    exact List.nil_suffix
  | succ n ih =>
    unfold overlapUpTo
    split
    next hsuffix => exact List.isSuffixOf_iff_suffix.mp hsuffix
    · exact ih

theorem le_overlapUpTo (hk : k ≤ n) (hsuffix : word.take k <:+ items) :
    k ≤ overlapUpTo items word n := by
  induction n with
  | zero => exact hk
  | succ n ih =>
    unfold overlapUpTo
    split
    · exact hk
    next hnot =>
      refine ih ?_
      by_contra hlt
      have heq : k = n + 1 := by omega
      exact hnot (List.isSuffixOf_iff_suffix.mpr (heq ▸ hsuffix))

theorem overlapLen_le_length (items word : List α) : overlapLen items word ≤ items.length :=
  Nat.le_trans (overlapUpTo_le _ _ _) (Nat.min_le_left _ _)

theorem overlapLen_le_word (items word : List α) : overlapLen items word ≤ word.length - 1 :=
  Nat.le_trans (overlapUpTo_le _ _ _) (Nat.min_le_right _ _)

theorem take_overlapLen_suffix (items word : List α) :
    word.take (overlapLen items word) <:+ items := take_overlapUpTo_suffix _ _ _

theorem le_overlapLen (hk : k ≤ word.length - 1) (hsuffix : word.take k <:+ items) :
    k ≤ overlapLen items word := by
  refine le_overlapUpTo ?_ hsuffix
  have hlength := hsuffix.length_le
  rw [List.length_take] at hlength
  omega

/-- An occurrence that begins before the overlap would have made the overlap longer. -/
theorem not_prefix_of_overlap (hword : word ≠ []) (hnone : findSub word (front ++ back) = none)
    (hoverlap : overlapLen (front ++ back) word ≤ back.length) (hk : k < front.length) :
    ¬ word <+: (front ++ (back ++ newer)).drop k := by
  intro hprefix
  rw [← List.append_assoc] at hprefix
  have hlength : (front ++ back).length = front.length + back.length := List.length_append
  by_cases hle : k + word.length ≤ (front ++ back).length
  · exact (findSub_eq_none_iff hword).mp hnone k (prefix_drop_of_le hprefix hle)
  · -- the end of the list from `k` on is a proper prefix of the word
    rw [List.drop_append_of_le_length (by omega)] at hprefix
    have hpart : (front ++ back).drop k <+: word := by
      refine List.prefix_of_prefix_length_le (List.prefix_append _ newer) hprefix ?_
      rw [List.length_drop]
      omega
    have htake : word.take ((front ++ back).length - k) = (front ++ back).drop k := by
      obtain ⟨rest, rfl⟩ := hpart
      rw [← List.length_drop, List.take_left]
    have hlong : (front ++ back).length - k ≤ overlapLen (front ++ back) word :=
      le_overlapLen (by omega) (htake ▸ List.drop_suffix k _)
    omega

/-- **Without an occurrence** the search of the grown list starts at the overlap. -/
theorem findSub_append_of_none (hword : word ≠ []) (hnone : findSub word (front ++ back) = none)
    (hoverlap : overlapLen (front ++ back) word ≤ back.length) (newer : List α) :
    findSub word (front ++ (back ++ newer)) =
      (findSub word (back ++ newer)).map (· + front.length) :=
  findSub_append_left fun _ hk => not_prefix_of_overlap hword hnone hoverlap hk

/-- **The next overlap** is that of the part that was kept. -/
theorem overlapLen_append (hoverlap : overlapLen (front ++ back) word ≤ back.length)
    (newer : List α) :
    overlapLen (front ++ (back ++ newer)) word = overlapLen (back ++ newer) word := by
  refine Nat.le_antisymm ?_ ?_
  · have hsuffix := take_overlapLen_suffix (front ++ (back ++ newer)) word
    have hword := overlapLen_le_word (front ++ (back ++ newer)) word
    -- the overlap starts inside the part that was kept
    have hfits : overlapLen (front ++ (back ++ newer)) word ≤ (back ++ newer).length := by
      rw [List.length_append]
      by_cases hshort : overlapLen (front ++ (back ++ newer)) word ≤ newer.length
      · omega
      · rw [← List.append_assoc] at hsuffix hword hshort ⊢
        have hnewer : newer <:+ word.take (overlapLen (front ++ back ++ newer) word) := by
          refine List.suffix_of_suffix_length_le (List.suffix_append _ _) hsuffix ?_
          rw [List.length_take]
          omega
        obtain ⟨begin, hbegin⟩ := hnewer
        have hlength := congrArg List.length hbegin
        rw [List.length_append, List.length_take] at hlength
        have htake : word.take begin.length = begin := by
          have hshorter := congrArg (List.take begin.length) hbegin
          rw [List.take_left, List.take_take, Nat.min_eq_left (by omega)] at hshorter
          exact hshorter.symm
        have hkept : begin <:+ front ++ back := by
          rw [← hbegin] at hsuffix
          obtain ⟨rest, hrest⟩ := hsuffix
          rw [← List.append_assoc] at hrest
          exact ⟨rest, List.append_cancel_right hrest⟩
        have hlong : begin.length ≤ overlapLen (front ++ back) word :=
          le_overlapLen (by omega) (htake.symm ▸ hkept)
        omega
    refine le_overlapLen hword ?_
    refine List.suffix_of_suffix_length_le hsuffix (List.suffix_append _ _) ?_
    rw [List.length_take]
    omega
  · exact le_overlapLen (overlapLen_le_word _ _)
      ((take_overlapLen_suffix (back ++ newer) word).trans (List.suffix_append _ _))

end CodexMonitor
