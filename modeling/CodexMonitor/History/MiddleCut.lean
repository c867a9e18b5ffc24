import CodexMonitor.Lib.TextLength
import CodexMonitor.History.Truncate

namespace CodexMonitor.History

open Text

/-!
# History — the cut in the middle of a text

`utils/string/src/truncate.rs`: one walk over the characters finds what is kept at both ends of a
text and counts what is not.

* `splitWalk_prefix`, `splitWalk_removed`, `splitWalk_suffix` — the three stretches of the walk.
* `splitString_eq` — the kept ends are the longest that fit.
* `truncateMiddleChars_exact` — the truncated text, and the number in its marker.
-/

variable {B T idx : Nat} {st : SplitState} {front middle back rest s : Text}

/-! ### The walk -/

/-- Characters that fit in the beginning. -/
theorem splitWalk_prefix (hst : st.prefixEnd = idx) (hfits : idx + byteLen front ≤ B) :
    splitWalk B T idx st (front ++ rest) =
      splitWalk B T (idx + byteLen front) { st with prefixEnd := idx + byteLen front } rest := by
  induction front generalizing idx st with
  | nil =>
    subst hst
    rfl
  | cons c front ih =>
    rw [byteLen_cons] at hfits
    have hstep : splitStep B T st idx c = { st with prefixEnd := idx + c.utf8Size } := by
      unfold splitStep
      rw [if_pos (by omega)]
    rw [List.cons_append, splitWalk, hstep, byteLen_cons, ← Nat.add_assoc]
    exact ih rfl (by omega)

/-- Characters that reach beyond the beginning and start before the end. -/
theorem splitWalk_removed (hbegin : ∀ c more, middle = c :: more → B < idx + c.utf8Size)
    (hbefore : middle ≠ [] → idx + byteLen middle.dropLast < T) :
    splitWalk B T idx st (middle ++ rest) =
      splitWalk B T (idx + byteLen middle)
        { st with removedChars := st.removedChars + middle.length } rest := by
  induction middle generalizing idx st with
  | nil => rfl
  | cons c middle ih =>
    have hB := hbegin c middle rfl
    have hlast := hbefore (List.cons_ne_nil c middle)
    have hstep : splitStep B T st idx c = { st with removedChars := st.removedChars + 1 } := by
      unfold splitStep
      rw [if_neg (by omega), if_neg (by omega)]
    have hmore : middle ≠ [] → idx + c.utf8Size + byteLen middle.dropLast < T := by
      intro hne
      rw [List.dropLast_cons_of_ne_nil hne, byteLen_cons] at hlast
      omega
    have hcount : st.removedChars + (middle.length + 1) = st.removedChars + 1 + middle.length := by
      omega
    rw [List.cons_append, splitWalk, hstep, byteLen_cons, ← Nat.add_assoc, List.length_cons, hcount]
    exact ih (fun d more heq => by omega) hmore

/-- Once the suffix has begun nothing changes. -/
theorem splitWalk_started (hBT : B ≤ T) (hT : T ≤ idx) (hst : st.suffixStarted = true) :
    splitWalk B T idx st back = st := by
  induction back generalizing idx with
  | nil => rfl
  | cons c back ih =>
    have hpos := c.utf8Size_pos
    have hstep : splitStep B T st idx c = st := by
      unfold splitStep
      rw [if_neg (by omega), if_pos hT, if_pos hst]
    rw [splitWalk, hstep, ih (by omega)]

/-- Characters from the end on: the first one is where the suffix starts. -/
theorem splitWalk_suffix {prefixEnd removed : Nat} (hBT : B ≤ T) (hT : back ≠ [] → T ≤ idx) :
    ∃ started, splitWalk B T idx ⟨prefixEnd, idx + byteLen back, removed, false⟩ back =
      ⟨prefixEnd, idx, removed, started⟩ := by
  cases back with
  | nil => exact ⟨false, rfl⟩
  | cons c back =>
    have hT := hT (List.cons_ne_nil c back)
    have hpos := c.utf8Size_pos
    have hstep : splitStep B T ⟨prefixEnd, idx + byteLen (c :: back), removed, false⟩ idx c =
        ⟨prefixEnd, idx, removed, true⟩ := by
      unfold splitStep
      rw [if_neg (by omega), if_pos hT, if_neg Bool.false_ne_true]
    refine ⟨true, ?_⟩
    rw [splitWalk, hstep]
    exact splitWalk_started hBT (by omega) rfl

/-! ### The kept ends -/

/-- What the walk over a whole text leaves. -/
theorem splitWalk_eq {total : Nat} (htotal : total = byteLen (front ++ (middle ++ back)))
    (hfits : byteLen front ≤ B)
    (hbegin : ∀ c more, middle ++ back = c :: more → B < byteLen front + c.utf8Size)
    (hbefore : middle ≠ [] → byteLen front + byteLen middle.dropLast < T)
    (hback : back ≠ [] → T ≤ byteLen front + byteLen middle) (hBT : B ≤ T) :
    ∃ started, splitWalk B T 0 ⟨0, total, 0, false⟩ (front ++ (middle ++ back)) =
      ⟨byteLen front, byteLen front + byteLen middle, middle.length, started⟩ := by
  have hfront : splitWalk B T 0 ⟨0, total, 0, false⟩ (front ++ (middle ++ back)) =
      splitWalk B T (0 + byteLen front) ⟨0 + byteLen front, total, 0, false⟩ (middle ++ back) :=
    splitWalk_prefix rfl (by omega)
  have hmiddle : splitWalk B T (byteLen front) ⟨byteLen front, total, 0, false⟩ (middle ++ back) =
      splitWalk B T (byteLen front + byteLen middle)
        ⟨byteLen front, total, 0 + middle.length, false⟩ back :=
    splitWalk_removed (fun c more heq => hbegin c (more ++ back) (by rw [heq]; rfl)) hbefore
  rw [byteLen_append, byteLen_append, ← Nat.add_assoc] at htotal
  rw [Nat.zero_add] at hfront hmiddle
  rw [hfront, hmiddle, htotal]
  exact splitWalk_suffix hBT hback

/-- **The split of a text.** The kept ends are the longest that fit, and what is between them is
    counted. -/
theorem splitString_eq {beginning ending : Nat} (hbudget : beginning + ending < byteLen s) :
    ∃ front middle back, s = front ++ middle ++ back ∧
      splitString s beginning ending = (middle.length, front, back) ∧
      LongestPrefix beginning s front ∧ LongestSuffix ending s back := by
  have hne : s ≠ [] := by
    rintro rfl
    exact absurd hbudget (Nat.not_lt_zero _)
  obtain ⟨front, rest, rfl, hfits, hnext⟩ := exists_longestPrefix beginning s
  obtain ⟨middle, back, rfl, hmiddle, hback⟩ :=
    exists_before (byteLen front) (byteLen (front ++ rest) - ending) rest
  have htotal : byteLen (front ++ (middle ++ back)) =
      byteLen front + byteLen middle + byteLen back := by
    rw [byteLen_append, byteLen_append, Nat.add_assoc]
  rw [htotal] at hbudget hmiddle hback
  refine ⟨front, middle, back, (List.append_assoc _ _ _).symm, ?_,
    longestPrefix_of_next hfits hnext, ?_⟩
  · obtain ⟨started, hwalk⟩ := splitWalk_eq htotal.symm hfits hnext hmiddle hback (by omega)
    unfold splitString
    rw [if_neg (by simpa using hne), htotal, hwalk]
    dsimp only
    rw [if_neg (by omega), byteTake_append, ← byteLen_append, ← List.append_assoc, byteDrop_append]
    rfl
  · rw [← List.append_assoc]
    apply longestSuffix_of_front
    · by_cases hnil : back = []
      · rw [hnil]
        exact Nat.zero_le _
      · have hreached := hback hnil
        omega
    · intro hfront
      rw [byteLen_append, byteLen_append]
      by_cases hnil : middle = []
      · -- the last character before the suffix is in the prefix
        subst hnil
        rw [List.append_nil] at hfront ⊢
        have hshort := byteLen_dropLast_lt hfront
        have hzero : byteLen ([] : Text) = 0 := rfl
        omega
      · have hlast := hmiddle hnil
        rw [List.dropLast_append_of_ne_nil hnil, byteLen_append]
        omega

/-! ### The truncated text -/

/-- **The cut is exact.** A text longer than its budget is a prefix and a suffix of itself around
    the marker: they do not overlap, they are the longest that fit in the two halves of the budget,
    and the marker says how many characters are in neither. -/
theorem truncateMiddleChars_exact (s : Text) (maxBytes : Nat) (hpos : 0 < maxBytes)
    (hlong : maxBytes < byteLen s) :
    ∃ front middle back, s = front ++ middle ++ back ∧
      truncateMiddleChars s maxBytes = front ++
        ("…".toList ++ digits middle.length ++ " chars truncated…".toList) ++ back ∧
      LongestPrefix (maxBytes / 2) s front ∧
      LongestSuffix (maxBytes - maxBytes / 2) s back := by
  have hne : s ≠ [] := by
    rintro rfl
    exact absurd hlong (Nat.not_lt_zero _)
  have hbudget : maxBytes / 2 + (maxBytes - maxBytes / 2) < byteLen s := by omega
  obtain ⟨front, middle, back, hsplit, hstring, hfront, hback⟩ := splitString_eq hbudget
  refine ⟨front, middle, back, hsplit, ?_, hfront, hback⟩
  unfold truncateMiddleChars truncateWithByteEstimate splitBudget
  rw [if_neg (by simpa using hne), if_neg (by omega), if_neg (by omega)]
  dsimp only
  rw [hstring]
  rfl

/-- Characters of three bytes, and halves of three and four bytes. -/
theorem threeEuros_cut :
    truncateMiddleChars "€€€".toList 7 = "€…1 chars truncated…€".toList ∧
      ∃ front middle back, "€€€".toList = front ++ middle ++ back ∧
        truncateMiddleChars "€€€".toList 7 = front ++
          ("…".toList ++ digits middle.length ++ " chars truncated…".toList) ++ back ∧
        LongestPrefix (7 / 2) "€€€".toList front ∧
        LongestSuffix (7 - 7 / 2) "€€€".toList back :=
  ⟨by decide, truncateMiddleChars_exact "€€€".toList 7 (by decide) (by decide)⟩

end CodexMonitor.History
