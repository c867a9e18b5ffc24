import CodexMonitor.Lib.Text

namespace CodexMonitor.Text

/-!
# Text — lengths in bytes and in UTF-16 units

* `byteLen_append`, `utf16Len_append` — lengths add up.
* `byteLen_cons_pos`, `utf16Len_pos` — only the empty text has none.
* `utf16Len_utf16Take_le` — a slice is as long as it is cut.
* `LongestPrefix`, `LongestSuffix` — the longest ends of a text within a number of bytes.
* `exists_longestPrefix`, `exists_before` — where a text is cut for them.
-/

theorem byteLen_append (t u : Text) : byteLen (t ++ u) = byteLen t + byteLen u := by
  simp [byteLen]

theorem byteLen_cons_pos (c : Char) (t : Text) : 0 < byteLen (c :: t) := by
  rw [byteLen, List.map_cons, List.sum_cons]
  have hpos := c.utf8Size_pos
  omega

theorem byteLen_pos {t : Text} (h : t ≠ []) : 0 < byteLen t := by
  obtain ⟨c, rest, rfl⟩ := List.exists_cons_of_ne_nil h
  exact byteLen_cons_pos c rest

theorem byteLen_cons (c : Char) (t : Text) : byteLen (c :: t) = c.utf8Size + byteLen t := by
  rw [byteLen, List.map_cons, List.sum_cons]
  rfl

theorem byteLen_le_of_prefix {t u : Text} (h : t <+: u) : byteLen t ≤ byteLen u := by
  obtain ⟨rest, rfl⟩ := h
  rw [byteLen_append]
  omega

/-- A text without its last character is shorter. -/
theorem byteLen_dropLast_lt {t : Text} (h : t ≠ []) : byteLen t.dropLast < byteLen t := by
  have hpos := byteLen_cons_pos (t.getLast h) []
  rw [← List.dropLast_append_getLast h, List.dropLast_concat, byteLen_append]
  omega

/-! ### Slices at character boundaries -/

theorem byteTake_append (t u : Text) : byteTake (byteLen t) (t ++ u) = some t := by
  induction t with
  | nil => cases u <;> rfl
  | cons c t ih =>
    have hpos := c.utf8Size_pos
    obtain ⟨n, hn⟩ : ∃ n, c.utf8Size + byteLen t = n + 1 := ⟨c.utf8Size + byteLen t - 1, by omega⟩
    rw [byteLen_cons, hn, List.cons_append, byteTake, if_pos (by omega),
      show n + 1 - c.utf8Size = byteLen t by omega, ih]
    rfl

theorem byteDrop_append (t u : Text) : byteDrop (byteLen t) (t ++ u) = some u := by
  induction t with
  | nil => cases u <;> rfl
  | cons c t ih =>
    have hpos := c.utf8Size_pos
    obtain ⟨n, hn⟩ : ∃ n, c.utf8Size + byteLen t = n + 1 := ⟨c.utf8Size + byteLen t - 1, by omega⟩
    rw [byteLen_cons, hn, List.cons_append, byteDrop, if_pos (by omega),
      show n + 1 - c.utf8Size = byteLen t by omega, ih]

/-! ### The longest ends -/

/-- **The longest prefix** of a text within `n` bytes. -/
structure LongestPrefix (n : Nat) (t front : Text) : Prop where
  isPrefix : front <+: t
  fits : byteLen front ≤ n
  longest : ∀ p, p <+: t → byteLen p ≤ n → p <+: front

/-- **The longest suffix** of a text within `n` bytes. -/
structure LongestSuffix (n : Nat) (t back : Text) : Prop where
  isSuffix : back <:+ t
  fits : byteLen back ≤ n
  longest : ∀ q, q <:+ t → byteLen q ≤ n → q <:+ back

/-- The next character would not fit. -/
theorem longestPrefix_of_next {n : Nat} {front rest : Text} (hfits : byteLen front ≤ n)
    (hnext : ∀ c more, rest = c :: more → n < byteLen front + c.utf8Size) :
    LongestPrefix n (front ++ rest) front where
  isPrefix := List.prefix_append front rest
  fits := hfits
  longest := by
    intro p hp hle
    rcases List.prefix_or_prefix_of_prefix hp (List.prefix_append front rest) with h | h
    · exact h
    · obtain ⟨more, rfl⟩ := h
      cases more with
      | nil => exact ⟨[], by simp⟩
      | cons c more =>
        obtain ⟨tail, htail⟩ := (List.prefix_append_right_inj front).mp hp
        have hlong := hnext c (more ++ tail) htail.symm
        rw [byteLen_append, byteLen_cons] at hle
        omega

/-- The character before it would not fit. -/
theorem longestSuffix_of_front {n : Nat} {front back : Text} (hfits : byteLen back ≤ n)
    (hlast : front ≠ [] → n < byteLen (front ++ back) - byteLen front.dropLast) :
    LongestSuffix n (front ++ back) back where
  isSuffix := List.suffix_append front back
  fits := hfits
  longest := by
    intro q hq hle
    rcases List.suffix_or_suffix_of_suffix hq (List.suffix_append front back) with h | h
    · exact h
    · obtain ⟨more, rfl⟩ := h
      obtain ⟨start, hstart⟩ := hq
      rw [← List.append_assoc] at hstart
      have hfront : start ++ more = front := List.append_cancel_right hstart
      by_cases hmore : more = []
      · subst hmore
        exact List.suffix_refl back
      · -- it begins no later than the last character of what is before
        have hne : front ≠ [] := by
          rw [← hfront]
          simp [hmore]
        have hlong := hlast hne
        have hdrop : byteLen front.dropLast = byteLen start + byteLen more.dropLast := by
          rw [← hfront, List.dropLast_append_of_ne_nil hmore, byteLen_append]
        rw [byteLen_append] at hle hlong
        have htotal : byteLen front = byteLen start + byteLen more := by
          rw [← hfront, byteLen_append]
        omega

theorem exists_longestPrefix (n : Nat) (t : Text) :
    ∃ front rest, t = front ++ rest ∧ byteLen front ≤ n ∧
      ∀ c more, rest = c :: more → n < byteLen front + c.utf8Size := by
  induction t generalizing n with
  | nil => exact ⟨[], [], rfl, Nat.zero_le n, fun _ _ h => by cases h⟩
  | cons c t ih =>
    by_cases hc : c.utf8Size ≤ n
    · obtain ⟨front, rest, rfl, hfits, hnext⟩ := ih (n - c.utf8Size)
      refine ⟨c :: front, rest, rfl, ?_, fun d more heq => ?_⟩
      · rw [byteLen_cons]
        omega
      · have hlong := hnext d more heq
        rw [byteLen_cons]
        omega
    · refine ⟨[], c :: t, rfl, Nat.zero_le n, fun d more heq => ?_⟩
      obtain ⟨rfl, -⟩ := List.cons_eq_cons.mp heq
      show n < 0 + c.utf8Size
      omega

/-- A text that begins at byte `offset` is cut where its first character from byte `target` on
    begins. -/
theorem exists_before (offset target : Nat) (t : Text) :
    ∃ front back, t = front ++ back ∧ (front ≠ [] → offset + byteLen front.dropLast < target) ∧
      (back ≠ [] → target ≤ offset + byteLen front) := by
  induction t generalizing offset with
  | nil => exact ⟨[], [], rfl, fun h => absurd rfl h, fun h => absurd rfl h⟩
  | cons c t ih =>
    by_cases hlt : offset < target
    · obtain ⟨front, back, rfl, hfront, hback⟩ := ih (offset + c.utf8Size)
      refine ⟨c :: front, back, rfl, fun _ => ?_, fun hne => ?_⟩
      · by_cases hnil : front = []
        · rw [hnil]
          exact hlt
        · have hlast := hfront hnil
          rw [List.dropLast_cons_of_ne_nil hnil, byteLen_cons]
          omega
      · have hreached := hback hne
        rw [byteLen_cons]
        omega
    · exact ⟨[], c :: t, rfl, fun h => absurd rfl h, fun _ => by simpa [byteLen] using hlt⟩

theorem utf16Len_append (t u : Text) : utf16Len (t ++ u) = utf16Len t + utf16Len u := by
  simp [utf16Len]

theorem utf16Len_cons (c : Char) (t : Text) :
    utf16Len (c :: t) = (if c.toNat < 0x10000 then 1 else 2) + utf16Len t := by
  rw [utf16Len, List.map_cons, List.sum_cons]
  rfl

theorem utf16Len_cons_pos (c : Char) (t : Text) : 0 < utf16Len (c :: t) := by
  rw [utf16Len_cons]
  split
  · omega
  · omega

theorem utf16Len_pos {t : Text} (h : t ≠ []) : 0 < utf16Len t := by
  obtain ⟨c, rest, rfl⟩ := List.exists_cons_of_ne_nil h
  exact utf16Len_cons_pos c rest

/-- **A slice** is at most as long as it is cut. -/
theorem utf16Len_utf16Take_le (n : Nat) (t : Text) : utf16Len (utf16Take n t) ≤ n := by
  induction t generalizing n with
  | nil => exact Nat.zero_le n
  | cons c t ih =>
    unfold utf16Take
    by_cases hzero : n = 0
    · rw [if_pos hzero]
      exact Nat.zero_le n
    · rw [if_neg hzero]
      by_cases hsmall : c.toNat < 0x10000
      · have hrest := ih (n - 1)
        rw [if_pos hsmall, utf16Len_cons, if_pos hsmall]
        omega
      · rw [if_neg hsmall]
        by_cases hone : n = 1
        · rw [if_pos hone, hone]
          decide
        · have hrest := ih (n - 2)
          rw [if_neg hone, utf16Len_cons, if_neg hsmall]
          omega

end CodexMonitor.Text
