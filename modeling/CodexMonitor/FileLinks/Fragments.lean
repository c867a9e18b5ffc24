import CodexMonitor.FileLinks.FileUrls

namespace CodexMonitor.FileLinks

open Text

/-!
# File links — the fragment of a location

A line and a column stand in the fragment of a file URL, `#L12C3`.

* `UrlHash`, `NumberTexts` — the fragments that are left alone, and how numbers are printed.
* `hash_roundTrip` — the line and the column are read back unless a number needs an exponent.
-/

/-! ### Fragments -/

/-- The fragments that a URL parser leaves alone. -/
def UrlHash (hash : Text) : Prop :=
  hash = [] ∨ ∃ rest, hash = '#' :: rest ∧ rest ≠ [] ∧
    ∀ c ∈ rest, Percent.isUnreserved c = true ∨ c = '+'

/-- The least number that is printed with an exponent. -/
def exponentFrom : Nat := 10 ^ 21

/-- **How whole numbers are printed**: by their digits, which are read as the number, unless they
    need an exponent. -/
structure NumberTexts (numbers : Numbers) : Prop where
  signs : ∀ n, ∀ c ∈ numbers.print n, c.isDigit = true ∨ c ∈ ['e', '+', '.']
  digits : ∀ n < exponentFrom, numbers.print n ≠ [] ∧ (∀ c ∈ numbers.print n, c.isDigit = true) ∧
    numbers.parseInt (numbers.print n) = some n
  exponent : ∀ n, exponentFrom ≤ n → 'e' ∈ numbers.print n

variable {numbers : Numbers} {line column : Option Nat} {n : Nat} {hash more : Text}

theorem NumberTexts.unreserved (h : NumberTexts numbers) :
    ∀ c ∈ numbers.print n, Percent.isUnreserved c = true ∨ c = '+' := by
  intro c hc
  rcases h.signs n c hc with hdigit | hmem
  · exact .inl (by simp [Percent.isUnreserved, Char.isAlphanum, hdigit])
  · simp only [List.mem_cons, List.not_mem_nil, or_false] at hmem
    rcases hmem with rfl | rfl | rfl
    · exact .inl (by decide)
    · exact .inr rfl
    · exact .inl (by decide)

theorem urlHash_locationHash (h : NumberTexts numbers) :
    UrlHash (locationHash numbers line column) := by
  cases line with
  | none => exact .inl rfl
  | some l =>
    right
    cases column with
    | none =>
      refine ⟨'L' :: numbers.print l ++ [], rfl, List.cons_ne_nil _ _, fun c hc => ?_⟩
      rw [List.append_nil, List.mem_cons] at hc
      rcases hc with rfl | hc
      · exact .inl (by decide)
      · exact h.unreserved c hc
    | some k =>
      refine ⟨'L' :: numbers.print l ++ 'C' :: numbers.print k, rfl, List.cons_ne_nil _ _,
        fun c hc => ?_⟩
      rw [List.cons_append, List.mem_cons, List.mem_append, List.mem_cons] at hc
      rcases hc with rfl | hc | rfl | hc
      · exact .inl (by decide)
      · exact h.unreserved c hc
      · exact .inl (by decide)
      · exact h.unreserved c hc

/-- What follows a number in a fragment. -/
def columnText (numbers : Numbers) (column : Option Nat) : Text :=
  match column with
  | none => []
  | some k => 'C' :: numbers.print k

theorem columnText_head : ∀ c ∈ (columnText numbers column).head?, c.isDigit = false := by
  cases column with
  | none => simp [columnText]
  | some k =>
    intro c hc
    obtain rfl := Option.some.inj hc
    decide

theorem locationHash_some (l : Nat) : locationHash numbers (some l) column =
    '#' :: 'L' :: (numbers.print l ++ columnText numbers column) := by
  cases column <;> rfl

theorem takeWhile_digits {t : Text} (ht : ∀ c ∈ t, c.isDigit = true)
    (hmore : ∀ c ∈ more.head?, c.isDigit = false) :
    (t ++ more).takeWhile Char.isDigit = t ∧ (t ++ more).dropWhile Char.isDigit = more := by
  rw [List.takeWhile_append_of_pos ht, List.dropWhile_append_of_pos ht]
  cases more with
  | nil => exact ⟨List.append_nil t, rfl⟩
  | cons c more =>
    have hc : ¬ c.isDigit = true := by simp [hmore c rfl]
    rw [List.takeWhile_cons_of_neg hc, List.dropWhile_cons_of_neg hc]
    exact ⟨List.append_nil t, rfl⟩

theorem positive_print (h : NumberTexts numbers) (hn : n < exponentFrom) (hpos : 1 ≤ n) :
    parsePositiveInteger numbers (some (numbers.print n)) = some n := by
  obtain ⟨hne, -, hparse⟩ := h.digits n hn
  unfold parsePositiveInteger
  rw [Option.bind_some, if_neg (by simpa using hne), hparse, Option.filter_some,
    if_pos (by simpa using Nat.pos_of_ne_zero (by omega))]

/-- The fragment of a line that is printed by its digits. -/
theorem matchLocationHash_line (h : NumberTexts numbers) (hn : n < exponentFrom) :
    matchLocationHash (locationHash numbers (some n) none) = some (numbers.print n, none) := by
  obtain ⟨hne, hdigits, -⟩ := h.digits n hn
  have hhead : ∀ c ∈ (columnText numbers none).head?, c.isDigit = false := columnText_head
  obtain ⟨htake, hdrop⟩ := takeWhile_digits hdigits hhead
  rw [locationHash_some, matchLocationHash, htake, hdrop, if_neg (by simpa using ⟨by decide, hne⟩)]
  rfl

theorem matchLocationHash_column (h : NumberTexts numbers) (hn : n < exponentFrom) (k : Nat) :
    matchLocationHash (locationHash numbers (some n) (some k)) =
      if !(numbers.print k).isEmpty && (numbers.print k).all Char.isDigit then
        some (numbers.print n, some (numbers.print k))
      else none := by
  obtain ⟨hne, hdigits, -⟩ := h.digits n hn
  have hhead : ∀ c ∈ (columnText numbers (some k)).head?, c.isDigit = false := columnText_head
  obtain ⟨htake, hdrop⟩ := takeWhile_digits hdigits hhead
  rw [locationHash_some, matchLocationHash, htake, hdrop, if_neg (by simpa using ⟨by decide, hne⟩)]
  rfl

/-- A line that is printed with an exponent is not recognized. -/
theorem matchLocationHash_exponent (h : NumberTexts numbers) (hn : exponentFrom ≤ n) :
    matchLocationHash (locationHash numbers (some n) column) = none := by
  rw [locationHash_some, matchLocationHash]
  split
  · rfl
  next =>
    rw [List.dropWhile_append]
    have hrest : (numbers.print n).dropWhile Char.isDigit ≠ [] := by
      intro hnil
      exact absurd (List.dropWhile_eq_nil_iff.mp hnil 'e' (h.exponent n hn)) (by decide)
    rw [if_neg (by simpa using hrest)]
    obtain ⟨c, rest, hc⟩ := List.exists_cons_of_ne_nil hrest
    have hmem : c ∈ numbers.print n :=
      (List.dropWhile_sublist Char.isDigit).mem (hc ▸ List.mem_cons_self)
    have hdigit : c.isDigit = false := by
      have hhead := List.head?_dropWhile_not Char.isDigit (numbers.print n)
      rw [hc] at hhead
      simpa using hhead
    rw [hc, List.cons_append]
    -- a sign of an exponent is not the letter of a column
    have hletter : asciiLower c ≠ 'c' := by
      rcases h.signs n c hmem with hd | hd
      · rw [hdigit] at hd
        cases hd
      · simp only [List.mem_cons, List.not_mem_nil, or_false] at hd
        rcases hd with rfl | rfl | rfl <;> decide
    show (if _ then _ else _) = _
    rw [if_neg (by simp [hletter])]

/-- **The line and the column are read back** when both are printed by their digits. -/
theorem hash_roundTrip (h : NumberTexts numbers) (hline : ∀ l, line = some l → 1 ≤ l)
    (hcolumn : ∀ k, column = some k → 1 ≤ k) (hnone : line = none → column = none) :
    parseRecognizedFileUrlHash numbers (locationHash numbers line column) = (line, column) ↔
      (∀ l, line = some l → l < exponentFrom) ∧ ∀ k, column = some k → k < exponentFrom := by
  unfold parseRecognizedFileUrlHash
  cases line with
  | none =>
    obtain rfl := hnone rfl
    simp [locationHash, matchLocationHash]
  | some l =>
    by_cases hl : l < exponentFrom
    · have hread := positive_print h hl (hline l rfl)
      cases column with
      | none =>
        rw [matchLocationHash_line h hl]
        have hcolumn : parsePositiveInteger numbers none = none := rfl
        simp [hread, hcolumn, hl]
      | some k =>
        rw [matchLocationHash_column h hl]
        by_cases hk : k < exponentFrom
        · obtain ⟨hne, hdigits, -⟩ := h.digits k hk
          have hread' := positive_print h hk (hcolumn k rfl)
          rw [if_pos (by simpa using ⟨hne, hdigits⟩)]
          simp [hread, hread', hl, hk]
        · have hexponent := h.exponent k (by omega)
          rw [if_neg]
          · simp [hk]
          · intro hall
            rw [Bool.and_eq_true, List.all_eq_true] at hall
            exact absurd (hall.2 'e' hexponent) (by decide)
    · rw [matchLocationHash_exponent h (by omega)]
      simp [hl]

end CodexMonitor.FileLinks
