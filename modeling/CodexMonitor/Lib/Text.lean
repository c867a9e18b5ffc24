import Mathlib.Algebra.GroupWithZero.Nat
import Mathlib.Data.List.DropRight

namespace CodexMonitor

/-!
# Text — strings as lists of characters

The programs modelled here work on UTF-8 strings, cut them at byte offsets and compare
them after trimming.  A `Text` is the list of the string's characters; byte offsets are
recovered from the characters' UTF-8 widths.

* `trimStartBy` / `trimEndBy` / `trimBy` — trimming by an arbitrary class of characters,
  with the Unicode `White_Space` class (`isWhitespace`) as the standard instance.
* `byteTake` / `byteDrop` — the fallible slices `s.get(..n)` and `s.get(n..)`: `none` when
  the offset is out of range or falls inside a character.
* `utf16Len` / `utf16Take` — the lengths and slices of ECMAScript.
* `splitOn` / `splitInclusive` / `lines` / `joinWith` — splitting at a separator, the line iterator, joining.
-/

/-- A string, as the list of its characters. -/
abbrev Text := List Char

/-- The comparison of texts behind every membership test on them. -/
instance : LawfulBEq Text := inferInstance

/-- What is asked of all characters of a text is asked of one after the other. -/
instance Text.decidableForallMem (p : Char → Prop) [DecidablePred p] (t : Text) :
    Decidable (∀ c ∈ t, p c) := List.decidableBAll p t

namespace Text

/-! ### Whitespace and trimming -/

/-- The Unicode `White_Space` property. -/
def isWhitespace (c : Char) : Bool :=
  let n := c.toNat
  (9 ≤ n && n ≤ 13) || n == 0x20 || n == 0x85 || n == 0xA0 || n == 0x1680 ||
    (0x2000 ≤ n && n ≤ 0x200A) || n == 0x2028 || n == 0x2029 || n == 0x202F ||
    n == 0x205F || n == 0x3000

/-- Drop leading characters of the class `p`. -/
def trimStartBy (p : Char → Bool) (t : Text) : Text := t.dropWhile p

/-- Drop trailing characters of the class `p`. -/
def trimEndBy (p : Char → Bool) (t : Text) : Text := t.rdropWhile p

/-- Drop characters of the class `p` at both ends. -/
def trimBy (p : Char → Bool) (t : Text) : Text := trimEndBy p (trimStartBy p t)

/-- `str::trim_start`. -/
def trimStart (t : Text) : Text := trimStartBy isWhitespace t

/-- `str::trim_end`. -/
def trimEnd (t : Text) : Text := trimEndBy isWhitespace t

/-- `str::trim`. -/
def trim (t : Text) : Text := trimBy isWhitespace t

/-- The characters that `String.prototype.trim` of ECMAScript removes: those of the Unicode
    property without the next-line control, and the byte order mark. -/
def isJsWhitespace (c : Char) : Bool :=
  (isWhitespace c && c.toNat != 0x85) || c.toNat == 0xFEFF

/-- `String.prototype.trim`. -/
def jsTrim (t : Text) : Text := trimBy isJsWhitespace t

/-- A trimmed text is trimmed already. -/
theorem trimBy_trimBy (p : Char → Bool) (t : Text) : trimBy p (trimBy p t) = trimBy p t := by
  unfold trimBy trimEndBy trimStartBy
  -- the trimmed text is empty or begins where the leading trim stopped
  have hStart : ((t.dropWhile p).rdropWhile p).dropWhile p = (t.dropWhile p).rdropWhile p := by
    cases hr : (t.dropWhile p).rdropWhile p with
    | nil => rfl
    | cons c cs =>
        obtain ⟨rest, hd⟩ := List.rdropWhile_prefix p (l := t.dropWhile p)
        rw [hr, List.cons_append] at hd
        have hc := List.head?_dropWhile_not p t
        rw [← hd] at hc
        exact List.dropWhile_cons_of_neg (by simpa using hc)
  rw [hStart, List.rdropWhile_idempotent]

/-- Leading characters of the class do not matter to a trimmed text. -/
theorem trimBy_append {p : Char → Bool} {blank : Text} (h : ∀ c ∈ blank, p c) (t : Text) :
    trimBy p (blank ++ t) = trimBy p t := by
  unfold trimBy trimStartBy
  rw [List.dropWhile_append_of_pos h]

/-- Nor do trailing characters. -/
theorem trimBy_concat {p : Char → Bool} {c : Char} (h : p c) (t : Text) :
    trimBy p (t ++ [c]) = trimBy p t := by
  unfold trimBy trimStartBy trimEndBy
  rw [List.dropWhile_append]
  by_cases hblank : (t.dropWhile p).isEmpty
  · rw [if_pos hblank, List.isEmpty_iff.mp hblank, List.dropWhile_cons_of_pos h]
    rfl
  · rw [if_neg hblank, List.rdropWhile_concat_pos p _ _ h]

/-- A text that neither starts nor ends with a character of the class is trimmed. -/
theorem trimBy_of_ends {p : Char → Bool} {c d : Char} (hc : ¬ p c) (hd : ¬ p d) (t : Text) :
    trimBy p (c :: t ++ [d]) = c :: t ++ [d] := by
  unfold trimBy trimStartBy trimEndBy
  rw [List.cons_append, List.dropWhile_cons_of_neg hc, ← List.cons_append]
  exact List.rdropWhile_concat_neg p _ d hd

/-- Nothing is trimmed from a text without characters of the class. -/
theorem trimBy_of_forall {p : Char → Bool} {t : Text} (h : ∀ c ∈ t, p c = false) :
    trimBy p t = t := by
  unfold trimBy trimStartBy trimEndBy
  rw [List.dropWhile_eq_self_iff.mpr fun hl => by simp [h],
    List.rdropWhile_eq_self_iff.mpr fun hl => by simp [h]]

/-- What is left was there before. -/
theorem trimBy_subset (p : Char → Bool) (t : Text) : trimBy p t ⊆ t := fun _ hc =>
  (List.dropWhile_sublist _).mem ((List.rdropWhile_prefix _ _).sublist.mem hc)

/-- A character that is not trimmed stays the first one. -/
theorem head?_trimBy {p : Char → Bool} {c : Char} {t : Text} (hc : ¬ p c)
    (h : t.head? = some c) : (trimBy p t).head? = some c := by
  obtain ⟨rest, rfl⟩ := List.head?_eq_some_iff.mp h
  unfold trimBy trimEndBy trimStartBy
  rw [List.dropWhile_cons_of_neg hc]
  have hprefix := List.rdropWhile_prefix p (c :: rest)
  cases hcut : (c :: rest).rdropWhile p with
  | nil => exact absurd (List.rdropWhile_eq_nil_iff.mp hcut c List.mem_cons_self) hc
  | cons d cut =>
    rw [hcut, List.cons_prefix_cons] at hprefix
    exact congrArg some hprefix.1

/-- A text that goes on keeps what was not trimmed at its end. -/
theorem trimEndBy_append (p : Char → Bool) (t more : Text) :
    trimEndBy p t <+: trimEndBy p (t ++ more) := by
  unfold trimEndBy
  induction more using List.reverseRecOn with
  | nil => simp only [List.append_nil, List.prefix_refl]
  | append_singleton more c ih =>
    rw [← List.append_assoc, List.rdropWhile_concat]
    split
    · exact ih
    · exact (List.rdropWhile_prefix p t).trans
        ((List.prefix_append t more).trans (List.prefix_append _ [c]))

/-! ### Byte lengths and byte slices -/

/-- Length of the UTF-8 encoding. -/
def byteLen (t : Text) : Nat := (t.map Char.utf8Size).sum

/-- The prefix of `n` bytes, if `n` is a character boundary of the text. -/
def byteTake : Nat → Text → Option Text
  | 0, _ => some []
  | _ + 1, [] => none
  | n + 1, c :: cs =>
      if c.utf8Size ≤ n + 1 then (byteTake (n + 1 - c.utf8Size) cs).map (c :: ·) else none

/-- The text from byte `n` on, if `n` is a character boundary of the text. -/
def byteDrop : Nat → Text → Option Text
  | 0, t => some t
  | _ + 1, [] => none
  | n + 1, c :: cs =>
      if c.utf8Size ≤ n + 1 then byteDrop (n + 1 - c.utf8Size) cs else none

/-! ### UTF-16 lengths -/

/-- The number of UTF-16 code units, the `length` of a string in ECMAScript. -/
def utf16Len (t : Text) : Nat := (t.map fun c => if c.toNat < 0x10000 then 1 else 2).sum

/-- `slice(0, n)`; of a pair that is cut in two the replacement character is left. -/
def utf16Take (n : Nat) : Text → Text
  | [] => []
  | c :: cs =>
      if n = 0 then []
      else if c.toNat < 0x10000 then c :: utf16Take (n - 1) cs
      else if n = 1 then ['\uFFFD']
      else c :: utf16Take (n - 2) cs

/-! ### ASCII case -/

/-- Lower-case an ASCII letter; other characters are unchanged. -/
def asciiLower (c : Char) : Char :=
  if 'A' ≤ c && c ≤ 'Z' then Char.ofNat (c.toNat + 32) else c

/-- Equality up to ASCII letter case. -/
def eqIgnoreAsciiCase (a b : Text) : Bool := a.map asciiLower == b.map asciiLower

/-- Letters are lower-cased to letters; other characters are unchanged. -/
theorem asciiLower_eq_or (c : Char) : asciiLower c = c ∨
    (c.isAlpha = true ∧ (asciiLower c).isAlpha = true) ∧
      (isWhitespace c = false ∧ isWhitespace (asciiLower c) = false) ∧
        asciiLower (asciiLower c) = asciiLower c := by
  by_cases hc : c.toNat < 128
  · have hall : ∀ n < 128, asciiLower (Char.ofNat n) = Char.ofNat n ∨
        ((Char.ofNat n).isAlpha = true ∧ (asciiLower (Char.ofNat n)).isAlpha = true) ∧
          (isWhitespace (Char.ofNat n) = false ∧
            isWhitespace (asciiLower (Char.ofNat n)) = false) ∧
            asciiLower (asciiLower (Char.ofNat n)) = asciiLower (Char.ofNat n) := by
      decide
    have hchar := hall c.toNat hc
    rwa [Char.ofNat_toNat] at hchar
  · refine .inl ?_
    unfold asciiLower
    split
    · next hupper =>
      simp only [Bool.and_eq_true, decide_eq_true_eq] at hupper
      have hle : c.toNat ≤ 90 := hupper.2
      omega
    · rfl

/-- Only letters are changed, and only to letters. -/
theorem asciiLower_eq_iff {d : Char} (hd : d.isAlpha = false) (c : Char) :
    asciiLower c = d ↔ c = d := by
  rcases asciiLower_eq_or c with heq | ⟨⟨halpha, halpha'⟩, -⟩
  · rw [heq]
  · constructor
    · rintro rfl
      rw [halpha'] at hd
      cases hd
    · rintro rfl
      rw [halpha] at hd
      cases hd

theorem asciiLower_idem (c : Char) : asciiLower (asciiLower c) = asciiLower c := by
  rcases asciiLower_eq_or c with heq | ⟨-, -, heq⟩
  · rw [heq, heq]
  · exact heq

theorem isWhitespace_asciiLower (c : Char) : isWhitespace (asciiLower c) = isWhitespace c := by
  rcases asciiLower_eq_or c with heq | ⟨-, ⟨hblank, hblank'⟩, -⟩
  · rw [heq]
  · rw [hblank, hblank']

/-! ### Prefixes and suffixes -/

/-- `t.strip_prefix(p)`: what follows the prefix `p`, if the text starts with it. -/
def stripStart : Text → Text → Option Text
  | t, [] => some t
  | [], _ :: _ => none
  | c :: cs, p :: ps => if c = p then stripStart cs ps else none

theorem stripStart_append (t u : Text) : stripStart (t ++ u) t = some u := by
  induction t with
  | nil => cases u <;> rfl
  | cons c t ih => rw [List.cons_append, stripStart, if_pos rfl, ih]

theorem stripStart_eq_some_iff {t p rest : Text} :
    stripStart t p = some rest ↔ t = p ++ rest := by
  constructor
  · intro h
    induction p generalizing t with
    | nil =>
      cases t <;> exact Option.some.inj h
    | cons c p ih =>
      cases t with
      | nil => cases h
      | cons d t =>
        rw [stripStart, Option.ite_none_right_eq_some] at h
        rw [h.1, ih h.2, List.cons_append]
  · rintro rfl
    exact stripStart_append p rest

/-- `t.starts_with(p)`. -/
def startsWith (t p : Text) : Bool := p.isPrefixOf t

/-- `t.ends_with(p)`. -/
def endsWith (t p : Text) : Bool := p.isSuffixOf t

/-- `t.contains(needle)`. -/
def containsText : Text → Text → Bool
  | [], needle => needle.isEmpty
  | c :: cs, needle => needle.isPrefixOf (c :: cs) || containsText cs needle

/-! ### Splitting and joining -/

/-- `str::split` at a character: always at least one piece. -/
def splitOn (sep : Char) : Text → List Text
  | [] => [[]]
  | c :: cs =>
      if c = sep then [] :: splitOn sep cs
      else match splitOn sep cs with
        | [] => [[c]]
        | piece :: pieces => (c :: piece) :: pieces

theorem splitOn_ne_nil (sep : Char) (t : Text) : splitOn sep t ≠ [] := by
  cases t with
  | nil => simp [splitOn]
  | cons c cs =>
    rw [splitOn]
    split
    · simp
    · split <;> simp

theorem splitOn_cons_of_ne {sep c : Char} (h : c ≠ sep) (t : Text) :
    ∃ piece pieces, splitOn sep t = piece :: pieces ∧
      splitOn sep (c :: t) = (c :: piece) :: pieces := by
  cases hs : splitOn sep t with
  | nil => exact absurd hs (splitOn_ne_nil sep t)
  | cons piece pieces => exact ⟨piece, pieces, rfl, by rw [splitOn, if_neg h, hs]⟩

theorem splitOn_append_sep (sep : Char) (t u : Text) :
    splitOn sep (t ++ sep :: u) = splitOn sep t ++ splitOn sep u := by
  induction t with
  | nil => simp [splitOn]
  | cons c cs ih =>
    rw [List.cons_append, splitOn, splitOn, ih]
    by_cases hc : c = sep
    · simp [hc]
    · rw [if_neg hc, if_neg hc]
      cases hs : splitOn sep cs with
      | nil => exact absurd hs (splitOn_ne_nil sep cs)
      | cons piece pieces => simp

theorem splitOn_of_notMem {sep : Char} {t : Text} (h : sep ∉ t) : splitOn sep t = [t] := by
  induction t with
  | nil => rfl
  | cons c cs ih =>
    rw [List.mem_cons, not_or] at h
    rw [splitOn, if_neg (Ne.symm h.1), ih h.2]

/-- `str::split_inclusive` at a character: the pieces keep it, and none is empty. -/
def splitInclusive (sep : Char) : Text → List Text
  | [] => []
  | c :: cs =>
      if c = sep then [c] :: splitInclusive sep cs
      else match splitInclusive sep cs with
        | [] => [[c]]
        | piece :: pieces => (c :: piece) :: pieces

theorem splitInclusive_append_sep {sep : Char} {t : Text} (h : sep ∉ t) (u : Text) :
    splitInclusive sep (t ++ sep :: u) = (t ++ [sep]) :: splitInclusive sep u := by
  induction t with
  | nil =>
    rw [List.nil_append, splitInclusive, if_pos rfl]
    rfl
  | cons c t ih =>
    rw [List.mem_cons, not_or] at h
    rw [List.cons_append, splitInclusive, if_neg (Ne.symm h.1), ih h.2]
    rfl

theorem splitInclusive_of_notMem {sep : Char} {t : Text} (h : sep ∉ t) (hne : t ≠ []) :
    splitInclusive sep t = [t] := by
  induction t with
  | nil => exact absurd rfl hne
  | cons c t ih =>
    rw [List.mem_cons, not_or] at h
    rw [splitInclusive, if_neg (Ne.symm h.1)]
    by_cases ht : t = []
    · rw [ht]
      rfl
    · rw [ih h.2 ht]

/-- Drop one trailing carriage return. -/
def stripCr (t : Text) : Text := if t.getLast? = some '\r' then t.dropLast else t

/-- `str::lines`: the pieces between line feeds, without a final empty piece and without
    the carriage return of a `\r\n` ending.  A last line that no line feed ends keeps its
    carriage return. -/
def lines (t : Text) : List Text :=
  match (splitOn '\n' t).reverse with
  | [] => []
  | last :: terminated =>
      (terminated.reverse.map stripCr) ++ (if last.isEmpty then [] else [last])

theorem lines_eq {t last : Text} {pieces : List Text} (h : splitOn '\n' t = pieces ++ [last]) :
    lines t = pieces.map stripCr ++ (if last.isEmpty then [] else [last]) := by
  simp [lines, h]

/-- The lines on both sides of a line feed. -/
theorem lines_append_newline (t u : Text) :
    lines (t ++ '\n' :: u) = (splitOn '\n' t).map stripCr ++ lines u := by
  obtain ⟨pieces, last, hu⟩ : ∃ pieces last, splitOn '\n' u = pieces ++ [last] :=
    ⟨_, _, (List.dropLast_append_getLast (splitOn_ne_nil '\n' u)).symm⟩
  have htu : splitOn '\n' (t ++ '\n' :: u) = (splitOn '\n' t ++ pieces) ++ [last] := by
    rw [splitOn_append_sep, hu, List.append_assoc]
  rw [lines_eq htu, lines_eq hu, List.map_append, List.append_assoc]

theorem trim_stripCr (line : Text) : (stripCr line).trim = line.trim := by
  unfold stripCr
  split
  next hlast =>
    obtain ⟨init, rfl⟩ := List.getLast?_eq_some_iff.mp hlast
    rw [List.dropLast_concat]
    exact (trimBy_concat rfl init).symm
  next => rfl

/-- `[..].join(sep)`. -/
def joinWith (sep : Text) : List Text → Text
  | [] => []
  | [t] => t
  | t :: ts => t ++ sep ++ joinWith sep ts

theorem joinWith_cons {sep : Text} {pieces : List Text} (t : Text) (hne : pieces ≠ []) :
    joinWith sep (t :: pieces) = t ++ sep ++ joinWith sep pieces := by
  obtain ⟨u, us, rfl⟩ := List.exists_cons_of_ne_nil hne
  rfl

/-- The pieces of a text make up the text. -/
theorem joinWith_splitOn (sep : Char) (t : Text) : joinWith [sep] (splitOn sep t) = t := by
  induction t with
  | nil => rfl
  | cons c t ih =>
    by_cases hc : c = sep
    · have hsplit : splitOn sep (c :: t) = [] :: splitOn sep t := by rw [splitOn, if_pos hc]
      rw [hsplit, joinWith_cons _ (splitOn_ne_nil sep t), ih, hc]
      rfl
    · obtain ⟨piece, pieces, hrest, hsplit⟩ := splitOn_cons_of_ne hc t
      rw [hrest] at ih
      rw [hsplit, ← ih]
      cases pieces with
      | nil => rfl
      | cons u us => rfl

/-- **Joining can be undone** where no piece has the separator. -/
theorem splitOn_joinWith {sep : Char} {pieces : List Text} (hne : pieces ≠ [])
    (h : ∀ t ∈ pieces, sep ∉ t) : splitOn sep (joinWith [sep] pieces) = pieces := by
  induction pieces with
  | nil => exact absurd rfl hne
  | cons t ts ih =>
    have ht : splitOn sep t = [t] := splitOn_of_notMem (h t List.mem_cons_self)
    cases ts with
    | nil => exact ht
    | cons t' ts =>
      have hrest := ih (by simp) fun u hu => h u (List.mem_cons_of_mem _ hu)
      rw [joinWith, List.append_assoc, List.singleton_append, splitOn_append_sep, hrest, ht]
      · rfl
      · simp

end Text

end CodexMonitor
