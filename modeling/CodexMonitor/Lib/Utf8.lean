import CodexMonitor.Lib.Text

namespace CodexMonitor

/-!
# UTF-8 — encoding texts, and decoding what may be cut off

The encoding of characters as bytes, and a decoder that tells bytes that no character begins with
from bytes that only lack their end.

* `encode` — the bytes of a text.
* `Decoded`, `decodeFirst` — the first character of some bytes.
* `fromUtf8` — `str::from_utf8`, with the offset and the length of an error.
* `fromUtf8_encode` — the bytes of a text decode to it.
* `prefix_encode` — a prefix of these ends with a character, or within one.
* `fromUtf8_cut` — bytes that end within a character.
-/

namespace Utf8

/-! ### Encoding -/

/-- The bytes of a character. -/
def encodeChar (c : Char) : List UInt8 :=
  let v := c.toNat
  if v < 0x80 then [UInt8.ofNat v]
  else if v < 0x800 then [UInt8.ofNat (0xC0 + v / 64), UInt8.ofNat (0x80 + v % 64)]
  else if v < 0x10000 then
    [UInt8.ofNat (0xE0 + v / 4096), UInt8.ofNat (0x80 + v / 64 % 64), UInt8.ofNat (0x80 + v % 64)]
  else
    [UInt8.ofNat (0xF0 + v / 262144), UInt8.ofNat (0x80 + v / 4096 % 64),
      UInt8.ofNat (0x80 + v / 64 % 64), UInt8.ofNat (0x80 + v % 64)]

/-- The bytes of a text. -/
def encode (t : Text) : List UInt8 := t.flatMap encodeChar

@[simp] theorem encode_nil : encode [] = [] := rfl

@[simp] theorem encode_cons (c : Char) (t : Text) : encode (c :: t) = encodeChar c ++ encode t :=
  List.flatMap_cons

@[simp] theorem encode_append (t u : Text) : encode (t ++ u) = encode t ++ encode u :=
  List.flatMap_append

/-! ### Decoding -/

/-- What some bytes begin with. -/
inductive Decoded where
  | char (c : Char) (rest : List UInt8)
  | incomplete
  | invalid (errorLen : Nat)
  deriving DecidableEq, Repr

/-- What the first byte of a character says: how many bytes follow, between which bounds the next
    of them lies, and the value so far. -/
structure Lead where
  owed : Nat
  low : Nat
  high : Nat
  value : Nat
  deriving DecidableEq, Repr

/-- The first byte of a character.  The bounds exclude overlong forms, surrogates and values
    that are too large. -/
def lead (b : Nat) : Option Lead :=
  if b < 0x80 then some ⟨0, 0x80, 0xBF, b⟩
  else if b < 0xC2 then none
  else if b < 0xE0 then some ⟨1, 0x80, 0xBF, b - 0xC0⟩
  else if b = 0xE0 then some ⟨2, 0xA0, 0xBF, 0⟩
  else if b = 0xED then some ⟨2, 0x80, 0x9F, 0xD⟩
  else if b < 0xF0 then some ⟨2, 0x80, 0xBF, b - 0xE0⟩
  else if b = 0xF0 then some ⟨3, 0x90, 0xBF, 0⟩
  else if b < 0xF4 then some ⟨3, 0x80, 0xBF, b - 0xF0⟩
  else if b = 0xF4 then some ⟨3, 0x80, 0x8F, 4⟩
  else none

/-- The bytes that follow the first one, of which and of these `taken` are behind us. -/
def continuation : Nat → Nat → Nat → Nat → Nat → List UInt8 → Decoded
  | 0, _, _, value, _, rest => .char (Char.ofNat value) rest
  | _ + 1, _, _, _, _, [] => .incomplete
  | owed + 1, low, high, value, taken, b :: rest =>
      if low ≤ b.toNat ∧ b.toNat ≤ high then
        continuation owed 0x80 0xBF (value * 64 + (b.toNat - 0x80)) (taken + 1) rest
      else .invalid taken

/-- The first character of some bytes. -/
def decodeFirst (b : UInt8) (rest : List UInt8) : Decoded :=
  match lead b.toNat with
  | some l => continuation l.owed l.low l.high l.value 1 rest
  | none => .invalid 1

/-- `Utf8Error`: the offset up to which the bytes are valid, and the length of what is not; no
    length if the bytes end within a character. -/
structure Utf8Error where
  validUpTo : Nat
  errorLen : Option Nat
  deriving DecidableEq, Repr

/-- The characters of the bytes, after `offset` bytes that decoded to `text`. -/
def decodeFrom : Nat → Nat → Text → List UInt8 → Except Utf8Error Text
  | _, _, text, [] => .ok text
  | 0, _, text, _ :: _ => .ok text
  | fuel + 1, offset, text, b :: rest =>
      match decodeFirst b rest with
      | .char c rest' =>
          decodeFrom fuel (offset + ((b :: rest).length - rest'.length)) (text ++ [c]) rest'
      | .incomplete => .error ⟨offset, none⟩
      | .invalid errorLen => .error ⟨offset, some errorLen⟩

/-- `str::from_utf8`; each character takes a byte at least. -/
def fromUtf8 (bytes : List UInt8) : Except Utf8Error Text :=
  decodeFrom bytes.length 0 [] bytes

/-! ### The bytes of a character -/

/-- The bytes lie within the bounds and lead from the value to the target. -/
def Continues : Nat → Nat → Nat → List UInt8 → Nat → Prop
  | _, _, value, [], target => value = target
  | low, high, value, b :: rest, target =>
      (low ≤ b.toNat ∧ b.toNat ≤ high) ∧
        Continues 0x80 0xBF (value * 64 + (b.toNat - 0x80)) rest target

section Characters

variable {low high value target taken : Nat} {bytes cut more : List UInt8} {c : Char}

theorem continuation_append (h : Continues low high value bytes target) (taken : Nat)
    (more : List UInt8) :
    continuation bytes.length low high value taken (bytes ++ more) =
      .char (Char.ofNat target) more := by
  induction bytes generalizing low high value taken with
  | nil =>
    obtain rfl : value = target := h
    rfl
  | cons b bytes ih =>
    obtain ⟨hb, hrest⟩ := h
    rw [List.length_cons, List.cons_append, continuation, if_pos hb]
    exact ih hrest (taken + 1)

/-- Bytes that are cut off are incomplete. -/
theorem continuation_cut (h : Continues low high value bytes target) (taken : Nat)
    (hcut : cut <+: bytes) (hne : cut ≠ bytes) :
    continuation bytes.length low high value taken cut = .incomplete := by
  induction bytes generalizing low high value taken cut with
  | nil => exact absurd (List.prefix_nil.mp hcut) hne
  | cons b bytes ih =>
    obtain ⟨hb, hrest⟩ := h
    cases cut with
    | nil => rfl
    | cons b' cut =>
      obtain ⟨rfl, hcut'⟩ := List.cons_prefix_cons.mp hcut
      rw [List.length_cons, continuation, if_pos hb]
      refine ih hrest (taken + 1) hcut' ?_
      rintro rfl
      exact hne rfl

theorem toNat_ofNat_of_lt {n : Nat} (h : n < 256) : (UInt8.ofNat n).toNat = n := by
  rw [UInt8.toNat_ofNat', Nat.mod_eq_of_lt h]

/-- A character is no surrogate. -/
theorem toNat_valid (c : Char) : c.toNat < 0xD800 ∨ 0xDFFF < c.toNat ∧ c.toNat < 0x110000 :=
  c.valid

/-- **The bytes of a character** are a first byte and the bytes it owes. -/
theorem encodeChar_eq (c : Char) : ∃ b rest l, encodeChar c = b :: rest ∧
    lead b.toNat = some l ∧ l.owed = rest.length ∧
      Continues l.low l.high l.value rest c.toNat := by
  have hvalid := toNat_valid c
  unfold encodeChar
  simp only
  generalize c.toNat = v at hvalid ⊢
  by_cases h1 : v < 0x80
  · rw [if_pos h1]
    have hb : (UInt8.ofNat v).toNat = v := toNat_ofNat_of_lt (by omega)
    exact ⟨_, [], ⟨0, 0x80, 0xBF, v⟩, rfl, by rw [hb, lead, if_pos h1], rfl, rfl⟩
  rw [if_neg h1]
  have hlast : (UInt8.ofNat (0x80 + v % 64)).toNat = 0x80 + v % 64 :=
    toNat_ofNat_of_lt (by omega)
  by_cases h2 : v < 0x800
  · rw [if_pos h2]
    have hb : (UInt8.ofNat (0xC0 + v / 64)).toNat = 0xC0 + v / 64 := toNat_ofNat_of_lt (by omega)
    refine ⟨_, _, ⟨1, 0x80, 0xBF, v / 64⟩, rfl, ?_, rfl, ?_⟩
    · rw [hb]
      unfold lead
      rw [if_neg (by omega), if_neg (by omega), if_pos (by omega), Nat.add_sub_cancel_left]
    · simp only [Continues, hlast]
      omega
  rw [if_neg h2]
  have hmiddle : (UInt8.ofNat (0x80 + v / 64 % 64)).toNat = 0x80 + v / 64 % 64 :=
    toNat_ofNat_of_lt (by omega)
  by_cases h3 : v < 0x10000
  · rw [if_pos h3]
    have hb : (UInt8.ofNat (0xE0 + v / 4096)).toNat = 0xE0 + v / 4096 :=
      toNat_ofNat_of_lt (by omega)
    by_cases hlow : v / 4096 = 0
    · refine ⟨_, _, ⟨2, 0xA0, 0xBF, 0⟩, rfl, by rw [hb, hlow]; rfl, rfl, ?_⟩
      simp only [Continues, hlast, hmiddle]
      omega
    · by_cases hsurrogate : v / 4096 = 0xD
      · refine ⟨_, _, ⟨2, 0x80, 0x9F, 0xD⟩, rfl, by rw [hb, hsurrogate]; rfl, rfl, ?_⟩
        simp only [Continues, hlast, hmiddle]
        omega
      · refine ⟨_, _, ⟨2, 0x80, 0xBF, v / 4096⟩, rfl, ?_, rfl, ?_⟩
        · rw [hb]
          unfold lead
          rw [if_neg (by omega), if_neg (by omega), if_neg (by omega), if_neg (by omega),
            if_neg (by omega), if_pos (by omega), Nat.add_sub_cancel_left]
        · simp only [Continues, hlast, hmiddle]
          omega
  rw [if_neg h3]
  have hupper : (UInt8.ofNat (0x80 + v / 4096 % 64)).toNat = 0x80 + v / 4096 % 64 :=
    toNat_ofNat_of_lt (by omega)
  have hb : (UInt8.ofNat (0xF0 + v / 262144)).toNat = 0xF0 + v / 262144 :=
    toNat_ofNat_of_lt (by omega)
  by_cases hlow : v / 262144 = 0
  · refine ⟨_, _, ⟨3, 0x90, 0xBF, 0⟩, rfl, by rw [hb, hlow]; rfl, rfl, ?_⟩
    simp only [Continues, hlast, hmiddle, hupper]
    omega
  · by_cases hhigh : v / 262144 = 4
    · refine ⟨_, _, ⟨3, 0x80, 0x8F, 4⟩, rfl, by rw [hb, hhigh]; rfl, rfl, ?_⟩
      simp only [Continues, hlast, hmiddle, hupper]
      omega
    · refine ⟨_, _, ⟨3, 0x80, 0xBF, v / 262144⟩, rfl, ?_, rfl, ?_⟩
      · rw [hb]
        unfold lead
        rw [if_neg (by omega), if_neg (by omega), if_neg (by omega), if_neg (by omega),
          if_neg (by omega), if_neg (by omega), if_neg (by omega), if_pos (by omega),
          Nat.add_sub_cancel_left]
      · simp only [Continues, hlast, hmiddle, hupper]
        omega

/-- The bytes of a character, whatever follows, decode to it. -/
theorem decodeFirst_encodeChar (c : Char) (more : List UInt8) : ∃ b rest,
    encodeChar c = b :: rest ∧ decodeFirst b (rest ++ more) = .char c more := by
  obtain ⟨b, rest, l, hbytes, hlead, howed, hcontinues⟩ := encodeChar_eq c
  refine ⟨b, rest, hbytes, ?_⟩
  unfold decodeFirst
  simp only [hlead, howed]
  rw [continuation_append hcontinues, Char.ofNat_toNat]

/-- The bytes of a character that is cut off are incomplete. -/
theorem decodeFirst_cut {b : UInt8} {rest : List UInt8} (hcut : b :: rest <+: encodeChar c)
    (hne : b :: rest ≠ encodeChar c) : decodeFirst b rest = .incomplete := by
  obtain ⟨b', bytes, l, hbytes, hlead, howed, hcontinues⟩ := encodeChar_eq c
  rw [hbytes] at hcut hne
  obtain ⟨rfl, hcut'⟩ := List.cons_prefix_cons.mp hcut
  unfold decodeFirst
  simp only [hlead, howed]
  refine continuation_cut hcontinues 1 hcut' ?_
  rintro rfl
  exact hne rfl

theorem encodeChar_ne_nil (c : Char) : encodeChar c ≠ [] := by
  obtain ⟨b, rest, l, hbytes, -⟩ := encodeChar_eq c
  rw [hbytes]
  exact List.cons_ne_nil b rest

end Characters

/-! ### The bytes of a text -/

section Texts

variable {fuel offset : Nat} {text t : Text} {bytes : List UInt8}

theorem decodeFrom_encodeChar (fuel offset : Nat) (text : Text) (c : Char)
    (more : List UInt8) :
    decodeFrom (fuel + 1) offset text (encodeChar c ++ more) =
      decodeFrom fuel (offset + (encodeChar c).length) (text ++ [c]) more := by
  obtain ⟨b, rest, hbytes, hdecode⟩ := decodeFirst_encodeChar c more
  have hlength : (b :: (rest ++ more)).length - more.length = (b :: rest).length := by
    simp only [List.length_cons, List.length_append]
    omega
  rw [hbytes, List.cons_append, decodeFrom, hdecode]
  simp only [hlength]

theorem length_le_encode (t : Text) : t.length ≤ (encode t).length := by
  induction t with
  | nil => exact Nat.le_refl 0
  | cons c t ih =>
    have hpos := List.length_pos_iff.mpr (encodeChar_ne_nil c)
    rw [encode_cons, List.length_append, List.length_cons]
    omega

theorem decodeFrom_encode (hfuel : t.length ≤ fuel) (offset : Nat) (text : Text)
    (more : List UInt8) :
    decodeFrom fuel offset text (encode t ++ more) =
      decodeFrom (fuel - t.length) (offset + (encode t).length) (text ++ t) more := by
  induction t generalizing fuel offset text with
  | nil => rw [List.append_nil]; rfl
  | cons c t ih =>
    rw [List.length_cons] at hfuel
    obtain ⟨fuel, rfl⟩ : ∃ n, fuel = n + 1 := ⟨fuel - 1, by omega⟩
    rw [encode_cons, List.append_assoc, decodeFrom_encodeChar, ih (by omega), List.append_assoc,
      List.length_append, List.length_cons, Nat.add_assoc, Nat.add_sub_add_right]
    rfl

/-- **The bytes of a text** decode to it. -/
theorem fromUtf8_encode (t : Text) : fromUtf8 (encode t) = .ok t := by
  have hdecode := decodeFrom_encode (length_le_encode t) 0 [] []
  rw [List.append_nil] at hdecode
  unfold fromUtf8
  rw [hdecode]
  cases (encode t).length - t.length <;> rfl

/-- **Bytes that end within a character**: the offset is that of the character. -/
theorem fromUtf8_cut {c : Char} {cut : List UInt8} (t : Text) (hcut : cut <+: encodeChar c)
    (hne : cut ≠ encodeChar c) (hsome : cut ≠ []) :
    fromUtf8 (encode t ++ cut) = .error ⟨(encode t).length, none⟩ := by
  obtain ⟨b, rest, rfl⟩ := List.exists_cons_of_ne_nil hsome
  have hle := length_le_encode t
  have hfits : t.length ≤ (encode t ++ b :: rest).length := by
    rw [List.length_append]
    omega
  have hdecode := decodeFrom_encode hfits 0 [] (b :: rest)
  obtain ⟨fuel, hfuel⟩ : ∃ n, (encode t ++ b :: rest).length - t.length = n + 1 :=
    ⟨(encode t ++ b :: rest).length - t.length - 1, by
      simp only [List.length_append, List.length_cons]
      omega⟩
  unfold fromUtf8
  rw [hdecode, hfuel, decodeFrom, decodeFirst_cut hcut hne, Nat.zero_add]

/-- **A prefix of the bytes of a text** ends with a character, or within one. -/
theorem prefix_encode {front : List UInt8} (h : front <+: encode t) :
    ∃ whole left cut, t = whole ++ left ∧ front = encode whole ++ cut ∧
      (cut = [] ∨ ∃ c rest, left = c :: rest ∧ cut <+: encodeChar c ∧ cut ≠ encodeChar c) := by
  induction t generalizing front with
  | nil =>
    rw [List.prefix_nil.mp h]
    exact ⟨[], [], [], rfl, rfl, .inl rfl⟩
  | cons c t ih =>
    rw [encode_cons] at h
    by_cases hlong : (encodeChar c).length ≤ front.length
    · obtain ⟨rest, rfl⟩ : encodeChar c <+: front :=
        List.prefix_of_prefix_length_le (List.prefix_append _ _) h hlong
      obtain ⟨whole, left, cut, rfl, rfl, hcut⟩ := ih ((List.prefix_append_right_inj _).mp h)
      refine ⟨c :: whole, left, cut, rfl, ?_, hcut⟩
      rw [encode_cons, List.append_assoc]
    · have hcut : front <+: encodeChar c :=
        List.prefix_of_prefix_length_le h (List.prefix_append _ _) (by omega)
      refine ⟨[], c :: t, front, rfl, rfl, .inr ⟨c, t, rfl, hcut, ?_⟩⟩
      rintro rfl
      exact hlong (Nat.le_refl _)

end Texts

end Utf8

end CodexMonitor
