import CodexMonitor.Lib.CaseMapping
import CodexMonitor.Lib.Utf8

namespace CodexMonitor

/-!
# Percent encoding — URI components

`encodeURIComponent` and `decodeURIComponent`, on texts without lone surrogates.  A character is
kept, or each byte of its UTF-8 encoding is written as `%` and two hexadecimal digits.

* `encodeComponent`, `decodeComponent` — the two functions; the second may fail.
* `Writes` — a text written with some characters kept and some escaped.
* `decodeComponent_writes` — what is written so is read back.
* `decodeFrom_head` — what a text begins with that is read as one beginning with an ASCII sign.
-/

namespace Percent

open Text

/-! ### Encoding -/

/-- The characters that are kept. -/
def isUnreserved (c : Char) : Bool :=
  c.isAlphanum || c ∈ ['-', '_', '.', '!', '~', '*', Char.ofNat 0x27, '(', ')']

def hexDigit (n : Nat) : Char := Char.ofNat (if n < 10 then 0x30 + n else 0x37 + n)

def hexValue (c : Char) : Option Nat :=
  if '0' ≤ c ∧ c ≤ '9' then some (c.toNat - 0x30)
  else if 'A' ≤ c ∧ c ≤ 'F' then some (c.toNat - 0x37)
  else if 'a' ≤ c ∧ c ≤ 'f' then some (c.toNat - 0x57)
  else none

def escapeByte (b : UInt8) : Text := ['%', hexDigit (b.toNat / 16), hexDigit (b.toNat % 16)]

/-- A character with each of its bytes escaped. -/
def escapeChar (c : Char) : Text := (Utf8.encodeChar c).flatMap escapeByte

def encodeChar (c : Char) : Text := if isUnreserved c then [c] else escapeChar c

def encodeComponent (t : Text) : Text := t.flatMap encodeChar

/-! ### Decoding -/

/-- The bytes that are escaped at the beginning of a text. -/
def escapedBytes : Text → List UInt8
  | '%' :: high :: low :: rest =>
      match hexValue high, hexValue low with
      | some x, some y => UInt8.ofNat (16 * x + y) :: escapedBytes rest
      | _, _ => []
  | _ => []

/-- `fuel` bounds the characters. -/
def decodeFrom : Nat → Text → Option Text
  | _, [] => some []
  | 0, _ :: _ => none
  | fuel + 1, c :: rest =>
      if c ≠ '%' then (decodeFrom fuel rest).map (c :: ·)
      else match escapedBytes (c :: rest) with
        | [] => none
        | b :: bytes => match Utf8.decodeFirst b bytes with
          | .char d more =>
              (decodeFrom fuel ((c :: rest).drop (3 * (bytes.length + 1 - more.length)))).map (d :: ·)
          | _ => none

def decodeComponent (t : Text) : Option Text := decodeFrom t.length t

/-! ### Reading back what is written -/

variable {c d : Char} {t u : Text} {fuel : Nat}

theorem hexValue_hexDigit : ∀ n < 16, hexValue (hexDigit n) = some n := by decide

theorem escapedBytes_escapeByte (b : UInt8) (rest : Text) :
    escapedBytes (escapeByte b ++ rest) = b :: escapedBytes rest := by
  have hlt := b.toNat_lt
  have hhigh := hexValue_hexDigit (b.toNat / 16) (by omega)
  have hlow := hexValue_hexDigit (b.toNat % 16) (by omega)
  show escapedBytes ('%' :: _ :: _ :: rest) = _
  rw [escapedBytes, hhigh, hlow]
  have hvalue : 16 * (b.toNat / 16) + b.toNat % 16 = b.toNat := Nat.div_add_mod _ _
  dsimp only
  rw [hvalue, UInt8.ofNat_toNat]

theorem escapedBytes_flatMap (bytes : List UInt8) (rest : Text) :
    escapedBytes (bytes.flatMap escapeByte ++ rest) = bytes ++ escapedBytes rest := by
  induction bytes with
  | nil => rfl
  | cons b bytes ih =>
    rw [List.flatMap_cons, List.append_assoc, escapedBytes_escapeByte, ih, List.cons_append]

theorem length_escape (bytes : List UInt8) : (bytes.flatMap escapeByte).length = 3 * bytes.length := by
  induction bytes with
  | nil => rfl
  | cons b bytes ih =>
    rw [List.flatMap_cons, List.length_append, ih, List.length_cons]
    show 3 + 3 * bytes.length = _
    omega

/-- **An escaped character is read back**, whatever follows. -/
theorem decodeFrom_escapeChar (fuel : Nat) (c : Char) (rest : Text) :
    decodeFrom (fuel + 1) (escapeChar c ++ rest) = (decodeFrom fuel rest).map (c :: ·) := by
  obtain ⟨b, bytes, hbytes, hfirst⟩ := Utf8.decodeFirst_encodeChar c (escapedBytes rest)
  have hescaped : escapedBytes (escapeChar c ++ rest) = b :: (bytes ++ escapedBytes rest) := by
    unfold escapeChar
    rw [escapedBytes_flatMap, hbytes, List.cons_append]
  have hlength : (escapeChar c).length = 3 * (bytes.length + 1) := by
    unfold escapeChar
    rw [length_escape, hbytes, List.length_cons]
  have hcons : ∃ tail, escapeChar c ++ rest = '%' :: tail := by
    unfold escapeChar
    rw [hbytes]
    exact ⟨_, rfl⟩
  obtain ⟨tail, htail⟩ := hcons
  rw [htail] at hescaped ⊢
  rw [decodeFrom, if_neg (by simp), hescaped]
  dsimp only
  rw [hfirst]
  dsimp only
  have hcount : 3 * ((bytes ++ escapedBytes rest).length + 1 - (escapedBytes rest).length) =
      (escapeChar c).length := by
    rw [hlength, List.length_append]
    omega
  rw [hcount, ← htail, List.drop_left]

/-- A character that is no `%` stands for itself. -/
theorem decodeFrom_cons (fuel : Nat) (hc : c ≠ '%') (rest : Text) :
    decodeFrom (fuel + 1) (c :: rest) = (decodeFrom fuel rest).map (c :: ·) := by
  rw [decodeFrom, if_pos hc]

/-- **A text that is written** with each character kept, unless it is a `%`, or escaped. -/
inductive Writes : Text → Text → Prop
  | nil : Writes [] []
  | kept {c : Char} {t u : Text} (hc : c ≠ '%') (h : Writes t u) : Writes (c :: t) (c :: u)
  | escaped {c : Char} {t u : Text} (h : Writes t u) : Writes (c :: t) (escapeChar c ++ u)

theorem length_escapeChar (c : Char) : 0 < (escapeChar c).length := by
  obtain ⟨b, bytes, hbytes, -⟩ := Utf8.decodeFirst_encodeChar c []
  unfold escapeChar
  rw [length_escape, hbytes, List.length_cons]
  omega

/-- **What is written is read back.** -/
theorem decodeFrom_writes (h : Writes t u) (hfuel : u.length ≤ fuel) :
    decodeFrom fuel u = some t := by
  induction h generalizing fuel with
  | nil => cases fuel <;> rfl
  | kept hc h ih =>
    obtain ⟨fuel, rfl⟩ : ∃ n, fuel = n + 1 := ⟨fuel - 1, by simp at hfuel; omega⟩
    rw [decodeFrom_cons fuel hc, ih (by simpa using hfuel)]
    rfl
  | @escaped c t u h ih =>
    have hpos := length_escapeChar c
    rw [List.length_append] at hfuel
    obtain ⟨fuel, rfl⟩ : ∃ n, fuel = n + 1 := ⟨fuel - 1, by omega⟩
    rw [decodeFrom_escapeChar, ih (by omega)]
    rfl

theorem decodeComponent_writes (h : Writes t u) : decodeComponent u = some t :=
  decodeFrom_writes h le_rfl

theorem Writes.append {t' u' : Text} (h : Writes t u) (h' : Writes t' u') :
    Writes (t ++ t') (u ++ u') := by
  induction h with
  | nil => exact h'
  | kept hc h ih => exact .kept hc ih
  | escaped h ih =>
    rw [List.append_assoc]
    exact .escaped ih

theorem writes_encodeComponent (t : Text) : Writes t (encodeComponent t) := by
  induction t with
  | nil => exact .nil
  | cons c t ih =>
    show Writes (c :: t) (encodeChar c ++ encodeComponent t)
    unfold encodeChar
    split
    next hkept =>
      refine .kept ?_ ih
      rintro rfl
      exact absurd hkept (by decide)
    next => exact .escaped ih

/-- **Decoding inverts encoding.** -/
theorem decodeComponent_encodeComponent (t : Text) :
    decodeComponent (encodeComponent t) = some t :=
  decodeComponent_writes (writes_encodeComponent t)

/-! ### The signs of an encoding -/

theorem isUnreserved_hexDigit : ∀ n < 16, isUnreserved (hexDigit n) = true := by decide

/-- An encoding consists of signs that are kept and of `%`. -/
theorem mem_encodeComponent (h : c ∈ encodeComponent t) : isUnreserved c = true ∨ c = '%' := by
  obtain ⟨d, -, hc⟩ := List.mem_flatMap.mp h
  unfold encodeChar at hc
  split at hc
  next hkept => exact .inl (List.mem_singleton.mp hc ▸ hkept)
  next =>
    obtain ⟨b, -, hb⟩ := List.mem_flatMap.mp hc
    have hlt := b.toNat_lt
    simp only [escapeByte, List.mem_cons, List.not_mem_nil, or_false] at hb
    rcases hb with rfl | rfl | rfl
    · exact .inr rfl
    · exact .inl (isUnreserved_hexDigit _ (by omega))
    · exact .inl (isUnreserved_hexDigit _ (by omega))

/-! ### Reading an ASCII sign -/

/-- The bytes that follow a first one only make the value larger. -/
theorem le_of_continuation {owed low high value taken : Nat} {bytes more : List UInt8}
    (h : Utf8.continuation owed low high value taken bytes = .char d more) :
    ∃ v, d = Char.ofNat v ∧ value * 64 ^ owed ≤ v := by
  induction owed generalizing low high value taken bytes with
  | zero =>
    obtain ⟨rfl, -⟩ := Utf8.Decoded.char.inj h
    exact ⟨value, rfl, by simp⟩
  | succ owed ih =>
    cases bytes with
    | nil => cases h
    | cons b bytes =>
      rw [Utf8.continuation] at h
      split at h
      · obtain ⟨v, hd, hv⟩ := ih h
        refine ⟨v, hd, le_trans ?_ hv⟩
        rw [pow_succ', ← Nat.mul_assoc]
        exact Nat.mul_le_mul_right _ (Nat.le_add_right _ _)
      · cases h

/-- The first of them counts too. -/
theorem le_of_continuation_succ {owed low high value taken : Nat} {bytes more : List UInt8}
    (h : Utf8.continuation (owed + 1) low high value taken bytes = .char d more) :
    ∃ v, d = Char.ofNat v ∧ (value * 64 + (low - 0x80)) * 64 ^ owed ≤ v := by
  cases bytes with
  | nil => cases h
  | cons b bytes =>
    rw [Utf8.continuation] at h
    split at h
    next hbounds =>
      obtain ⟨v, hd, hv⟩ := le_of_continuation h
      refine ⟨v, hd, le_trans (Nat.mul_le_mul_right _ ?_) hv⟩
      omega
    next => cases h

theorem toNat_ofNat (v : Nat) : (Char.ofNat v).toNat = if v.isValidChar then v else 0 := by
  unfold Char.ofNat
  by_cases h : v.isValidChar
  · rw [dif_pos h, if_pos h]
    exact BitVec.toNat_ofNatLT v _
  · rw [dif_neg h, if_neg h]
    rfl

/-- A first byte is an ASCII sign, or begins a larger value. -/
theorem lead_cases {b : Nat} {l : Utf8.Lead} (h : Utf8.lead b = some l) :
    (b < 0x80 ∧ l = ⟨0, 0x80, 0xBF, b⟩) ∨
      ∃ owed, l.owed = owed + 1 ∧ 0x80 ≤ (l.value * 64 + (l.low - 0x80)) * 64 ^ owed := by
  unfold Utf8.lead at h
  split_ifs at h
  all_goals try obtain rfl := Option.some.inj h
  · exact .inl ⟨by assumption, rfl⟩
  · exact .inr ⟨0, rfl, by simp only; omega⟩
  · exact .inr ⟨1, rfl, by decide⟩
  · exact .inr ⟨1, rfl, by decide⟩
  · exact .inr ⟨1, rfl, by simp only; omega⟩
  · exact .inr ⟨2, rfl, by decide⟩
  · exact .inr ⟨2, rfl, by simp only; omega⟩
  · exact .inr ⟨2, rfl, by decide⟩

/-- The only byte that is read as an ASCII sign is that sign. -/
theorem decodeFirst_ascii {b : UInt8} {bytes more : List UInt8}
    (h : Utf8.decodeFirst b bytes = .char d more) (hd : d.toNat < 0x80) (hne : d.toNat ≠ 0) :
    b.toNat = d.toNat := by
  unfold Utf8.decodeFirst at h
  split at h
  next l hlead =>
    rcases lead_cases hlead with ⟨hb, rfl⟩ | ⟨owed, howed, hvalue⟩
    · obtain ⟨rfl, -⟩ := Utf8.Decoded.char.inj h
      have hvalid : b.toNat.isValidChar := .inl (by omega)
      rw [toNat_ofNat, if_pos hvalid]
    · rw [howed] at h
      obtain ⟨v, rfl, hle⟩ := le_of_continuation_succ h
      -- a large value is no ASCII sign, and what is no character is read as zero
      rw [toNat_ofNat] at hd hne
      split at hd
      · omega
      next hvalid => exact absurd (if_neg hvalid) hne
  next => cases h

/-- **What is read as an ASCII sign** is the sign, or the escape of it. -/
theorem decodeFrom_head (h : decodeFrom fuel u = some (d :: t)) (hd : d.toNat < 0x80)
    (hne : d.toNat ≠ 0) : (∃ rest, u = d :: rest) ∨
      ∃ high low rest x y, u = '%' :: high :: low :: rest ∧ hexValue high = some x ∧
        hexValue low = some y ∧ (16 * x + y) % 256 = d.toNat := by
  cases u with
  | nil => cases fuel <;> cases h
  | cons c rest =>
    cases fuel with
    | zero => cases h
    | succ fuel =>
      by_cases hc : c = '%'
      · subst hc
        rw [decodeFrom, if_neg (by simp)] at h
        split at h
        · cases h
        next b bytes hescaped =>
          split at h
          next d' more hfirst =>
            obtain ⟨t', -, ht'⟩ := Option.map_eq_some_iff.mp h
            obtain ⟨rfl, -⟩ := List.cons_eq_cons.mp ht'
            have hbyte := decodeFirst_ascii hfirst hd hne
            unfold escapedBytes at hescaped
            split at hescaped
            next high low rest' heq =>
              split at hescaped
              next x y hx hy =>
                obtain ⟨rfl, -⟩ := List.cons_eq_cons.mp hescaped
                exact .inr ⟨high, low, rest', x, y, heq, hx, hy, by
                  rw [← hbyte, UInt8.toNat_ofNat']⟩
              next => cases hescaped
            next => cases hescaped
          next => cases h
      · rw [decodeFrom_cons fuel hc] at h
        obtain ⟨t', -, ht'⟩ := Option.map_eq_some_iff.mp h
        obtain ⟨rfl, -⟩ := List.cons_eq_cons.mp ht'
        exact .inl ⟨rest, rfl⟩

end Percent

end CodexMonitor
