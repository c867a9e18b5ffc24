import CodexMonitor.Lib.Text

namespace CodexMonitor

/-!
# Case mapping — lower case beyond ASCII

The lower-casing of Unicode, as `toLowerCase` of ECMAScript does it: each character has its own
mapping, and only the capital sigma looks at the characters around it.  The data of the
characters beyond ASCII are those of a `CaseMapping`, which any version of Unicode gives.

* `CaseMapping` — the data, and what all versions say about ASCII.
* `toLowerCase` — the mapping of a text.
* `toLowerCase_asciiLower`, `toLowerCase_append_slash`, `toLowerCase_ascii` — lower-casing ASCII
  letters first, at a slash, and of an ASCII text.
* `Settled` — no upper-case letter of ASCII is left.
* `latin1` — the mapping restricted to the first 256 characters.
-/

open Text

/-- The ASCII characters with the property `Case_Ignorable`: the apostrophe, the full stop, the
    colon, the circumflex and the grave accent. -/
def asciiIgnorable (c : Char) : Bool := [0x27, 0x2E, 0x3A, 0x5E, 0x60].contains c.toNat

structure CaseMapping where
  /-- The lower case of a character outside any context. -/
  lower : Char → Text
  /-- The property `Cased`. -/
  cased : Char → Bool
  /-- The property `Case_Ignorable`. -/
  ignorable : Char → Bool
  lower_ne_nil : ∀ c : Char, lower c ≠ []
  lower_ascii : ∀ c : Char, c.toNat < 128 → lower c = [asciiLower c]
  cased_ascii : ∀ c : Char, c.toNat < 128 → cased c = c.isAlpha
  ignorable_ascii : ∀ c : Char, c.toNat < 128 → ignorable c = asciiIgnorable c

namespace CaseMapping

variable (m : CaseMapping) {c : Char} {t u before : Text}

/-- The first character that is not passed over is a letter with case. -/
def meetsCased (t : Text) : Bool := ((t.dropWhile m.ignorable).head?).any m.cased

/-- The condition `Final_Sigma`; the characters before are listed backwards. -/
def finalSigma (before after : Text) : Bool := m.meetsCased before && !m.meetsCased after

def capitalSigma : Char := 'Σ'

/-- The lower case of a text; the characters before it are listed backwards. -/
def lowerAfter (before : Text) : Text → Text
  | [] => []
  | c :: cs =>
      (if c = capitalSigma ∧ m.finalSigma before cs = true then ['ς'] else m.lower c) ++
        lowerAfter (c :: before) cs

def toLowerCase (t : Text) : Text := m.lowerAfter [] t

/-! ### ASCII letters -/

/-- What holds of each of the first 128 characters holds of every ASCII character. -/
theorem ascii_of_forall {P : Char → Prop} (h : ∀ n < 128, P (Char.ofNat n)) (c : Char)
    (hc : c.toNat < 128) : P c := by
  have := h c.toNat hc
  rwa [Char.ofNat_toNat] at this

theorem ascii_of_isAlphanum {c : Char} (h : c.isAlphanum = true) : c.toNat < 128 := by
  unfold Char.isAlphanum Char.isAlpha Char.isUpper Char.isLower Char.isDigit at h
  simp only [Bool.or_eq_true, Bool.and_eq_true, decide_eq_true_eq] at h
  have hle : ∀ n : UInt32, c.val ≤ n → c.toNat ≤ n.toNat := fun n hn => hn
  rcases h with (⟨-, h⟩ | ⟨-, h⟩) | ⟨-, h⟩
  · exact lt_of_le_of_lt (hle _ h) (by decide)
  · exact lt_of_le_of_lt (hle _ h) (by decide)
  · exact lt_of_le_of_lt (hle _ h) (by decide)

theorem asciiLower_ascii : ∀ c : Char, c.toNat < 128 →
    (asciiLower c).toNat < 128 ∧ asciiLower (asciiLower c) = asciiLower c ∧
      (asciiLower c).isAlpha = c.isAlpha ∧
      asciiIgnorable (asciiLower c) = asciiIgnorable c := by
  apply ascii_of_forall
  decide

/-- Characters beyond ASCII have no ASCII case. -/
theorem asciiLower_of_ge (h : 128 ≤ c.toNat) : asciiLower c = c := by
  unfold asciiLower
  split
  · next hupper =>
    simp only [Bool.and_eq_true, decide_eq_true_eq] at hupper
    have hle : c.toNat ≤ 90 := hupper.2
    omega
  · rfl

theorem lower_asciiLower (c : Char) : m.lower (asciiLower c) = m.lower c := by
  by_cases hc : c.toNat < 128
  · obtain ⟨hlt, hidem, _⟩ := asciiLower_ascii c hc
    rw [m.lower_ascii _ hlt, m.lower_ascii c hc, hidem]
  · rw [asciiLower_of_ge (by omega)]

theorem cased_asciiLower (c : Char) : m.cased (asciiLower c) = m.cased c := by
  by_cases hc : c.toNat < 128
  · obtain ⟨hlt, _, halpha, _⟩ := asciiLower_ascii c hc
    rw [m.cased_ascii _ hlt, m.cased_ascii c hc, halpha]
  · rw [asciiLower_of_ge (by omega)]

theorem ignorable_asciiLower (c : Char) : m.ignorable (asciiLower c) = m.ignorable c := by
  by_cases hc : c.toNat < 128
  · obtain ⟨hlt, _, _, hignorable⟩ := asciiLower_ascii c hc
    rw [m.ignorable_ascii _ hlt, m.ignorable_ascii c hc, hignorable]
  · rw [asciiLower_of_ge (by omega)]

theorem meetsCased_map (t : Text) : m.meetsCased (t.map asciiLower) = m.meetsCased t := by
  induction t with
  | nil => rfl
  | cons c cs ih =>
    unfold meetsCased at ih ⊢
    rw [List.map_cons]
    by_cases hc : m.ignorable c = true
    · rw [List.dropWhile_cons_of_pos (by rw [m.ignorable_asciiLower, hc]),
        List.dropWhile_cons_of_pos hc, ih]
    · rw [List.dropWhile_cons_of_neg (by rw [m.ignorable_asciiLower]; exact hc),
        List.dropWhile_cons_of_neg hc]
      exact m.cased_asciiLower c

theorem asciiLower_eq_sigma_iff (c : Char) : asciiLower c = capitalSigma ↔ c = capitalSigma := by
  by_cases hc : c.toNat < 128
  · constructor
    · intro h
      have hlt := (asciiLower_ascii c hc).1
      rw [h] at hlt
      exact absurd hlt (by decide)
    · rintro rfl
      exact absurd hc (by decide)
  · rw [asciiLower_of_ge (by omega)]

/-- **Lower-casing the ASCII letters first** makes no difference. -/
theorem toLowerCase_asciiLower (t : Text) : m.toLowerCase (t.map asciiLower) = m.toLowerCase t := by
  have hgo : ∀ before, m.lowerAfter (before.map asciiLower) (t.map asciiLower) =
      m.lowerAfter before t := by
    induction t with
    | nil =>
      intro before
      rfl
    | cons c cs ih =>
      intro before
      have hfinal : m.finalSigma (before.map asciiLower) (cs.map asciiLower) =
          m.finalSigma before cs := by
        rw [finalSigma, finalSigma, m.meetsCased_map, m.meetsCased_map]
      have hrest := ih (c :: before)
      rw [List.map_cons] at hrest
      rw [List.map_cons, lowerAfter, lowerAfter, hrest, hfinal, m.lower_asciiLower]
      simp only [asciiLower_eq_sigma_iff]
  exact hgo []

theorem toLowerCase_ne_nil (h : t ≠ []) : m.toLowerCase t ≠ [] := by
  cases t with
  | nil => exact absurd rfl h
  | cons c cs =>
    unfold toLowerCase lowerAfter
    split
    · simp
    · simp [m.lower_ne_nil c]

/-! ### Slashes -/

/-- A slash ends the search for a letter with case. -/
theorem meetsCased_append_slash (t u : Text) :
    m.meetsCased (t ++ '/' :: u) = m.meetsCased t := by
  have hslash : m.ignorable '/' = false := m.ignorable_ascii '/' (by decide)
  have hcased : m.cased '/' = false := m.cased_ascii '/' (by decide)
  induction t with
  | nil => simp [meetsCased, hslash, hcased]
  | cons c cs ih =>
    unfold meetsCased at ih ⊢
    rw [List.cons_append]
    by_cases hc : m.ignorable c = true
    · rw [List.dropWhile_cons_of_pos hc, List.dropWhile_cons_of_pos hc, ih]
    · rw [List.dropWhile_cons_of_neg hc, List.dropWhile_cons_of_neg hc]
      rfl

/-- What stands behind a slash does not see what stands before it. -/
theorem lowerAfter_append_slash (before rest t : Text) :
    m.lowerAfter (before ++ '/' :: rest) t = m.lowerAfter before t := by
  induction t generalizing before with
  | nil => rfl
  | cons c cs ih =>
    have hrest := ih (c :: before)
    rw [List.cons_append] at hrest
    rw [lowerAfter, lowerAfter, hrest, finalSigma, finalSigma, m.meetsCased_append_slash]

/-- **The lower case of a path** is that of its parts. -/
theorem toLowerCase_append_slash (t u : Text) :
    m.toLowerCase (t ++ '/' :: u) = m.toLowerCase t ++ '/' :: m.toLowerCase u := by
  have hgo : ∀ before, m.lowerAfter before (t ++ '/' :: u) =
      m.lowerAfter before t ++ '/' :: m.toLowerCase u := by
    induction t with
    | nil =>
      intro before
      have hlower : m.lower '/' = ['/'] := m.lower_ascii '/' (by decide)
      have hne : ¬ ('/' = capitalSigma ∧ m.finalSigma before u = true) := fun h =>
        absurd h.1 (by decide)
      have hrest := m.lowerAfter_append_slash [] before u
      rw [List.nil_append] at hrest
      simp only [List.nil_append, lowerAfter, if_neg hne, hlower, hrest]
      rfl
    | cons c cs ih =>
      intro before
      rw [List.cons_append, lowerAfter, ih, lowerAfter, finalSigma, finalSigma,
        m.meetsCased_append_slash, List.append_assoc]
  exact hgo []

/-- An ASCII text is lower-cased letter by letter. -/
theorem toLowerCase_ascii (h : ∀ c ∈ t, c.toNat < 128) : m.toLowerCase t = t.map asciiLower := by
  have hgo : ∀ before, m.lowerAfter before t = t.map asciiLower := by
    induction t with
    | nil =>
      intro before
      rfl
    | cons c cs ih =>
      intro before
      have hc := h c List.mem_cons_self
      have hne : ¬ (c = capitalSigma ∧ m.finalSigma before cs = true) := by
        rintro ⟨rfl, _⟩
        exact absurd hc (by decide)
      rw [lowerAfter, if_neg hne, m.lower_ascii c hc,
        ih (fun c' hc' => h c' (List.mem_cons_of_mem _ hc')) (c :: before)]
      rfl
  exact hgo []

/-! ### Letters in lower case -/

/-- Lower case has no upper-case letters of ASCII. -/
def Settled : Prop := ∀ c : Char, ∀ d ∈ m.lower c, asciiLower d = d

theorem asciiLower_of_mem (hm : m.Settled) (h : c ∈ m.toLowerCase t) : asciiLower c = c := by
  have hgo : ∀ before, c ∈ m.lowerAfter before t → asciiLower c = c := by
    clear h
    induction t with
    | nil => exact fun _ hmem => absurd hmem List.not_mem_nil
    | cons d cs ih =>
      intro before hmem
      rw [lowerAfter] at hmem
      rcases List.mem_append.mp hmem with hfirst | hrest
      · split at hfirst
        · rw [List.mem_singleton.mp hfirst]
          decide
        · exact hm d c hfirst
      · exact ih _ hrest
  exact hgo [] h

/-! ### Latin letters -/

/-- The letters from `U+00C0` on, as far as the first 256 characters go. -/
def latin1 : CaseMapping where
  lower c :=
    if 0xC0 ≤ c.toNat ∧ c.toNat ≤ 0xDE ∧ c.toNat ≠ 0xD7 then [Char.ofNat (c.toNat + 32)]
    else [asciiLower c]
  cased c :=
    c.isAlpha || [0xAA, 0xB5, 0xBA].contains c.toNat ||
      (0xC0 ≤ c.toNat && c.toNat ≤ 0xFF && c.toNat != 0xD7 && c.toNat != 0xF7)
  ignorable c := asciiIgnorable c || [0xA8, 0xAD, 0xAF, 0xB4, 0xB7, 0xB8].contains c.toNat
  lower_ne_nil := by
    intro c
    split <;> simp
  lower_ascii := by
    intro c hc
    have hnot : ¬ (0xC0 ≤ c.toNat ∧ c.toNat ≤ 0xDE ∧ c.toNat ≠ 0xD7) := by omega
    rw [if_neg hnot]
  cased_ascii := by
    apply ascii_of_forall
    decide
  ignorable_ascii := by
    apply ascii_of_forall
    decide

theorem latin1_settled : latin1.Settled := by
  intro c d hd
  by_cases hc : c.toNat < 128
  · rw [latin1.lower_ascii c hc, List.mem_singleton] at hd
    rw [hd]
    exact (asciiLower_ascii c hc).2.1
  · simp only [latin1] at hd
    split at hd
    · next hrange =>
      have hvalid : (c.toNat + 32).isValidChar := .inl (by omega)
      have hnat : (Char.ofNat (c.toNat + 32)).toNat = c.toNat + 32 := by
        rw [Char.ofNat, dif_pos hvalid]
        rfl
      rw [List.mem_singleton.mp hd]
      apply asciiLower_of_ge
      rw [hnat]
      omega
    · have hlower : asciiLower c = c := asciiLower_of_ge (by omega)
      rw [List.mem_singleton.mp hd, hlower, hlower]

end CaseMapping

end CodexMonitor
