import CodexMonitor.CodexArgs.Tokens

namespace CodexMonitor.CodexArgs

open Text

/-!
# Codex args — tokens that are read as they are

Reading the flags of tokens leaves tokens whose flags are read again.  They come out as they are,
unless a value that stands behind its flag is taken for a flag, or a word is taken for a value.

* `Reads` — what can become of one token.
* `size` — a measure of tokens that every change makes smaller.
* `Stable` — the readings whose tokens are read as they are.
* `effect_flatMap_iff` — the tokens of some readings are read as they are exactly if these are
  stable.
-/

variable {c : Char} {t flag value token : Text} {spec : FlagSpec} {next : Option Text}
  {tokens rest : List Text}

/-! ### Flags -/

/-- The flags of the table. -/
theorem flagSpec_facts (h : flagSpec flag = some spec) :
    flag.startsWith "-".toList = true ∧ 1 < flag.length ∧ '=' ∉ flag ∧
      (∀ c ∈ flag, isJsWhitespace c = false) ∧
      (spec.category = .recognized → spec.valueMode ≠ .none) := by
  obtain ⟨entry, hfind, rfl⟩ := Option.map_eq_some_iff.mp h
  have hmem := List.mem_of_find?_eq_some hfind
  have hname : entry.1 = flag := by simpa using List.find?_some hfind
  subst hname
  have hall : ∀ entry ∈ flagSpecs, entry.1.startsWith "-".toList = true ∧ 1 < entry.1.length ∧
      '=' ∉ entry.1 ∧ (∀ c ∈ entry.1, isJsWhitespace c = false) ∧
      (entry.2.category = .recognized → entry.2.valueMode ≠ .none) := by decide
  exact hall entry hmem

theorem splitFlagToken_none (h : splitFlagToken token = (flag, none)) : flag = token := by
  unfold splitFlagToken at h
  split at h
  · simp only at h
    split at h
    · exact (congrArg Prod.fst h).symm
    · split at h
      · exact (congrArg Prod.fst h).symm
      · cases h
  · exact (congrArg Prod.fst h).symm

theorem splitFlagToken_some (h : splitFlagToken token = (flag, some value)) :
    token = flag ++ '=' :: value := by
  unfold splitFlagToken at h
  split at h
  · simp only at h
    split at h
    · cases h
    next d behind hdrop =>
      split at h
      · cases h
      · obtain ⟨rfl, hvalue⟩ := Prod.mk.inj h
        obtain rfl := Option.some.inj hvalue
        have hhead := List.head?_dropWhile_not (fun c => decide (c ≠ '=')) token
        rw [hdrop] at hhead
        have hd : d = '=' := by simpa using hhead
        have hsplit := List.takeWhile_append_dropWhile (p := fun c => decide (c ≠ '=')) (l := token)
        rw [hdrop, hd] at hsplit
        exact hsplit.symm
  · cases h

/-- The characters before an equals sign. -/
theorem takeWhile_flag (h : '=' ∉ flag) (value : Text) :
    (flag ++ '=' :: value).takeWhile (· ≠ '=') = flag ∧
      (flag ++ '=' :: value).dropWhile (· ≠ '=') = '=' :: value := by
  have hall : ∀ c ∈ flag, decide (c ≠ '=') = true := by
    intro c hc
    rw [decide_eq_true_eq]
    rintro rfl
    exact h hc
  rw [List.takeWhile_append_of_pos hall, List.dropWhile_append_of_pos hall]
  simp

theorem startsWith_append (h : flag.startsWith "-".toList = true) (value : Text) :
    (flag ++ value).startsWith "-".toList = true := by
  unfold startsWith at h ⊢
  rw [List.isPrefixOf_iff_prefix] at h ⊢
  exact h.trans (List.prefix_append flag value)

theorem isFlagToken_flag (h : flagSpec flag = some spec) (value : Text) :
    isFlagToken (flag ++ value) = true := by
  obtain ⟨hdash, hlength, -⟩ := flagSpec_facts h
  unfold isFlagToken
  rw [startsWith_append hdash, Bool.true_and, decide_eq_true_eq, List.length_append]
  omega

/-- A flag of the table, with a value. -/
theorem splitFlagToken_assigned (h : flagSpec flag = some spec) (value : Text) :
    splitFlagToken (flag ++ '=' :: value) = (flag, some value) := by
  obtain ⟨hdash, hlength, hequals, -⟩ := flagSpec_facts h
  obtain ⟨htake, hdrop⟩ := takeWhile_flag hequals value
  unfold splitFlagToken
  rw [if_pos (startsWith_append hdash _)]
  simp only [htake, hdrop]
  rw [if_neg (by omega)]

/-- A flag of the table, alone. -/
theorem splitFlagToken_flag (h : flagSpec flag = some spec) : splitFlagToken flag = (flag, none) := by
  obtain ⟨hdash, -, hequals, -⟩ := flagSpec_facts h
  have hdrop : flag.dropWhile (fun c => decide (c ≠ '=')) = [] := by
    rw [List.dropWhile_eq_nil_iff]
    intro c hc
    rw [decide_eq_true_eq]
    rintro rfl
    exact hequals hc
  unfold splitFlagToken
  rw [if_pos hdash]
  simp only [hdrop]

/-- What the table says of a token. -/
def tokenSpec (token : Text) : Option FlagSpec :=
  if isFlagToken token then flagSpec (splitFlagToken token).1 else none

theorem tokenSpec_flag (h : flagSpec flag = some spec) : tokenSpec flag = some spec := by
  have htoken := isFlagToken_flag h []
  rw [List.append_nil] at htoken
  unfold tokenSpec
  rw [if_pos htoken, splitFlagToken_flag h, h]

theorem tokenSpec_assigned (h : flagSpec flag = some spec) (value : Text) :
    tokenSpec (flag ++ '=' :: value) = some spec := by
  unfold tokenSpec
  rw [if_pos (isFlagToken_flag h _), splitFlagToken_assigned h, h]

/-- A token that a flag in front of it takes for its value. -/
def isValue (token : Text) : Bool :=
  !(jsTrim token).isEmpty && !(jsTrim token).startsWith "-".toList

/-- A value is no flag. -/
theorem tokenSpec_of_isValue (h : isValue token = true) : tokenSpec token = none := by
  have hflag : isFlagToken token = false := by
    by_contra hflag
    have hdash := (Bool.and_eq_true_iff.mp (Bool.not_eq_false _ ▸ hflag)).1
    have hhead : token.head? = some '-' := by
      obtain ⟨more, rfl⟩ := List.isPrefixOf_iff_prefix.mp hdash
      rfl
    have htrimmed := head?_trimBy (p := isJsWhitespace) (by decide) hhead
    obtain ⟨more, hmore⟩ := List.head?_eq_some_iff.mp htrimmed
    have hvalue := (Bool.and_eq_true_iff.mp h).2
    unfold jsTrim at hvalue
    rw [hmore] at hvalue
    simp [startsWith] at hvalue
  unfold tokenSpec
  rw [hflag]
  rfl

theorem ne_nil_of_isValue (h : isValue token = true) : token ≠ [] := by
  rintro rfl
  exact absurd h (by decide)

theorem isValue_jsTrim (token : Text) : isValue (jsTrim token) = isValue token := by
  have hagain : jsTrim (jsTrim token) = jsTrim token := trimBy_trimBy _ _
  unfold isValue
  rw [hagain]

/-! ### One token -/

/-- **What can become of a token**, and whether the next one is its value. -/
inductive Reads (token : Text) (next : Option Text) : Reading → Bool → Prop
  | word : tokenSpec token = none → Reads token next (.word token) false
  | dropped {reading : Reading} {consumeNext : Bool} : tokenSpec token ≠ none →
      reading.effectiveTokens = [] → Reads token next reading consumeNext
  | inlineValue {flag value : Text} {spec : FlagSpec} : flagSpec flag = some spec →
      spec.category = .recognized → token = flag ++ '=' :: value → jsTrim value ≠ [] →
      Reads token next (.recognized flag spec (some value) (some (jsTrim value))) false
  | inlineBlank {flag value : Text} {spec : FlagSpec} : flagSpec flag = some spec →
      spec.category = .recognized → token = flag ++ '=' :: value → spec.valueMode = .optional →
      Reads token next (.recognized flag spec (some value) none) false
  | nextValue {flag value : Text} {spec : FlagSpec} : flagSpec flag = some spec →
      spec.category = .recognized → token = flag → next = some value → isValue value = true →
      Reads token next (.recognized flag spec none (some (jsTrim value))) true
  | alone {flag : Text} {spec : FlagSpec} : flagSpec flag = some spec →
      spec.category = .recognized → token = flag → spec.valueMode = .optional →
      Reads token next (.recognized flag spec none none) false

theorem effectiveTokens_assigned (hmode : spec.valueMode ≠ .none) (inlineValue : Text) :
    (Reading.recognized flag spec (some inlineValue) (some value)).effectiveTokens =
      if value.any isJsWhitespace then [flag, value] else [flag ++ '=' :: value] := if_neg hmode

theorem effectiveTokens_valued (hmode : spec.valueMode ≠ .none) :
    (Reading.recognized flag spec none (some value)).effectiveTokens = [flag, value] :=
  if_neg hmode

theorem effectiveTokens_alone (inlineValue : Option Text) :
    (Reading.recognized flag spec inlineValue none).effectiveTokens = [flag] := by
  show (if spec.valueMode = .none then [flag] else _) = [flag]
  split
  · rfl
  · cases inlineValue with
    | none => rfl
    | some inlineValue => rfl

/-- The value of a flag that takes one. -/
theorem readFlagValue_inline (hmode : spec.valueMode ≠ .none) (value : Text) (next : Option Text) :
    readFlagValue spec (some value) next =
      if jsTrim value = [] then ⟨none, false, decide (spec.valueMode = .optional)⟩
      else ⟨some (jsTrim value), false, true⟩ := by
  unfold readFlagValue
  rw [if_neg hmode]
  simp only
  by_cases hnil : jsTrim value = []
  · cases hspec : spec.valueMode with
    | none => exact absurd hspec hmode
    | required => simp [hnil]
    | optional => simp [hnil]
  · simp [hnil]

theorem readFlagValue_next (hmode : spec.valueMode ≠ .none) (next : Option Text) :
    readFlagValue spec none next =
      match next.filter isValue with
      | some value => ⟨some (jsTrim value), true, true⟩
      | none => ⟨none, false, decide (spec.valueMode = .optional)⟩ := by
  unfold readFlagValue
  rw [if_neg hmode]
  rfl

theorem readToken_reads (token : Text) (next : Option Text) :
    Reads token next (readToken token next).1 (readToken token next).2 := by
  unfold readToken
  split
  next hflag =>
    rcases hsplit : splitFlagToken token with ⟨flag, inlineValue⟩
    have hspec : tokenSpec token = flagSpec flag := by
      unfold tokenSpec
      rw [if_pos hflag, hsplit]
    simp only
    split
    next hnone => exact .word (hspec.trans hnone)
    next spec hsome =>
      have hne : tokenSpec token ≠ none := by simp [hspec, hsome]
      split
      next => exact .dropped hne rfl
      next hcategory =>
        have hrecognized : spec.category = .recognized := by
          cases h : spec.category with
          | recognized => rfl
          | ignored => exact absurd h hcategory
        have hmode := (flagSpec_facts hsome).2.2.2.2 hrecognized
        cases inlineValue with
        | some value =>
          rw [readFlagValue_inline hmode]
          split
          next =>
            split
            next hvalid =>
              exact .inlineBlank hsome hrecognized (splitFlagToken_some hsplit)
                (of_decide_eq_true hvalid)
            next => exact .dropped hne rfl
          next hvalue =>
            exact .inlineValue hsome hrecognized (splitFlagToken_some hsplit) hvalue
        | none =>
          rw [readFlagValue_next hmode]
          have htoken := (splitFlagToken_none hsplit).symm
          cases hnext : next.filter isValue with
          | some value =>
            obtain ⟨hmem, hvalue⟩ := Option.filter_eq_some_iff.mp hnext
            exact .nextValue hsome hrecognized htoken hmem hvalue
          | none =>
            simp only
            split
            next hvalid => exact .alone hsome hrecognized htoken (of_decide_eq_true hvalid)
            next => exact .dropped hne rfl
  next hflag =>
    refine .word ?_
    unfold tokenSpec
    rw [if_neg hflag]

/-! ### The size of tokens -/

/-- What is lost with a character, besides the token it stands in. -/
def weight (c : Char) : Nat :=
  if isJsWhitespace c then 1 else if c = '=' then 2 else if c = '\'' then 1 else 0

def textWeight : Text → Nat
  | [] => 0
  | c :: t => weight c + textWeight t

def size : List Text → Nat
  | [] => 0
  | t :: tokens => 1 + textWeight t + size tokens

theorem textWeight_append (t u : Text) : textWeight (t ++ u) = textWeight t + textWeight u := by
  induction t with
  | nil => simp [textWeight]
  | cons c t ih =>
    rw [List.cons_append, textWeight, textWeight, ih]
    omega

theorem size_append (tokens rest : List Text) : size (tokens ++ rest) = size tokens + size rest := by
  induction tokens with
  | nil => simp [size]
  | cons t tokens ih =>
    rw [List.cons_append, size, size, ih]
    omega

theorem textWeight_blank (h : ∀ c ∈ t, isJsWhitespace c = true) : textWeight t = t.length := by
  induction t with
  | nil => rfl
  | cons c t ih =>
    obtain ⟨hc, ht⟩ := List.forall_mem_cons.mp h
    have hweight : weight c = 1 := if_pos hc
    rw [textWeight, ih ht, hweight, List.length_cons]
    omega

/-- Blanks are trimmed at both ends. -/
theorem jsTrim_between (t : Text) : ∃ lead trail, t = lead ++ jsTrim t ++ trail ∧
    (∀ c ∈ lead, isJsWhitespace c = true) ∧ ∀ c ∈ trail, isJsWhitespace c = true := by
  refine ⟨t.takeWhile isJsWhitespace, (t.dropWhile isJsWhitespace).rtakeWhile isJsWhitespace, ?_,
    fun c hc => List.mem_takeWhile_imp hc, fun c hc => List.mem_rtakeWhile_imp hc⟩
  have hstart := List.takeWhile_append_dropWhile (p := isJsWhitespace) (l := t)
  have hend := List.rdropWhile_append_rtakeWhile (p := isJsWhitespace)
    (l := t.dropWhile isJsWhitespace)
  show t = t.takeWhile isJsWhitespace ++ (t.dropWhile isJsWhitespace).rdropWhile isJsWhitespace ++
    (t.dropWhile isJsWhitespace).rtakeWhile isJsWhitespace
  rw [List.append_assoc, hend, hstart]

/-- What is trimmed has weight. -/
theorem textWeight_jsTrim (t : Text) :
    textWeight (jsTrim t) + t.length = textWeight t + (jsTrim t).length := by
  obtain ⟨lead, trail, hsplit, hlead, htrail⟩ := jsTrim_between t
  have hweight := congrArg textWeight hsplit
  have hlength := congrArg List.length hsplit
  rw [textWeight_append, textWeight_append, textWeight_blank hlead, textWeight_blank htrail]
    at hweight
  rw [List.length_append, List.length_append] at hlength
  omega

theorem textWeight_jsTrim_le (t : Text) : textWeight (jsTrim t) ≤ textWeight t := by
  obtain ⟨lead, trail, hsplit, -, -⟩ := jsTrim_between t
  have hweight := congrArg textWeight hsplit
  rw [textWeight_append, textWeight_append] at hweight
  omega

/-- A text that loses no weight is not trimmed. -/
theorem jsTrim_eq_of_textWeight (h : textWeight (jsTrim t) = textWeight t) : jsTrim t = t := by
  obtain ⟨lead, trail, hsplit, -, -⟩ := jsTrim_between t
  have hlength := congrArg List.length hsplit
  have hweight := textWeight_jsTrim t
  rw [List.length_append, List.length_append] at hlength
  have hlead : lead = [] := List.length_eq_zero_iff.mp (by omega)
  have htrail : trail = [] := List.length_eq_zero_iff.mp (by omega)
  rw [hlead, htrail, List.nil_append, List.append_nil] at hsplit
  exact hsplit.symm

/-! ### All tokens -/

/-- The effective tokens of some tokens. -/
def effect (tokens : List Text) : List Text :=
  (readTokens false tokens).flatMap Reading.effectiveTokens

theorem effect_nil : effect [] = [] := rfl

theorem readTokens_true (tokens : List Text) :
    readTokens true tokens = readTokens false tokens.tail := by
  cases tokens with
  | nil => rfl
  | cons t tokens => rfl

/-- The first token, and what is behind it and its value. -/
theorem effect_cons (hne : token ≠ []) (rest : List Text) :
    effect (token :: rest) = (readToken token rest.head?).1.effectiveTokens ++
      effect (if (readToken token rest.head?).2 then rest.tail else rest) := by
  unfold effect
  rw [readTokens, if_neg (by simpa using hne)]
  simp only [List.flatMap_cons]
  cases (readToken token rest.head?).2 with
  | true => rw [readTokens_true, if_pos rfl]
  | false => rw [if_neg Bool.false_ne_true]

/-- The tokens that one turn of the loop takes. -/
def taken (token : Text) (next : Option Text) (consumeNext : Bool) : List Text :=
  token :: if consumeNext then next.toList else []

theorem taken_append (token : Text) (rest : List Text) (consumeNext : Bool) :
    taken token rest.head? consumeNext ++ (if consumeNext then rest.tail else rest) =
      token :: rest := by
  cases consumeNext with
  | false => rfl
  | true =>
    cases rest with
    | nil => rfl
    | cons t rest => rfl

/-- **One token** does not grow, and is as it was if it does not shrink. -/
theorem Reads.size_le {reading : Reading} {consumeNext : Bool}
    (h : Reads token next reading consumeNext) :
    size reading.effectiveTokens ≤ size (taken token next consumeNext) ∧
      (size reading.effectiveTokens = size (taken token next consumeNext) →
        reading.effectiveTokens = taken token next consumeNext) := by
  have hequals : weight '=' = 2 := by decide
  cases h with
  | word => exact ⟨Nat.le_refl _, fun _ => rfl⟩
  | dropped hspec hnone =>
    rw [hnone]
    refine ⟨Nat.zero_le _, fun heq => ?_⟩
    have hpos : 0 < size (taken token next consumeNext) := by
      unfold taken size
      omega
    simp only [size] at heq
    omega
  | @inlineValue flag value spec hspec hcategory htoken hvalue =>
    subst htoken
    have hmode := (flagSpec_facts hspec).2.2.2.2 hcategory
    have hle := textWeight_jsTrim_le value
    have htaken : size (taken (flag ++ '=' :: value) next false) =
        1 + (textWeight flag + (2 + textWeight value)) := by
      simp only [taken, size, textWeight_append, textWeight, hequals]
      simp [size]
    rw [htaken, effectiveTokens_assigned hmode]
    split
    next =>
      simp only [size]
      exact ⟨by omega, fun heq => by omega⟩
    next =>
      simp only [size, textWeight_append, textWeight, hequals]
      refine ⟨by omega, fun heq => ?_⟩
      rw [jsTrim_eq_of_textWeight (by omega)]
      rfl
  | @inlineBlank flag value spec hspec hcategory htoken hoptional =>
    subst htoken
    have htaken : size (taken (flag ++ '=' :: value) next false) =
        1 + (textWeight flag + (2 + textWeight value)) := by
      simp only [taken, size, textWeight_append, textWeight, hequals]
      simp [size]
    rw [htaken, effectiveTokens_alone]
    simp only [size]
    exact ⟨by omega, fun heq => by omega⟩
  | @nextValue flag value spec hspec hcategory htoken hnext hvalue =>
    subst htoken hnext
    have hmode := (flagSpec_facts hspec).2.2.2.2 hcategory
    have hle := textWeight_jsTrim_le value
    rw [effectiveTokens_valued hmode]
    simp only [taken, size, Option.toList_some, if_true]
    refine ⟨by omega, fun heq => ?_⟩
    rw [jsTrim_eq_of_textWeight (by omega)]
  | alone hspec hcategory htoken hoptional =>
    subst htoken
    rw [effectiveTokens_alone]
    exact ⟨Nat.le_refl _, fun _ => rfl⟩

/-- **The effective tokens do not grow**, and are the tokens if they do not shrink. -/
theorem size_effect_le (tokens : List Text) : size (effect tokens) ≤ size tokens ∧
    (size (effect tokens) = size tokens → effect tokens = tokens) := by
  induction hlength : tokens.length using Nat.strong_induction_on generalizing tokens with
  | h n ih =>
    cases tokens with
    | nil => exact ⟨Nat.le_refl _, fun _ => rfl⟩
    | cons token rest =>
      rw [List.length_cons] at hlength
      by_cases hne : token = []
      · -- an empty token is left out
        have heffect : effect (token :: rest) = effect rest := by
          unfold effect
          rw [readTokens, if_pos (by simpa using hne)]
        obtain ⟨hle, -⟩ := ih rest.length (by omega) rest rfl
        rw [heffect]
        simp only [size]
        exact ⟨by omega, fun heq => by omega⟩
      · have hsplit := taken_append token rest (readToken token rest.head?).2
        have hreads := readToken_reads token rest.head?
        revert hsplit hreads
        rw [effect_cons hne rest]
        rcases readToken token rest.head? with ⟨reading, consumeNext⟩
        intro hsplit hreads
        simp only at hreads hsplit ⊢
        obtain ⟨hfirst, hsame⟩ := hreads.size_le
        have hshort : (if consumeNext then rest.tail else rest).length < n := by
          split
          · rw [List.length_tail]
            omega
          · omega
        obtain ⟨hbehind, hsame'⟩ := ih _ hshort _ rfl
        rw [← hsplit, size_append, size_append]
        refine ⟨by omega, fun heq => ?_⟩
        rw [hsame (by omega), hsame' (by omega)]

/-! ### Stable readings -/

/-- The tokens of a reading are read again as they are, in front of a token. -/
def Reading.keeps (next : Option Text) : Reading → Bool
  | .recognized _ spec (some _) (some value) =>
      -- a value with blanks stands alone, and may look like a flag
      !(value.any isJsWhitespace && value.startsWith "-".toList) ||
        (decide (spec.valueMode = .optional) && (tokenSpec value).isNone)
  | .recognized _ _ none (some _) => true
  | .recognized _ _ _ none =>
      -- a flag without a value takes the next word for it
      next.all fun next => !isValue next || jsTrim next == next
  | _ => true

/-- **Stable readings.** -/
def Stable : List Reading → Prop
  | [] => True
  | reading :: readings =>
      reading.keeps (readings.flatMap Reading.effectiveTokens).head? = true ∧ Stable readings

/-- A reading of some token. -/
def Reading.Formed (reading : Reading) : Prop :=
  ∃ token next consumeNext, token ≠ [] ∧ Reads token next reading consumeNext

theorem effect_word (hspec : tokenSpec token = none) (hne : token ≠ []) (rest : List Text) :
    effect (token :: rest) = token :: effect rest := by
  have hread : readToken token rest.head? = (.word token, false) := by
    unfold readToken
    split
    next hflag =>
      unfold tokenSpec at hspec
      rw [if_pos hflag] at hspec
      simp only [hspec]
    next => rfl
  rw [effect_cons hne, hread]
  rfl

/-- A recognized flag is read with its value. -/
theorem readToken_flag (hspec : flagSpec flag = some spec) (hcategory : spec.category = .recognized)
    (next : Option Text) : readToken flag next =
      if (readFlagValue spec none next).isValid then
        (.recognized flag spec none (readFlagValue spec none next).value,
          (readFlagValue spec none next).consumeNext)
      else (.invalid flag, (readFlagValue spec none next).consumeNext) := by
  have hflag := isFlagToken_flag hspec []
  rw [List.append_nil] at hflag
  unfold readToken
  rw [if_pos hflag, splitFlagToken_flag hspec]
  simp only [hspec]
  rw [if_neg (by simp [hcategory])]

theorem flag_any_blank (hspec : flagSpec flag = some spec) : flag.any isJsWhitespace = false := by
  rw [List.any_eq_false]
  intro c hc
  rw [(flagSpec_facts hspec).2.2.2.1 c hc]
  exact Bool.false_ne_true

theorem flag_ne_nil (hspec : flagSpec flag = some spec) : flag ≠ [] := by
  rintro rfl
  exact absurd (flagSpec_facts hspec).2.1 (by simp)

/-- A flag and its value. -/
theorem effect_valued (hspec : flagSpec flag = some spec) (hcategory : spec.category = .recognized)
    (hvalue : isValue value = true) (rest : List Text) :
    effect (flag :: value :: rest) = flag :: jsTrim value :: effect rest := by
  have hmode := (flagSpec_facts hspec).2.2.2.2 hcategory
  have hread : readToken flag (some value) =
      (.recognized flag spec none (some (jsTrim value)), true) := by
    rw [readToken_flag hspec hcategory, readFlagValue_next hmode]
    simp [Option.filter, hvalue]
  rw [effect_cons (flag_ne_nil hspec), List.head?_cons, hread]
  simp only [if_true, List.tail_cons]
  rw [effectiveTokens_valued hmode]
  rfl

/-- A flag that may be alone. -/
theorem effect_alone (hspec : flagSpec flag = some spec) (hcategory : spec.category = .recognized)
    (hoptional : spec.valueMode = .optional) (hnext : ∀ t ∈ rest.head?, isValue t = false) :
    effect (flag :: rest) = flag :: effect rest := by
  have hmode := (flagSpec_facts hspec).2.2.2.2 hcategory
  have hfilter : rest.head?.filter isValue = none := by
    rw [Option.filter_eq_none_iff]
    intro t ht
    rw [hnext t ht]
    exact Bool.false_ne_true
  have hread : readToken flag rest.head? = (.recognized flag spec none none, false) := by
    rw [readToken_flag hspec hcategory, readFlagValue_next hmode, hfilter]
    simp [hoptional]
  rw [effect_cons (flag_ne_nil hspec), hread]
  simp only
  rw [if_neg Bool.false_ne_true, effectiveTokens_alone]
  rfl

/-- A flag without the value it needs. -/
theorem effect_invalid (hspec : flagSpec flag = some spec) (hcategory : spec.category = .recognized)
    (hoptional : spec.valueMode ≠ .optional) (hnext : ∀ t ∈ rest.head?, isValue t = false) :
    effect (flag :: rest) = effect rest := by
  have hmode := (flagSpec_facts hspec).2.2.2.2 hcategory
  have hfilter : rest.head?.filter isValue = none := by
    rw [Option.filter_eq_none_iff]
    intro t ht
    rw [hnext t ht]
    exact Bool.false_ne_true
  have hread : readToken flag rest.head? = (.invalid flag, false) := by
    rw [readToken_flag hspec hcategory, readFlagValue_next hmode, hfilter]
    simp [hoptional]
  rw [effect_cons (flag_ne_nil hspec), hread]
  rfl

/-- A flag with a value behind its equals sign. -/
theorem effect_assigned (hspec : flagSpec flag = some spec) (hcategory : spec.category = .recognized)
    (htrim : jsTrim value = value) (hne : value ≠ []) (hblank : value.any isJsWhitespace = false)
    (rest : List Text) :
    effect ((flag ++ '=' :: value) :: rest) = (flag ++ '=' :: value) :: effect rest := by
  have hmode := (flagSpec_facts hspec).2.2.2.2 hcategory
  have hread : readToken (flag ++ '=' :: value) rest.head? =
      (.recognized flag spec (some value) (some value), false) := by
    unfold readToken
    rw [if_pos (isFlagToken_flag hspec _), splitFlagToken_assigned hspec]
    simp only [hspec]
    rw [if_neg (by simp [hcategory]), readFlagValue_inline hmode, htrim, if_neg hne]
    rfl
  rw [effect_cons (by simp), hread]
  simp only
  rw [if_neg Bool.false_ne_true, effectiveTokens_assigned hmode, hblank]
  rfl

/-- A token with blanks that the table knows does not come out as it is. -/
theorem effect_ne_of_tokenSpec (hspec : tokenSpec token ≠ none) (hne : token ≠ [])
    (hblank : token.any isJsWhitespace = true) (rest : List Text) :
    effect (token :: rest) ≠ token :: rest := by
  intro heq
  have hsplit := taken_append token rest (readToken token rest.head?).2
  have hreads := readToken_reads token rest.head?
  have heffect := effect_cons hne rest
  revert hsplit hreads heffect
  rcases readToken token rest.head? with ⟨reading, consumeNext⟩
  intro hsplit hreads heffect
  simp only at hreads hsplit heffect
  -- no weight is lost, so the first token comes out as it was
  obtain ⟨hle, hsame⟩ := hreads.size_le
  obtain ⟨hle', -⟩ := size_effect_le (if consumeNext then rest.tail else rest)
  have hsize := congrArg size heffect
  rw [heq, ← hsplit, size_append, size_append] at hsize
  have htokens := hsame (by omega)
  have hflag : ∀ {flag : Text} {spec : FlagSpec}, flagSpec flag = some spec → token ≠ flag := by
    rintro flag spec hflag rfl
    exact Bool.false_ne_true ((flag_any_blank hflag).symm.trans hblank)
  cases hreads with
  | word hnone => exact hspec hnone
  | dropped _ hnone =>
    rw [hnone] at htokens
    cases htokens
  | @inlineValue flag value spec hspec' hcategory htoken hvalue =>
    rw [effectiveTokens_assigned ((flagSpec_facts hspec').2.2.2.2 hcategory)] at htokens
    split at htokens
    next => cases htokens
    next hnone =>
      have htoken' : flag ++ '=' :: jsTrim value = token := List.head_eq_of_cons_eq htokens
      rw [Bool.not_eq_true] at hnone
      rw [← htoken', List.any_append, List.any_cons, flag_any_blank hspec', hnone] at hblank
      exact absurd hblank (by decide)
  | @inlineBlank flag value spec hspec' hcategory htoken hoptional =>
    rw [effectiveTokens_alone] at htokens
    exact hflag hspec' (List.head_eq_of_cons_eq htokens).symm
  | nextValue hspec' hcategory htoken => exact hflag hspec' htoken
  | alone hspec' hcategory htoken => exact hflag hspec' htoken

/-- **The tokens of readings** are read as they are exactly if the readings are stable. -/
theorem effect_flatMap_iff {readings : List Reading} (h : ∀ reading ∈ readings, reading.Formed) :
    effect (readings.flatMap Reading.effectiveTokens) = readings.flatMap Reading.effectiveTokens ↔
      Stable readings := by
  induction readings with
  | nil => exact ⟨fun _ => trivial, fun _ => rfl⟩
  | cons reading readings ih =>
    obtain ⟨⟨token, next, consumeNext, hne, hreads⟩, hreadings⟩ := List.forall_mem_cons.mp h
    have ih := ih hreadings
    rw [List.flatMap_cons, Stable, ← ih]
    generalize readings.flatMap Reading.effectiveTokens = rest
    -- a flag that may be alone, in front of what is left
    have halone : ∀ {flag : Text} {spec : FlagSpec} (inlineValue : Option Text),
        flagSpec flag = some spec → spec.category = .recognized → spec.valueMode = .optional →
        (effect (flag :: rest) = flag :: rest ↔
          (Reading.recognized flag spec inlineValue none).keeps rest.head? = true ∧
            effect rest = rest) := by
      intro flag spec inlineValue hspec hcategory hoptional
      have hkeeps : (Reading.recognized flag spec inlineValue none).keeps rest.head? =
          rest.head?.all fun next => !isValue next || jsTrim next == next := by
        cases inlineValue with
        | none => rfl
        | some inlineValue => rfl
      rw [hkeeps]
      cases rest with
      | nil =>
        rw [effect_alone hspec hcategory hoptional (by simp)]
        simp [effect_nil]
      | cons t rest =>
        cases hvalue : isValue t with
        | false =>
          rw [effect_alone hspec hcategory hoptional (by simp [hvalue])]
          simp [hvalue]
        | true =>
          rw [effect_valued hspec hcategory hvalue,
            effect_word (tokenSpec_of_isValue hvalue) (ne_nil_of_isValue hvalue)]
          simp [hvalue]
    cases hreads with
    | word hspec =>
      show effect (token :: rest) = token :: rest ↔ true = true ∧ effect rest = rest
      rw [effect_word hspec hne]
      simp
    | dropped _ hnone =>
      rw [hnone, List.nil_append]
      have hkeeps : reading.keeps rest.head? = true := by
        cases reading with
        | recognized flag spec inlineValue value =>
          exfalso
          revert hnone
          show (if spec.valueMode = .none then [flag] else _) ≠ []
          cases inlineValue with
          | none => cases value <;> split <;> simp
          | some inlineValue =>
            cases value with
            | none => split <;> simp
            | some value =>
              split
              · simp
              · simp only
                split <;> simp
        | word => rfl
        | ignored => rfl
        | invalid => rfl
      simp [hkeeps]
    | @inlineValue flag value spec hspec hcategory htoken hvalue =>
      have hmode := (flagSpec_facts hspec).2.2.2.2 hcategory
      have htrim : jsTrim (jsTrim value) = jsTrim value := trimBy_trimBy _ _
      have hkeeps : (Reading.recognized flag spec (some value) (some (jsTrim value))).keeps
          rest.head? = (!((jsTrim value).any isJsWhitespace &&
            (jsTrim value).startsWith "-".toList) ||
            (decide (spec.valueMode = .optional) && (tokenSpec (jsTrim value)).isNone)) := rfl
      rw [hkeeps, effectiveTokens_assigned hmode]
      cases hblank : (jsTrim value).any isJsWhitespace with
      | false =>
        rw [if_neg Bool.false_ne_true, List.singleton_append,
          effect_assigned hspec hcategory htrim hvalue hblank]
        simp
      | true =>
        rw [if_pos rfl, List.cons_append, List.singleton_append]
        cases hdash : (jsTrim value).startsWith "-".toList with
        | false =>
          have hvalue' : isValue (jsTrim value) = true := by
            unfold isValue
            rw [htrim, hdash]
            simp [hvalue]
          rw [effect_valued hspec hcategory hvalue', htrim]
          simp
        | true =>
          have hvalue' : isValue (jsTrim value) = false := by
            unfold isValue
            rw [htrim, hdash]
            simp
          by_cases hoptional : spec.valueMode = .optional
          · rw [effect_alone hspec hcategory hoptional (by simp [hvalue'])]
            cases hnone : tokenSpec (jsTrim value) with
            | none =>
              rw [effect_word hnone hvalue]
              simp [hoptional]
            | some spec' =>
              have hlost := effect_ne_of_tokenSpec (by simp [hnone]) hvalue hblank rest
              simp [hlost]
          · -- the flag is dropped
            rw [effect_invalid hspec hcategory hoptional (by simp [hvalue'])]
            have hlost : effect (jsTrim value :: rest) ≠ flag :: jsTrim value :: rest := by
              intro heq
              have hle := (size_effect_le (jsTrim value :: rest)).1
              rw [heq] at hle
              simp only [size] at hle
              omega
            simp [hlost, hoptional]
    | @inlineBlank flag value spec hspec hcategory htoken hoptional =>
      rw [effectiveTokens_alone, List.singleton_append]
      exact halone (some value) hspec hcategory hoptional
    | @nextValue flag value spec hspec hcategory htoken hnext hvalue =>
      have hmode := (flagSpec_facts hspec).2.2.2.2 hcategory
      have htrim : jsTrim (jsTrim value) = jsTrim value := trimBy_trimBy _ _
      have hkeeps : (Reading.recognized flag spec none (some (jsTrim value))).keeps rest.head? =
          true := rfl
      rw [hkeeps, effectiveTokens_valued hmode, List.cons_append, List.singleton_append,
        effect_valued hspec hcategory (by rw [isValue_jsTrim, hvalue]), htrim]
      simp
    | @alone flag spec hspec hcategory htoken hoptional =>
      rw [effectiveTokens_alone, List.singleton_append]
      exact halone none hspec hcategory hoptional

end CodexMonitor.CodexArgs
