import CodexMonitor.CodexArgs.RoundTrip

namespace CodexMonitor.CodexArgs

open Text

/-!
# Codex args — which arguments are sanitised for good

Whether the sanitised text begins and ends with a quote can be seen from the readings: a flag of
the table is never quoted, so the quotes are those of words and of values.

* `isWrapped_flatMap` — the readings at whose ends the text has quotes.
* `Settled` — the readings that are stable, and are not taken to be quoted as a whole.
* `sanitized_iff` — which arguments mean the same to both sides, and are sanitised for good.
-/

variable {c : Char} {t flag value : Text} {spec : FlagSpec} {reading : Reading}
  {readings : List Reading}

/-! ### The ends of a reading -/

/-- The reading adds tokens. -/
def Reading.hasEffect : Reading → Bool
  | .word _ => true
  | .ignored _ _ _ => false
  | .invalid _ => false
  | .recognized _ _ _ _ => true

/-- The first token of the reading is quoted. -/
def Reading.opensQuoted : Reading → Bool
  | .word token => needsQuotes token
  | .recognized _ _ (some _) (some value) => !value.any isJsWhitespace && needsQuotes value
  | _ => false

/-- The last token of the reading is quoted. -/
def Reading.closesQuoted : Reading → Bool
  | .word token => needsQuotes token
  | .recognized _ _ _ (some value) => needsQuotes value
  | _ => false

/-- The word or the value is read in the same way without its quotes. -/
def Reading.isUnquoted : Reading → Bool
  | .word token => token.all CodexArgs.isUnquoted
  | .recognized _ _ (some _) (some value) => value.all CodexArgs.isUnquoted
  | _ => false

theorem hasEffect_eq (reading : Reading) :
    reading.hasEffect = !reading.effectiveTokens.isEmpty := by
  cases reading with
  | word token => rfl
  | ignored flag spec value => rfl
  | invalid flag => rfl
  | recognized flag spec inlineValue value =>
    cases value with
    | none => rw [effectiveTokens_alone]; rfl
    | some value =>
      cases inlineValue with
      | none =>
        show true = !(if spec.valueMode = .none then [flag] else [flag, value]).isEmpty
        split <;> rfl
      | some inlineValue =>
        show true = !(if spec.valueMode = .none then [flag]
          else if value.any isJsWhitespace then [flag, value] else [flag ++ '=' :: value]).isEmpty
        split
        · rfl
        · split
          · rfl
          · simp

/-- The flags of the table are written with bare characters. -/
theorem flag_bare (h : flagSpec flag = some spec) : ∀ c ∈ flag, isBareCharacter c = true := by
  obtain ⟨entry, hfind, -⟩ := Option.map_eq_some_iff.mp h
  have hmem := List.mem_of_find?_eq_some hfind
  have hname : entry.1 = flag := by simpa using List.find?_some hfind
  have hall : ∀ entry ∈ flagSpecs, ∀ c ∈ entry.1, isBareCharacter c = true := by decide
  exact hname ▸ hall entry hmem

theorem needsQuotes_of_ne_nil (hne : t ≠ []) : needsQuotes t = !t.all isBareCharacter := by
  unfold needsQuotes
  rw [List.isEmpty_eq_false_iff.mpr hne, Bool.false_or]

theorem needsQuotes_flag (h : flagSpec flag = some spec) : needsQuotes flag = false := by
  rw [needsQuotes_of_ne_nil (flag_ne_nil h), List.all_eq_true.mpr (flag_bare h)]
  rfl

theorem needsQuotes_assigned (h : flagSpec flag = some spec) (hne : value ≠ []) :
    needsQuotes (flag ++ '=' :: value) = needsQuotes value := by
  have hflag : flag.all isBareCharacter = true := List.all_eq_true.mpr (flag_bare h)
  have heq : isBareCharacter '=' = true := by decide
  have hassigned : flag ++ '=' :: value ≠ [] := by simp
  rw [needsQuotes_of_ne_nil hassigned, needsQuotes_of_ne_nil hne, List.all_append, List.all_cons,
    hflag, heq, Bool.true_and, Bool.true_and]

theorem isUnquoted_of_bare (h : isBareCharacter c = true) : isUnquoted c = true := by
  obtain ⟨hblank, -, -, -, hquotes⟩ := isBareCharacter_facts h
  simp only [List.mem_cons, not_or] at hquotes
  simp [isUnquoted, hblank, hquotes]

theorem blank_of_unquoted (h : ∀ c ∈ t, isUnquoted c = true) : t.any isJsWhitespace = false := by
  refine List.any_eq_false.mpr fun c hc => ?_
  have hc := h c hc
  simp only [isUnquoted, Bool.and_eq_true, Bool.not_eq_true'] at hc
  rw [hc.1.1.1]
  exact Bool.false_ne_true

/-- **The ends of the tokens of a reading.** -/
theorem Reading.Formed.quoted (h : reading.Formed) :
    reading.effectiveTokens.head?.any needsQuotes = reading.opensQuoted ∧
      reading.effectiveTokens.getLast?.any needsQuotes = reading.closesQuoted := by
  obtain ⟨token, next, consumeNext, hne, hreads⟩ := h
  cases hreads with
  | word => exact ⟨rfl, rfl⟩
  | dropped _ hnone =>
    have heffect := hasEffect_eq reading
    rw [hnone] at heffect ⊢
    cases reading with
    | word token => cases heffect
    | ignored flag spec value => exact ⟨rfl, rfl⟩
    | invalid flag => exact ⟨rfl, rfl⟩
    | recognized flag spec inlineValue value => cases heffect
  | @inlineValue flag value spec hspec hcategory htoken hvalue =>
    rw [effectiveTokens_assigned ((flagSpec_facts hspec).2.2.2.2 hcategory)]
    unfold Reading.opensQuoted Reading.closesQuoted
    split
    next hblank => exact ⟨by simp [hblank, needsQuotes_flag hspec], rfl⟩
    next hblank =>
      have hassigned := needsQuotes_assigned hspec hvalue
      rw [Bool.not_eq_true] at hblank
      exact ⟨by simp [hblank, hassigned], hassigned⟩
  | @inlineBlank flag value spec hspec hcategory htoken hoptional =>
    rw [effectiveTokens_alone]
    exact ⟨needsQuotes_flag hspec, needsQuotes_flag hspec⟩
  | @nextValue flag value spec hspec hcategory htoken hnext hvalue =>
    rw [effectiveTokens_valued ((flagSpec_facts hspec).2.2.2.2 hcategory)]
    exact ⟨needsQuotes_flag hspec, rfl⟩
  | @alone flag spec hspec hcategory htoken hoptional =>
    rw [effectiveTokens_alone]
    exact ⟨needsQuotes_flag hspec, needsQuotes_flag hspec⟩

/-- Of one quoted token, which the reading is read from without its quotes. -/
theorem Reading.Formed.isUnquoted_iff (h : reading.Formed) (hopens : reading.opensQuoted = true) :
    (∃ t, reading.effectiveTokens = [t] ∧ ∀ c ∈ t, CodexArgs.isUnquoted c = true) ↔
      reading.isUnquoted = true := by
  obtain ⟨token, next, consumeNext, hne, hreads⟩ := h
  cases hreads with
  | word =>
    unfold Reading.isUnquoted
    rw [List.all_eq_true]
    constructor
    · rintro ⟨t, ht, hall⟩
      obtain rfl := List.head_eq_of_cons_eq ht
      exact hall
    · exact fun hall => ⟨token, rfl, hall⟩
  | dropped _ hnone =>
    have heffect := hasEffect_eq reading
    rw [hnone] at heffect
    cases reading with
    | word token => cases heffect
    | ignored flag spec value => cases hopens
    | invalid flag => cases hopens
    | recognized flag spec inlineValue value => cases heffect
  | @inlineValue flag value spec hspec hcategory htoken hvalue =>
    have hblank : (jsTrim value).any isJsWhitespace = false :=
      (Bool.not_eq_true' _).mp (Bool.and_eq_true_iff.mp hopens).1
    rw [effectiveTokens_assigned ((flagSpec_facts hspec).2.2.2.2 hcategory), hblank,
      if_neg Bool.false_ne_true]
    unfold Reading.isUnquoted
    rw [List.all_eq_true]
    constructor
    · rintro ⟨t, ht, hall⟩ c hc
      obtain rfl := List.head_eq_of_cons_eq ht
      exact hall c (by simp [hc])
    · intro hall
      refine ⟨_, rfl, fun c hc => ?_⟩
      simp only [List.mem_append, List.mem_cons] at hc
      rcases hc with hc | rfl | hc
      · exact isUnquoted_of_bare (flag_bare hspec c hc)
      · decide
      · exact hall c hc
  | inlineBlank => cases hopens
  | nextValue => cases hopens
  | alone => cases hopens

/-! ### The ends of all readings -/

/-- The first element that a list of lists adds. -/
theorem any_head?_flatMap {α β : Type} {f : α → List β} {p : β → Bool} {keep q : α → Bool}
    {l : List α} (hkeep : ∀ a, keep a = !(f a).isEmpty) (h : ∀ a ∈ l, (f a).head?.any p = q a) :
    (l.flatMap f).head?.any p = (l.filter keep).head?.any q := by
  induction l with
  | nil => rfl
  | cons a l ih =>
    obtain ⟨ha, hl⟩ := List.forall_mem_cons.mp h
    rw [List.flatMap_cons]
    by_cases hempty : f a = []
    · have hdrop : ¬ keep a = true := by simp [hkeep, hempty]
      rw [hempty, List.nil_append, List.filter_cons_of_neg hdrop, ih hl]
    · have hkept : keep a = true := by simp [hkeep, hempty]
      rw [List.head?_append_of_ne_nil _ hempty, List.filter_cons_of_pos hkept, ha]
      rfl

/-- **The readings at whose ends the text has quotes.** -/
theorem isWrapped_flatMap (h : ∀ reading ∈ readings, reading.Formed) :
    isWrapped (readings.flatMap Reading.effectiveTokens) =
      ((readings.filter Reading.hasEffect).head?.any Reading.opensQuoted &&
        (readings.filter Reading.hasEffect).getLast?.any Reading.closesQuoted) := by
  have hfirst := any_head?_flatMap hasEffect_eq fun reading hmem => (h reading hmem).quoted.1
  have hlast : (readings.flatMap Reading.effectiveTokens).getLast?.any needsQuotes =
      (readings.filter Reading.hasEffect).getLast?.any Reading.closesQuoted := by
    rw [← List.head?_reverse, ← List.head?_reverse, List.reverse_flatMap, ← List.filter_reverse]
    refine any_head?_flatMap (fun reading => ?_) fun reading hmem => ?_
    · rw [hasEffect_eq]
      simp
    · rw [Function.comp_apply, List.head?_reverse]
      exact (h reading (List.mem_reverse.mp hmem)).quoted.2
  unfold isWrapped
  rw [hfirst, hlast]

/-- The tokens are those of the readings that have an effect. -/
theorem flatMap_filter_hasEffect (readings : List Reading) :
    (readings.filter Reading.hasEffect).flatMap Reading.effectiveTokens =
      readings.flatMap Reading.effectiveTokens := by
  induction readings with
  | nil => rfl
  | cons reading readings ih =>
    have heffect := hasEffect_eq reading
    by_cases hempty : reading.effectiveTokens = []
    · rw [List.filter_cons_of_neg (by simp [heffect, hempty]), ih, List.flatMap_cons, hempty,
        List.nil_append]
    · rw [List.filter_cons_of_pos (by simp [heffect, hempty]), List.flatMap_cons,
        List.flatMap_cons, ih]

/-- **Settled readings.**  They are stable; and if the first of those that have an effect opens a
    quote and the last one closes one, it is the only one and needs no quotes. -/
structure Settled (readings : List Reading) : Prop where
  stable : Stable readings
  alone : (readings.filter Reading.hasEffect).head?.any Reading.opensQuoted = true →
    (readings.filter Reading.hasEffect).getLast?.any Reading.closesQuoted = true →
      ∃ reading, readings.filter Reading.hasEffect = [reading] ∧ reading.isUnquoted = true

theorem settled_iff (h : ∀ reading ∈ readings, reading.Formed) :
    Settled readings ↔ Stable readings ∧
      (isWrapped (readings.flatMap Reading.effectiveTokens) = true →
        ∃ t, readings.flatMap Reading.effectiveTokens = [t] ∧
          ∀ c ∈ t, isUnquoted c = true) := by
  have hkept : ∀ reading ∈ readings.filter Reading.hasEffect,
      reading.Formed ∧ reading.effectiveTokens ≠ [] := by
    intro reading hmem
    obtain ⟨hmem, heffect⟩ := List.mem_filter.mp hmem
    rw [hasEffect_eq] at heffect
    exact ⟨h reading hmem, by simpa using heffect⟩
  have halone : (readings.filter Reading.hasEffect).head?.any Reading.opensQuoted = true →
      ((∃ reading, readings.filter Reading.hasEffect = [reading] ∧ reading.isUnquoted = true) ↔
        ∃ t, readings.flatMap Reading.effectiveTokens = [t] ∧
          ∀ c ∈ t, isUnquoted c = true) := by
    intro hopens
    rw [← flatMap_filter_hasEffect]
    revert hkept hopens
    generalize readings.filter Reading.hasEffect = kept
    intro hkept hopens
    cases kept with
    | nil => cases hopens
    | cons reading more =>
      obtain ⟨⟨hformed, -⟩, hmore⟩ := List.forall_mem_cons.mp hkept
      have hiff := hformed.isUnquoted_iff hopens
      rw [List.flatMap_cons]
      constructor
      · rintro ⟨only, heq, hunquoted⟩
        obtain ⟨rfl, rfl⟩ := List.cons_eq_cons.mp heq
        rw [List.flatMap_nil, List.append_nil]
        exact hiff.mpr hunquoted
      · rintro ⟨t, ht, hall⟩
        cases more with
        | nil =>
          rw [List.flatMap_nil, List.append_nil] at ht
          exact ⟨reading, rfl, hiff.mp ⟨t, ht, hall⟩⟩
        | cons second more =>
          -- two readings with an effect have two tokens
          have hfirst := List.length_pos_iff.mpr (List.forall_mem_cons.mp hkept).1.2
          have hsecond := List.length_pos_iff.mpr (List.forall_mem_cons.mp hmore).1.2
          have hlength := congrArg List.length ht
          rw [List.flatMap_cons, List.length_append, List.length_append,
            List.length_singleton] at hlength
          omega
  rw [isWrapped_flatMap h, Bool.and_eq_true]
  constructor
  · rintro ⟨hstable, hends⟩
    exact ⟨hstable, fun ⟨hopens, hcloses⟩ => (halone hopens).mp (hends hopens hcloses)⟩
  · rintro ⟨hstable, hends⟩
    exact ⟨hstable, fun hopens hcloses => (halone hopens).mpr (hends ⟨hopens, hcloses⟩)⟩

/-! ### Both sides -/

/-- **The same meaning.**  The words of the backend are the effective tokens, none of them sets an
    ignored flag, and the sanitised text is sanitised to itself. -/
structure SameMeaning (s : Option Text) (e : Text) : Prop where
  words : parseCodexArgs (some e) = .ok (effectiveTokensOf s)
  noneIgnored : ∀ token ∈ effectiveTokensOf s, ¬ IsIgnoredAlias token
  again : sanitizeRuntimeCodexArgs (some e) = some e

theorem sanitizeRuntimeCodexArgs_eq_some {s : Option Text} {e : Text}
    (h : sanitizeRuntimeCodexArgs s = some e) :
    effectiveTokensOf s ≠ [] ∧ e = joined (effectiveTokensOf s) := by
  unfold sanitizeRuntimeCodexArgs parseCodexArgsProfile at h
  split at h
  · cases h
  · exact joinTokens_eq_some h

/-- **The backend always gets the effective tokens.** -/
theorem parseCodexArgs_sanitized {s : Option Text} {e : Text}
    (h : sanitizeRuntimeCodexArgs s = some e) :
    parseCodexArgs (some e) = .ok (effectiveTokensOf s) := by
  obtain ⟨hne, rfl⟩ := sanitizeRuntimeCodexArgs_eq_some h
  exact parseCodexArgs_joined hne fun t ht => (mem_effectiveTokensOf ht).1

/-- **Which arguments mean the same to both sides**, and are sanitised for good. -/
theorem sanitized_iff (s : Option Text) (e : Text) (h : sanitizeRuntimeCodexArgs s = some e) :
    SameMeaning s e ↔ Settled (readingsOf s) := by
  have hformed := formed_readingsOf s
  have hwords := parseCodexArgs_sanitized h
  obtain ⟨hne, rfl⟩ := sanitizeRuntimeCodexArgs_eq_some h
  have hagain := sanitize_joined_iff hne fun t ht => mem_effectiveTokensOf ht
  have hstable : effect (effectiveTokensOf s) = effectiveTokensOf s ↔ Stable (readingsOf s) :=
    effect_flatMap_iff hformed
  rw [settled_iff hformed, ← hstable]
  constructor
  · exact fun hsame => hagain.mp hsame.again
  · intro hsettled
    exact ⟨hwords, (hstable.mp hsettled.1).not_ignored hformed, hagain.mpr hsettled⟩

theorem twoFlags_sameMeaning : SameMeaning (some "--profile dev --model x --config 'a b'".toList)
    "--profile dev --config \"a b\"".toList := by
  have hreadings : readingsOf (some "--profile dev --model x --config 'a b'".toList) =
      [.recognized "--profile".toList ⟨"--profile".toList, .recognized, .required⟩ none
          (some "dev".toList),
        .ignored "--model".toList ⟨"--model".toList, .ignored, .required⟩ (some "x".toList),
        .recognized "--config".toList ⟨"--config".toList, .recognized, .required⟩ none
          (some "a b".toList)] := by decide +kernel
  refine (sanitized_iff _ _ (by decide +kernel)).mpr ?_
  rw [hreadings]
  exact ⟨⟨rfl, rfl, rfl, trivial⟩, fun hopens => absurd hopens Bool.false_ne_true⟩

/-- The value behind the equals sign becomes a word that sets an ignored flag. -/
theorem quotedSandbox_differs : ∃ s e, sanitizeRuntimeCodexArgs s = some e ∧ ¬ SameMeaning s e := by
  refine ⟨some "--config=\"--sandbox=a b\"".toList, "--config \"--sandbox=a b\"".toList,
    by decide +kernel, fun hsame => ?_⟩
  have hnull : sanitizeRuntimeCodexArgs (some "--config \"--sandbox=a b\"".toList) = none := by
    decide +kernel
  rw [hsame.again] at hnull
  cases hnull

end CodexMonitor.CodexArgs
