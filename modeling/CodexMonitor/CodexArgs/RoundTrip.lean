import CodexMonitor.CodexArgs.Settled

namespace CodexMonitor.CodexArgs

open Text

/-!
# Codex args — what the backend starts codex with

The arguments that were sanitised are split by the backend into the tokens that have an effect.
They are sanitised again as they are, unless the reading of their flags changes them, or they begin
and end with a quote: these two quotes are then taken for quotes around the whole text.

* `Stable.not_ignored` — stable readings have no token that sets an ignored flag.
* `joined_size` — the size of tokens is the weight of their text.
* `unquoted_of_read` — which tokens are read again from the text between the two quotes.
* `sanitize_joined_iff` — which joined tokens are sanitised to themselves.
-/

variable {c : Char} {t token : Text} {next : Option Text} {tokens ts : List Text}
  {reading : Reading} {consumeNext : Bool}

/-! ### Where the effective tokens come from -/

theorem readTokens_reads {skip : Bool} (h : reading ∈ readTokens skip tokens) :
    ∃ token ∈ tokens, ∃ next consumeNext, token ≠ [] ∧ (∀ n, next = some n → n ∈ tokens) ∧
      Reads token next reading consumeNext := by
  induction tokens generalizing skip with
  | nil => cases h
  | cons token tokens ih =>
    have hbehind : ∀ skip, reading ∈ readTokens skip tokens →
        ∃ token' ∈ token :: tokens, ∃ next consumeNext, token' ≠ [] ∧
          (∀ n, next = some n → n ∈ token :: tokens) ∧ Reads token' next reading consumeNext := by
      intro skip h
      obtain ⟨token', hmem, next, consumeNext, hne, hnext, hreads⟩ := ih h
      exact ⟨token', List.mem_cons_of_mem _ hmem, next, consumeNext, hne,
        fun n hn => List.mem_cons_of_mem _ (hnext n hn), hreads⟩
    cases skip with
    | true => exact hbehind false h
    | false =>
      unfold readTokens at h
      split at h
      next => exact hbehind false h
      next hne =>
        rcases List.mem_cons.mp h with rfl | h
        · refine ⟨token, List.mem_cons_self, tokens.head?, _, by simpa using hne, fun n hn => ?_,
            readToken_reads token tokens.head?⟩
          exact List.mem_cons_of_mem _ (List.mem_of_mem_head? hn)
        · exact hbehind _ h

/-- Effective tokens are made of characters that were read. -/
theorem Reads.mem_effectiveTokens (h : Reads token next reading consumeNext) (hne : token ≠ [])
    (ht : t ∈ reading.effectiveTokens) :
    t ≠ [] ∧ ∀ c ∈ t, c ∈ token ∨ ∃ n, next = some n ∧ c ∈ n := by
  cases h with
  | word =>
    obtain rfl := List.mem_singleton.mp ht
    exact ⟨hne, fun c hc => .inl hc⟩
  | dropped _ hnone =>
    rw [hnone] at ht
    cases ht
  | @inlineValue flag value spec hspec hcategory htoken hvalue =>
    subst htoken
    have hsub := trimBy_subset isJsWhitespace value
    rw [effectiveTokens_assigned ((flagSpec_facts hspec).2.2.2.2 hcategory)] at ht
    split at ht
    · rcases List.mem_cons.mp ht with rfl | ht
      · exact ⟨flag_ne_nil hspec, fun c hc => .inl (List.mem_append_left _ hc)⟩
      · obtain rfl := List.mem_singleton.mp ht
        exact ⟨hvalue, fun c hc => .inl (by simp [hsub hc])⟩
    · obtain rfl := List.mem_singleton.mp ht
      refine ⟨by simp, fun c hc => .inl ?_⟩
      simp only [List.mem_append, List.mem_cons] at hc ⊢
      rcases hc with hc | hc | hc
      · exact .inl hc
      · exact .inr (.inl hc)
      · exact .inr (.inr (hsub hc))
  | @inlineBlank flag value spec hspec hcategory htoken hoptional =>
    subst htoken
    rw [effectiveTokens_alone] at ht
    obtain rfl := List.mem_singleton.mp ht
    exact ⟨flag_ne_nil hspec, fun c hc => .inl (List.mem_append_left _ hc)⟩
  | @nextValue flag value spec hspec hcategory htoken hnext hvalue =>
    subst htoken
    rw [effectiveTokens_valued ((flagSpec_facts hspec).2.2.2.2 hcategory)] at ht
    rcases List.mem_cons.mp ht with rfl | ht
    · exact ⟨hne, fun c hc => .inl hc⟩
    · obtain rfl := List.mem_singleton.mp ht
      refine ⟨ne_nil_of_isValue ((isValue_jsTrim value).trans hvalue), fun c hc => .inr ?_⟩
      exact ⟨value, hnext, trimBy_subset _ _ hc⟩
  | @alone flag spec hspec hcategory htoken hoptional =>
    subst htoken
    rw [effectiveTokens_alone] at ht
    obtain rfl := List.mem_singleton.mp ht
    exact ⟨hne, fun c hc => .inl hc⟩

/-- Effective tokens are not empty, and made of the characters of the tokens. -/
theorem mem_effect (ht : t ∈ effect tokens) : t ≠ [] ∧ ∀ c ∈ t, ∃ u ∈ tokens, c ∈ u := by
  obtain ⟨reading, hreading, ht⟩ := List.mem_flatMap.mp ht
  obtain ⟨token, hmem, next, consumeNext, hne, hnext, hreads⟩ := readTokens_reads hreading
  obtain ⟨hne', hcharacters⟩ := hreads.mem_effectiveTokens hne ht
  refine ⟨hne', fun c hc => ?_⟩
  rcases hcharacters c hc with hc | ⟨n, hn, hc⟩
  · exact ⟨token, hmem, hc⟩
  · exact ⟨n, hnext n hn, hc⟩

theorem effectiveTokensOf_eq (args : Option Text) :
    effectiveTokensOf args = effect (tokenizeArgs ((normalizeCodexArgsInput args).getD [])) := rfl

theorem formed_readingsOf (args : Option Text) : ∀ reading ∈ readingsOf args, reading.Formed := by
  intro reading hreading
  obtain ⟨token, -, next, consumeNext, hne, -, hreads⟩ := readTokens_reads hreading
  exact ⟨token, next, consumeNext, hne, hreads⟩

/-- The tokens of some arguments are not empty, and plain. -/
theorem mem_effectiveTokensOf {args : Option Text} (ht : t ∈ effectiveTokensOf args) :
    t ≠ [] ∧ ∀ c ∈ t, IsPlain c := by
  rw [effectiveTokensOf_eq] at ht
  obtain ⟨hne, hcharacters⟩ := mem_effect ht
  refine ⟨hne, fun c hc => ?_⟩
  obtain ⟨u, hu, hcu⟩ := hcharacters c hc
  have hmem := ((mem_tokenizeFrom none [] _ u hu).2 c hcu).resolve_left List.not_mem_nil
  cases hnormal : normalizeCodexArgsInput args with
  | none =>
    rw [hnormal] at hmem
    cases hmem
  | some original =>
    rw [hnormal] at hmem
    exact isPlain_of_normalized hnormal c hmem

/-! ### Ignored flags -/

/-- A token that sets an ignored flag. -/
def IsIgnoredAlias (token : Text) : Prop :=
  ∃ name spec, flagSpec name = some spec ∧ spec.category = .ignored ∧
    (token = name ∨ ∃ value, token = name ++ '=' :: value)

theorem IsIgnoredAlias.tokenSpec (h : IsIgnoredAlias token) :
    ∃ spec, CodexArgs.tokenSpec token = some spec ∧ spec.category = .ignored := by
  obtain ⟨name, spec, hspec, hcategory, rfl | ⟨value, rfl⟩⟩ := h
  · exact ⟨spec, tokenSpec_flag hspec, hcategory⟩
  · exact ⟨spec, tokenSpec_assigned hspec value, hcategory⟩

/-- **No token of a reading that is kept sets an ignored flag.** -/
theorem Reads.not_ignored (h : Reads token next reading consumeNext)
    {behind : Option Text} (hkeeps : reading.keeps behind = true)
    (ht : t ∈ reading.effectiveTokens) : ¬ IsIgnoredAlias t := by
  intro hignored
  obtain ⟨spec', hspec', hcategory'⟩ := hignored.tokenSpec
  have hrecognized : ∀ {flag : Text} {spec : FlagSpec}, flagSpec flag = some spec →
      spec.category = .recognized → ∀ {u : Text}, CodexArgs.tokenSpec u = some spec → t ≠ u := by
    rintro flag spec hspec hcategory u hu rfl
    obtain rfl := Option.some.inj (hu.symm.trans hspec')
    rw [hcategory] at hcategory'
    cases hcategory'
  cases h with
  | word hnone =>
    obtain rfl := List.mem_singleton.mp ht
    rw [hnone] at hspec'
    cases hspec'
  | dropped _ hnone =>
    rw [hnone] at ht
    cases ht
  | @inlineValue flag value spec hspec hcategory htoken hvalue =>
    rw [effectiveTokens_assigned ((flagSpec_facts hspec).2.2.2.2 hcategory)] at ht
    split at ht
    next hblank =>
      rcases List.mem_cons.mp ht with heq | ht
      · exact hrecognized hspec hcategory (tokenSpec_flag hspec) heq
      · obtain rfl := List.mem_singleton.mp ht
        -- a value that looks like a flag is none of the table
        have hdash : (jsTrim value).startsWith "-".toList = true := by
          have hflag : isFlagToken (jsTrim value) = true := by
            by_contra hflag
            unfold CodexArgs.tokenSpec at hspec'
            rw [if_neg hflag] at hspec'
            cases hspec'
          exact (Bool.and_eq_true_iff.mp hflag).1
        have hkeeps' : (!((jsTrim value).any isJsWhitespace &&
            (jsTrim value).startsWith "-".toList) ||
            (decide (spec.valueMode = .optional) &&
              (CodexArgs.tokenSpec (jsTrim value)).isNone)) = true := hkeeps
        rw [hblank, hdash, hspec'] at hkeeps'
        simp at hkeeps'
    next =>
      obtain rfl := List.mem_singleton.mp ht
      exact hrecognized hspec hcategory (tokenSpec_assigned hspec _) rfl
  | inlineBlank hspec hcategory htoken hoptional =>
    rw [effectiveTokens_alone] at ht
    exact hrecognized hspec hcategory (tokenSpec_flag hspec) (List.mem_singleton.mp ht)
  | @nextValue flag value spec hspec hcategory htoken hnext hvalue =>
    rw [effectiveTokens_valued ((flagSpec_facts hspec).2.2.2.2 hcategory)] at ht
    rcases List.mem_cons.mp ht with heq | ht
    · exact hrecognized hspec hcategory (tokenSpec_flag hspec) heq
    · obtain rfl := List.mem_singleton.mp ht
      rw [tokenSpec_of_isValue ((isValue_jsTrim value).trans hvalue)] at hspec'
      cases hspec'
  | alone hspec hcategory htoken hoptional =>
    rw [effectiveTokens_alone] at ht
    exact hrecognized hspec hcategory (tokenSpec_flag hspec) (List.mem_singleton.mp ht)

theorem Stable.not_ignored {readings : List Reading} (hstable : Stable readings)
    (h : ∀ reading ∈ readings, reading.Formed) :
    ∀ t ∈ readings.flatMap Reading.effectiveTokens, ¬ IsIgnoredAlias t := by
  induction readings with
  | nil => exact fun t ht => absurd ht List.not_mem_nil
  | cons reading readings ih =>
    obtain ⟨⟨token, next, consumeNext, -, hreads⟩, hreadings⟩ := List.forall_mem_cons.mp h
    obtain ⟨hkeeps, hrest⟩ := hstable
    intro t ht
    rw [List.flatMap_cons, List.mem_append] at ht
    rcases ht with ht | ht
    · exact hreads.not_ignored hkeeps ht
    · exact ih hrest hreadings t ht

/-! ### The size of joined tokens -/

/-- **The tokenizer makes nothing up.** -/
theorem size_tokenizeFrom_le (quote : Option Char) (current text : Text) :
    size (tokenizeFrom quote current text) ≤ textWeight current + textWeight text + 1 := by
  have hlonger : ∀ (current : Text) (c : Char),
      textWeight (current ++ [c]) = textWeight current + weight c := by
    intro current c
    rw [textWeight_append]
    simp [textWeight]
  fun_induction tokenizeFrom quote current text with
  | case1 => exact Nat.zero_le _
  | case2 quote current =>
    simp only [size, textWeight]
    omega
  | case3 quote current nextChar more h ih =>
    rw [hlonger] at ih
    simp only [textWeight]
    omega
  | case4 quote current nextChar more h ih =>
    rw [hlonger] at ih
    simp only [textWeight] at ih ⊢
    omega
  | case5 quote current =>
    simp only [size, hlonger, textWeight]
    omega
  | case6 current quote rest hq ih =>
    simp only [textWeight]
    omega
  | case7 quote current c' rest hc hq ih =>
    rw [hlonger] at ih
    simp only [textWeight]
    omega
  | case8 current c' rest hopen ih =>
    simp only [textWeight]
    omega
  | case9 current c' rest hopen hblank hnil ih =>
    simp only [textWeight] at ih ⊢
    omega
  | case10 current c' rest hopen hblank hne ih =>
    -- the blank pays for the token
    have hweight : weight c' = 1 := if_pos hblank
    simp only [size, textWeight] at ih ⊢
    omega
  | case11 current c' rest hopen hblank ih =>
    rw [hlonger] at ih
    simp only [textWeight]
    omega

theorem textWeight_escape (t : Text) : textWeight (escape t) = textWeight t := by
  have hbackslash : weight '\\' = 0 := by decide
  induction t with
  | nil => rfl
  | cons c t ih =>
    rw [escape_cons, textWeight_append, ih, escapeCharacter]
    split
    · simp [textWeight, hbackslash]
    · simp [textWeight]

theorem textWeight_quoteTokenIfNeeded (t : Text) :
    textWeight (quoteTokenIfNeeded t) = textWeight t := by
  have hquote : weight '"' = 0 := by decide
  unfold quoteTokenIfNeeded
  split
  · rw [List.cons_append, textWeight, textWeight_append, textWeight_escape]
    simp [textWeight, hquote]
  · rfl

/-- **The size of tokens** is the weight of their text. -/
theorem joined_size (hne : tokens ≠ []) : size tokens = textWeight (joined tokens) + 1 := by
  have hspace : weight ' ' = 1 := by decide
  induction tokens with
  | nil => exact absurd rfl hne
  | cons t tokens ih =>
    by_cases htokens : tokens = []
    · subst htokens
      rw [joined_singleton, textWeight_quoteTokenIfNeeded]
      simp only [size]
      omega
    · rw [joined_cons t htokens, textWeight_append, textWeight_quoteTokenIfNeeded, textWeight,
        hspace, size, ih htokens]
      omega

/-! ### Quotes at both ends -/

/-- A character that is read in the same way in quotes and outside of them. -/
def isUnquoted (c : Char) : Bool :=
  !isJsWhitespace c && c != '"' && c != '\'' && c != '\\'

theorem escape_of_unquoted (h : ∀ c ∈ t, isUnquoted c = true) : escape t = t := by
  induction t with
  | nil => rfl
  | cons c t ih =>
    obtain ⟨hc, ht⟩ := List.forall_mem_cons.mp h
    have hcharacter : escapeCharacter c = [c] := by
      simp only [isUnquoted, Bool.and_eq_true, bne_iff_ne] at hc
      exact if_neg (by tauto)
    rw [escape_cons, ih ht, hcharacter]
    rfl

theorem tokenizeFrom_unquoted (h : ∀ c ∈ t, isUnquoted c = true) (current rest : Text) :
    tokenizeFrom none current (t ++ rest) = tokenizeFrom none (current ++ t) rest := by
  refine tokenizeFrom_plain (fun c hc => ?_) current rest
  have hc := h c hc
  simp only [isUnquoted, Bool.and_eq_true, Bool.not_eq_true', bne_iff_ne] at hc
  tauto

theorem escape_replicate (n : Nat) :
    escape (List.replicate n '\\') = List.replicate n '\\' ++ List.replicate n '\\' := by
  rw [← List.replicate_add]
  induction n with
  | zero => rfl
  | succ n ih =>
    have hlength : n + 1 + (n + 1) = n + n + 1 + 1 := by omega
    rw [List.replicate_succ, escape_cons, ih, hlength, List.replicate_succ, List.replicate_succ]
    rfl

/-- Backslashes that were doubled are not read as they were. -/
theorem read_backslash_ne (p r tail : Text) (ts : List Text) :
    tokenizeFrom none p (escape ('\\' :: r) ++ tail) ≠ (p ++ '\\' :: r) :: ts := by
  intro h
  obtain ⟨n, r', hr, hhead⟩ : ∃ n r', '\\' :: r = List.replicate (n + 1) '\\' ++ r' ∧
      r'.head? ≠ some '\\' := by
    refine ⟨(r.takeWhile (· == '\\')).length, r.dropWhile (· == '\\'), ?_, fun heq => ?_⟩
    · have hrun : r.takeWhile (· == '\\') =
          List.replicate (r.takeWhile (· == '\\')).length '\\' :=
        List.eq_replicate_iff.mpr ⟨rfl, fun c hc => by simpa using List.mem_takeWhile_imp hc⟩
      rw [List.replicate_succ, ← hrun, List.cons_append, List.takeWhile_append_dropWhile]
    · have hnot := List.head?_dropWhile_not (· == '\\') r
      rw [heq] at hnot
      simp at hnot
  have hplain : ∀ c ∈ List.replicate (n + 1) '\\' ++ List.replicate (n + 1) '\\',
      isJsWhitespace c = false ∧ c ≠ '"' ∧ c ≠ '\'' := by
    intro c hc
    have hc : c = '\\' := by
      rcases List.mem_append.mp hc with hc | hc
      · exact List.eq_of_mem_replicate hc
      · exact List.eq_of_mem_replicate hc
    subst hc
    exact ⟨by decide, by decide, by decide⟩
  rw [hr, escape, List.flatMap_append] at h
  rw [show (List.replicate (n + 1) '\\').flatMap escapeCharacter = _ from escape_replicate (n + 1),
    List.append_assoc, tokenizeFrom_plain hplain] at h
  obtain ⟨more, tokens, hfirst⟩ := prefix_tokenizeFrom none
    (p ++ (List.replicate (n + 1) '\\' ++ List.replicate (n + 1) '\\'))
    (r'.flatMap escapeCharacter ++ tail) (by simp)
  have htoken := List.head_eq_of_cons_eq (hfirst.symm.trans h)
  rw [List.append_assoc, List.append_assoc] at htoken
  have hrest := List.append_cancel_left (List.append_cancel_left htoken)
  rw [← hrest, List.replicate_succ] at hhead
  exact hhead rfl

/-- A token is read outside of quotes, as it was written in quotes: then it needs none. -/
theorem unquoted_of_read {tail : Text} (h : tokenizeArgs (escape t ++ tail) = t :: ts)
    (htrim : jsTrim (escape t ++ tail) = escape t ++ tail)
    (hsize : size (t :: ts) = textWeight (escape t ++ tail) + 1) :
    ∀ c ∈ t, isUnquoted c = true := by
  by_contra hnot
  -- the first character that is read differently
  obtain ⟨p, c, r, ht, hp, hc⟩ : ∃ p c r, t = p ++ c :: r ∧ (∀ c ∈ p, isUnquoted c = true) ∧
      isUnquoted c = false := by
    refine ⟨t.takeWhile isUnquoted, ?_⟩
    have hsplit := List.takeWhile_append_dropWhile (p := isUnquoted) (l := t)
    cases hrest : t.dropWhile isUnquoted with
    | nil =>
      rw [hrest, List.append_nil, List.takeWhile_eq_self_iff] at hsplit
      exact absurd hsplit hnot
    | cons c r =>
      have hhead := List.head?_dropWhile_not isUnquoted t
      rw [hrest] at hhead hsplit
      exact ⟨c, r, hsplit.symm, fun c hc => List.mem_takeWhile_imp hc, by simpa using hhead⟩
  have hescape : escape t ++ tail = p ++ (escapeCharacter c ++ (escape r ++ tail)) := by
    rw [ht, escape, List.flatMap_append, List.flatMap_cons]
    rw [show p.flatMap escapeCharacter = p from escape_of_unquoted hp]
    simp [escape]
  rw [hescape] at h htrim hsize
  unfold tokenizeArgs at h
  rw [tokenizeFrom_unquoted hp, List.nil_append] at h
  by_cases hbackslash : c = '\\'
  · subst hbackslash
    have hagain : escapeCharacter '\\' ++ (escape r ++ tail) = escape ('\\' :: r) ++ tail := by
      rw [escape_cons, List.append_assoc]
    rw [hagain, ht] at h
    exact read_backslash_ne p r tail ts h
  by_cases hdouble : c = '"'
  · -- a backslash is read where the quote was
    subst hdouble
    have hread : tokenizeFrom none p (escapeCharacter '"' ++ (escape r ++ tail)) =
        tokenizeFrom none (p ++ ['\\']) ('"' :: (escape r ++ tail)) :=
      tokenizeFrom_char (by decide) (by decide) p _
    obtain ⟨more, tokens, hfirst⟩ :=
      prefix_tokenizeFrom none (p ++ ['\\']) ('"' :: (escape r ++ tail)) (by simp)
    rw [hread, hfirst, ht] at h
    have htoken := List.head_eq_of_cons_eq h
    rw [List.append_assoc] at htoken
    have hcharacter := List.head_eq_of_cons_eq (List.append_cancel_left htoken)
    exact absurd hcharacter (by decide)
  have hcharacter : escapeCharacter c = [c] := if_neg (by tauto)
  rw [hcharacter, List.singleton_append] at h htrim hsize
  by_cases hsingle : c = '\''
  · -- the quote is lost
    subst hsingle
    rw [tokenizeFrom_open (.inr rfl)] at h
    have hle := size_tokenizeFrom_le (some '\'') p (escape r ++ tail)
    have hweight : weight '\'' = 1 := by decide
    rw [h, hsize, textWeight_append, textWeight, hweight] at hle
    omega
  · have hblank : isJsWhitespace c = true := by
      simp only [isUnquoted, Bool.and_eq_false_iff, Bool.not_eq_false', bne_eq_false_iff_eq] at hc
      tauto
    rw [tokenizeFrom_blank hblank (by tauto)] at h
    by_cases hnil : p = []
    · -- the text begins with a blank
      subst hnil
      have htrimmed : jsTrim (c :: (escape r ++ tail)) = jsTrim (escape r ++ tail) :=
        by
        have hblanks : ∀ d ∈ [c], isJsWhitespace d = true := by simpa using hblank
        exact trimBy_append hblanks (escape r ++ tail)
      have hweight := textWeight_jsTrim_le (escape r ++ tail)
      have hone : weight c = 1 := if_pos hblank
      rw [List.nil_append, htrimmed] at htrim
      rw [htrim, textWeight, hone] at hweight
      omega
    · -- the token ends at the blank
      rw [if_neg (by simpa using hnil)] at h
      have htoken := congrArg List.length ((List.head_eq_of_cons_eq h).trans ht)
      rw [List.length_append, List.length_cons] at htoken
      omega

/-- The first and the last token are quoted. -/
def isWrapped (tokens : List Text) : Bool :=
  tokens.head?.any needsQuotes && tokens.getLast?.any needsQuotes

theorem quoteTokenIfNeeded_quoted (h : needsQuotes t = true) :
    quoteTokenIfNeeded t = '"' :: (escape t ++ ['"']) := if_pos h

/-- A token without quotes begins and ends with bare characters. -/
theorem bare_ends (h : needsQuotes t = false) :
    (∀ c ∈ t.head?, c ≠ '"' ∧ c ≠ '\'') ∧ ∀ c ∈ t.getLast?, c ≠ '"' ∧ c ≠ '\'' := by
  have hbare : ∀ c ∈ t, c ≠ '"' ∧ c ≠ '\'' := by
    intro c hc
    obtain ⟨-, -, -, -, hmem⟩ := isBareCharacter_facts ((forall_bare h).2 c hc)
    simp only [List.mem_cons, List.not_mem_nil, or_false, not_or] at hmem
    exact ⟨hmem.1, hmem.2.1⟩
  exact ⟨fun c hc => hbare c (List.mem_of_mem_head? hc),
    fun c hc => hbare c (List.mem_of_mem_getLast? hc)⟩

theorem head?_joined (t : Text) (ts : List Text) :
    (joined (t :: ts)).head? = (quoteTokenIfNeeded t).head? := by
  by_cases hts : ts = []
  · rw [hts, joined_singleton]
  · rw [joined_cons t hts, List.head?_append_of_ne_nil _ (quoteTokenIfNeeded_ends t).2.2]

theorem getLast?_joined (ts : List Text) (t : Text) :
    (joined (ts ++ [t])).getLast? = (quoteTokenIfNeeded t).getLast? := by
  induction ts with
  | nil => rfl
  | cons u ts ih =>
    have hne : ts ++ [t] ≠ [] := by simp
    rw [List.cons_append, joined_cons u hne,
      List.getLast?_append_of_ne_nil _ (List.cons_ne_nil _ _),
      List.getLast?_cons_of_ne_nil (joined_ends hne).2.2, ih]

theorem stripWrappingQuotes_wrapped (inner : Text) :
    stripWrappingQuotes ('"' :: (inner ++ ['"'])) = inner := by
  have hstart : startsWith ('"' :: (inner ++ ['"'])) "\"".toList = true := by simp [startsWith]
  have hend : endsWith ('"' :: (inner ++ ['"'])) "\"".toList = true := by
    unfold endsWith
    rw [List.isSuffixOf_iff_suffix]
    exact ⟨'"' :: inner, rfl⟩
  unfold stripWrappingQuotes
  rw [hstart, hend]
  simp

/-- A text that begins with a quote, or ends with one. -/
theorem startsWith_single (q : Char) (t : Text) :
    t.startsWith [q] = true ↔ t.head? = some q := by
  unfold startsWith
  rw [List.isPrefixOf_iff_prefix]
  constructor
  · rintro ⟨more, rfl⟩
    rfl
  · intro h
    obtain ⟨more, rfl⟩ := List.head?_eq_some_iff.mp h
    exact ⟨more, rfl⟩

theorem endsWith_single (q : Char) (t : Text) :
    t.endsWith [q] = true ↔ t.getLast? = some q := by
  unfold endsWith
  rw [List.isSuffixOf_iff_suffix]
  constructor
  · rintro ⟨more, rfl⟩
    exact List.getLast?_concat
  · intro h
    obtain ⟨more, rfl⟩ := List.getLast?_eq_some_iff.mp h
    exact ⟨more, rfl⟩

theorem stripWrappingQuotes_unwrapped (hne : tokens ≠ []) (h : isWrapped tokens = false) :
    stripWrappingQuotes (joined tokens) = joined tokens := by
  have hsingle : ∀ t : Text, (quoteTokenIfNeeded t).head? ≠ some '\'' := by
    intro t
    unfold quoteTokenIfNeeded
    split
    · simp
    next hbare =>
      rw [Bool.not_eq_true] at hbare
      exact fun heq => ((bare_ends hbare).1 '\'' heq).2 rfl
  have hfirst : ∀ t ts, tokens = t :: ts →
      ((joined tokens).head? = some '"' → needsQuotes t = true) ∧
        (joined tokens).head? ≠ some '\'' := by
    rintro t ts rfl
    rw [head?_joined]
    refine ⟨fun heq => ?_, hsingle t⟩
    by_contra hbare
    rw [Bool.not_eq_true] at hbare
    unfold quoteTokenIfNeeded at heq
    rw [hbare, if_neg Bool.false_ne_true] at heq
    exact ((bare_ends hbare).1 '"' heq).1 rfl
  have hlast : ∀ ts t, tokens = ts ++ [t] →
      (joined tokens).getLast? = some '"' → needsQuotes t = true := by
    rintro ts t rfl heq
    rw [getLast?_joined] at heq
    by_contra hbare
    rw [Bool.not_eq_true] at hbare
    unfold quoteTokenIfNeeded at heq
    rw [hbare, if_neg Bool.false_ne_true] at heq
    exact ((bare_ends hbare).2 '"' heq).1 rfl
  have hnot : ¬ ((startsWith (joined tokens) "\"".toList &&
      endsWith (joined tokens) "\"".toList) ||
      (startsWith (joined tokens) "'".toList && endsWith (joined tokens) "'".toList)) = true := by
    intro hquotes
    obtain ⟨t, ts, hcons⟩ := List.exists_cons_of_ne_nil hne
    obtain ⟨us, u, hconcat⟩ := (List.eq_nil_or_concat tokens).resolve_left hne
    rw [List.concat_eq_append] at hconcat
    rw [Bool.or_eq_true, Bool.and_eq_true, Bool.and_eq_true] at hquotes
    rcases hquotes with ⟨hstart, hend⟩ | ⟨hstart, -⟩
    · have ht := (hfirst t ts hcons).1 ((startsWith_single '"' _).mp hstart)
      have hu := hlast us u hconcat ((endsWith_single '"' _).mp hend)
      have hwrapped : isWrapped tokens = true := by
        have hhead : tokens.head? = some t := by rw [hcons]; rfl
        have hlast? : tokens.getLast? = some u := by rw [hconcat]; exact List.getLast?_concat
        unfold isWrapped
        rw [hhead, hlast?]
        simp [ht, hu]
      rw [hwrapped] at h
      cases h
    · exact (hfirst t ts hcons).2 ((startsWith_single '\'' _).mp hstart)
  exact if_neg hnot

/-- The text between two quotes that are at the ends of joined tokens. -/
theorem joined_wrapped (h : isWrapped (t :: ts) = true) :
    ∃ tail, joined (t :: ts) = '"' :: ((escape t ++ tail) ++ ['"']) ∧ (ts = [] → tail = []) ∧
      (ts ≠ [] → ∃ more, tail = '"' :: ' ' :: more) := by
  obtain ⟨hfirst, hlast⟩ := Bool.and_eq_true_iff.mp h
  have ht : needsQuotes t = true := hfirst
  by_cases hts : ts = []
  · subst hts
    refine ⟨[], ?_, fun _ => rfl, fun hne => absurd rfl hne⟩
    rw [joined_singleton, quoteTokenIfNeeded_quoted ht, List.append_nil]
  · obtain ⟨us, u, hconcat⟩ := (List.eq_nil_or_concat ts).resolve_left hts
    rw [List.concat_eq_append] at hconcat
    subst hconcat
    have hu : needsQuotes u = true := by
      rw [← List.cons_append, List.getLast?_concat] at hlast
      exact hlast
    have hend : (joined (us ++ [u])).getLast? = some '"' := by
      rw [getLast?_joined, quoteTokenIfNeeded_quoted hu, ← List.cons_append]
      exact List.getLast?_concat
    obtain ⟨more, hmore⟩ := List.getLast?_eq_some_iff.mp hend
    refine ⟨'"' :: ' ' :: more, ?_, fun hnil => absurd hnil hts, fun _ => ⟨more, rfl⟩⟩
    rw [joined_cons t hts, quoteTokenIfNeeded_quoted ht, hmore]
    simp

/-! ### Sanitising again -/

/-- What joined tokens are sanitised to. -/
theorem sanitizeRuntimeCodexArgs_joined (hne : tokens ≠ []) (hplain : ∀ t ∈ tokens, ∀ c ∈ t, IsPlain c) :
    sanitizeRuntimeCodexArgs (some (joined tokens)) =
      joinTokens (effect (tokenizeArgs (jsTrim (stripWrappingQuotes (joined tokens))))) := by
  have hcharacters : ∀ c ∈ joined tokens, IsPlain c := by
    intro c hc
    rcases mem_joined hc with ⟨t, ht, hc⟩ | hc
    · exact hplain t ht c hc
    · have hall : ∀ c ∈ ['"', '\\', ' '], isDashLike c = false ∧ plainCharacter c = c := by decide
      exact hall c hc
  have hnormal := normalizeCodexArgsInput_plain hcharacters (jsTrim_joined tokens)
    (joined_ends hne).2.2
  unfold sanitizeRuntimeCodexArgs parseCodexArgsProfile
  rw [effectiveTokensOf_eq, hnormal]
  split
  next hnone =>
    split at hnone
    next hempty => rw [List.isEmpty_iff.mp hempty]; rfl
    next => cases hnone
  next original hsome =>
    split at hsome
    next => cases hsome
    next hfull => rw [if_neg hfull]; rfl

/-- Joined tokens tell which tokens were joined. -/
theorem joinTokens_eq_some_iff {X : List Text} (hne : tokens ≠ [])
    (h : ∀ t ∈ tokens, t ≠ []) (hX : ∀ t ∈ X, t ≠ []) :
    joinTokens X = some (joined tokens) ↔ X = tokens := by
  constructor
  · intro heq
    obtain ⟨-, hjoined⟩ := joinTokens_eq_some heq
    rw [← tokenizeArgs_joined hX, ← hjoined, tokenizeArgs_joined h]
  · rintro rfl
    exact joinTokens_eq hne

/-- **Which joined tokens are sanitised to themselves.** -/
theorem sanitize_joined_iff (hne : tokens ≠ []) (h : ∀ t ∈ tokens, t ≠ [] ∧ ∀ c ∈ t, IsPlain c) :
    sanitizeRuntimeCodexArgs (some (joined tokens)) = some (joined tokens) ↔
      effect tokens = tokens ∧
        (isWrapped tokens = true → ∃ t, tokens = [t] ∧ ∀ c ∈ t, isUnquoted c = true) := by
  have hnonempty : ∀ t ∈ tokens, t ≠ [] := fun t ht => (h t ht).1
  rw [sanitizeRuntimeCodexArgs_joined hne fun t ht => (h t ht).2,
    joinTokens_eq_some_iff hne hnonempty fun t ht => (mem_effect ht).1]
  cases hwrapped : isWrapped tokens with
  | false =>
    rw [stripWrappingQuotes_unwrapped hne hwrapped, jsTrim_joined, tokenizeArgs_joined hnonempty]
    simp
  | true =>
    obtain ⟨t, ts, rfl⟩ := List.exists_cons_of_ne_nil hne
    obtain ⟨tail, hjoined, hnil, hcons⟩ := joined_wrapped hwrapped
    rw [hjoined, stripWrappingQuotes_wrapped]
    constructor
    · intro heffect
      -- nothing is lost between the text and the effective tokens
      have hsize := joined_size hne
      have hquote : weight '"' = 0 := by decide
      rw [hjoined, textWeight, textWeight_append (escape t ++ tail)] at hsize
      simp only [textWeight, hquote] at hsize
      have hle := size_tokenizeFrom_le none [] (jsTrim (escape t ++ tail))
      have htrimmed := textWeight_jsTrim_le (escape t ++ tail)
      obtain ⟨hshrinks, hsame⟩ := size_effect_le (tokenizeArgs (jsTrim (escape t ++ tail)))
      rw [heffect] at hshrinks hsame
      unfold tokenizeArgs at hshrinks hsame
      simp only [textWeight] at hle
      have htokens := hsame (by omega)
      have htrim := jsTrim_eq_of_textWeight (t := escape t ++ tail) (by omega)
      rw [htrim] at htokens
      have hunquoted := unquoted_of_read htokens.symm htrim (by omega)
      have hts : ts = [] := by
        by_contra hts
        obtain ⟨more, hmore⟩ := hcons hts
        -- the first token goes on behind the quote
        rw [hmore, escape_of_unquoted hunquoted, tokenizeFrom_unquoted hunquoted, List.nil_append,
          tokenizeFrom_open (.inl rfl), tokenizeFrom_kept (by decide) (by decide)] at htokens
        obtain ⟨behind, tokens, hfirst⟩ := prefix_tokenizeFrom (some '"') (t ++ [' ']) more (by simp)
        have htoken := congrArg List.length (List.head_eq_of_cons_eq (htokens.trans hfirst))
        rw [List.length_append, List.length_append, List.length_singleton] at htoken
        omega
      refine ⟨?_, fun _ => ⟨t, by rw [hts], hunquoted⟩⟩
      rw [htrim] at heffect
      unfold tokenizeArgs at heffect
      rwa [← htokens] at heffect
    · rintro ⟨heffect, honly⟩
      obtain ⟨u, hu, hunquoted⟩ := honly rfl
      obtain ⟨rfl, rfl⟩ := List.cons_eq_cons.mp hu
      have htrim : jsTrim t = t := by
        refine trimBy_of_forall fun c hc => ?_
        have hc := hunquoted c hc
        simp only [isUnquoted, Bool.and_eq_true, Bool.not_eq_true'] at hc
        exact hc.1.1.1
      have hread : tokenizeArgs t = [t] := by
        have hread := tokenizeFrom_unquoted hunquoted [] []
        rw [List.append_nil, List.nil_append, tokenizeFrom_nil,
          if_neg (by simpa using hnonempty t List.mem_cons_self)] at hread
        exact hread
      rw [hnil rfl, List.append_nil, escape_of_unquoted hunquoted, htrim, hread, heffect]

end CodexMonitor.CodexArgs
