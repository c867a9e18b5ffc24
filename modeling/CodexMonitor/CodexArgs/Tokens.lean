import CodexMonitor.CodexArgs.Profiles
import CodexMonitor.Lib.CaseMapping
import CodexMonitor.Lib.Lines
import Mathlib.Tactic.Tauto

namespace CodexMonitor.CodexArgs

open Text

/-!
# Codex args — tokens that are quoted and read again

Tokens that were quoted and joined are found again by the tokenizer of the frontend, and by the
splitting of the backend.

* `tokenizeArgs_joined`, `parseCodexArgs_joined` — both readings of joined tokens.
* `joinTokens_eq` — nothing is trimmed from joined tokens.
* `normalizeCodexArgsInput_plain` — of a text of plain characters only wrapping quotes are taken.
-/

variable {c : Char} {t current rest : Text} {tokens : List Text}

/-! ### Characters -/

/-- What a bare character is not. -/
theorem isBareCharacter_facts (h : isBareCharacter c = true) :
    isJsWhitespace c = false ∧ isWhitespace c = false ∧ isDashLike c = false ∧
      plainCharacter c = c ∧ c ∉ ['"', '\'', '\\', '#', ' ', '\t', '\n'] := by
  have hlt : c.toNat < 128 := by
    unfold isBareCharacter at h
    rcases Bool.or_eq_true_iff.mp h with h | h
    · exact CaseMapping.ascii_of_isAlphanum h
    · have hmem : c ∈ "_./:@%+,=~-".toList := by simpa using h
      revert hmem
      have hall : ∀ d ∈ "_./:@%+,=~-".toList, d.toNat < 128 := by decide
      exact hall c
  have hall : ∀ c : Char, c.toNat < 128 → isBareCharacter c = true →
      isJsWhitespace c = false ∧ isWhitespace c = false ∧ isDashLike c = false ∧
        plainCharacter c = c ∧ c ∉ ['"', '\'', '\\', '#', ' ', '\t', '\n'] := by
    apply CaseMapping.ascii_of_forall
    decide
  exact hall c hlt h

/-- A token without quotes around it is written with bare characters. -/
theorem forall_bare (h : needsQuotes t = false) : t ≠ [] ∧ ∀ c ∈ t, isBareCharacter c = true := by
  simpa [needsQuotes] using h

/-! ### The tokenizer -/

theorem tokenizeFrom_nil (quote : Option Char) (current : Text) :
    tokenizeFrom quote current [] = if current.isEmpty then [] else [current] := by
  rw [tokenizeFrom.eq_def]

theorem tokenizeFrom_open (hc : c = '"' ∨ c = '\'') (current rest : Text) :
    tokenizeFrom none current (c :: rest) = tokenizeFrom (some c) current rest := by
  rw [tokenizeFrom.eq_def]
  simp only
  rw [if_pos hc]

theorem tokenizeFrom_blank (hc : isJsWhitespace c = true) (hopen : ¬ (c = '"' ∨ c = '\''))
    (current rest : Text) : tokenizeFrom none current (c :: rest) =
      if current.isEmpty then tokenizeFrom none [] rest
      else current :: tokenizeFrom none [] rest := by
  rw [tokenizeFrom.eq_def]
  simp only
  rw [if_neg hopen, if_pos hc]

theorem tokenizeFrom_char (hc : isJsWhitespace c = false) (hopen : ¬ (c = '"' ∨ c = '\''))
    (current rest : Text) :
    tokenizeFrom none current (c :: rest) = tokenizeFrom none (current ++ [c]) rest := by
  rw [tokenizeFrom.eq_def]
  simp only
  rw [if_neg hopen, hc, if_neg Bool.false_ne_true]

variable {q : Char}

theorem tokenizeFrom_escaped (hc : c = q ∨ c = '\\') (current rest : Text) :
    tokenizeFrom (some q) current ('\\' :: c :: rest) =
      tokenizeFrom (some q) (current ++ [c]) rest := by
  rw [tokenizeFrom.eq_def]
  simp only
  rw [if_pos trivial, if_pos hc]

theorem tokenizeFrom_backslash (hc : ¬ (c = q ∨ c = '\\')) (current rest : Text) :
    tokenizeFrom (some q) current ('\\' :: c :: rest) =
      tokenizeFrom (some q) (current ++ ['\\']) (c :: rest) := by
  rw [tokenizeFrom.eq_def]
  simp only
  rw [if_pos trivial, if_neg hc]

theorem tokenizeFrom_backslash_nil (current : Text) :
    tokenizeFrom (some q) current ['\\'] = [current ++ ['\\']] := by
  rw [tokenizeFrom.eq_def]
  simp only
  rw [if_pos trivial]

theorem tokenizeFrom_close (hq : q ≠ '\\') (current rest : Text) :
    tokenizeFrom (some q) current (q :: rest) = tokenizeFrom none current rest := by
  rw [tokenizeFrom.eq_def]
  simp only
  rw [if_neg hq, if_pos trivial]

theorem tokenizeFrom_kept (hc : c ≠ '\\') (hq : c ≠ q) (current rest : Text) :
    tokenizeFrom (some q) current (c :: rest) = tokenizeFrom (some q) (current ++ [c]) rest := by
  rw [tokenizeFrom.eq_def]
  simp only
  rw [if_neg hc, if_neg hq]

theorem escape_cons (c : Char) (t : Text) : escape (c :: t) = escapeCharacter c ++ escape t :=
  List.flatMap_cons

theorem tokenizeFrom_escape (t current rest : Text) :
    tokenizeFrom (some '"') current (escape t ++ rest) =
      tokenizeFrom (some '"') (current ++ t) rest := by
  induction t generalizing current with
  | nil =>
    rw [List.append_nil]
    rfl
  | cons c t ih =>
    rw [escape_cons, List.append_assoc, escapeCharacter]
    split
    next h =>
      -- both characters are read as one
      rw [List.cons_append, List.singleton_append, tokenizeFrom_escaped (by tauto), ih]
      simp
    next h =>
      rw [not_or] at h
      rw [List.singleton_append, tokenizeFrom_kept h.1 h.2, ih]
      simp

/-- Outside of quotes a character is read as it is, unless it is a blank or a quote. -/
theorem tokenizeFrom_plain
    (h : ∀ c ∈ t, isJsWhitespace c = false ∧ c ≠ '"' ∧ c ≠ '\'') (current rest : Text) :
    tokenizeFrom none current (t ++ rest) = tokenizeFrom none (current ++ t) rest := by
  induction t generalizing current with
  | nil => simp
  | cons c t ih =>
    obtain ⟨⟨hblank, hdouble, hsingle⟩, ht⟩ := List.forall_mem_cons.mp h
    rw [List.cons_append, tokenizeFrom_char hblank (by tauto), ih ht]
    simp

theorem tokenizeFrom_quoteTokenIfNeeded (t current rest : Text) :
    tokenizeFrom none current (quoteTokenIfNeeded t ++ rest) =
      tokenizeFrom none (current ++ t) rest := by
  unfold quoteTokenIfNeeded
  split
  next =>
    rw [List.append_assoc, List.cons_append, tokenizeFrom_open (.inl rfl), tokenizeFrom_escape,
      List.singleton_append, tokenizeFrom_close (by decide)]
  next h =>
    refine tokenizeFrom_plain (fun c hc => ?_) current rest
    obtain ⟨hblank, -, -, -, hmem⟩ :=
      isBareCharacter_facts ((forall_bare (Bool.not_eq_true _ ▸ h)).2 c hc)
    refine ⟨hblank, ?_, ?_⟩
    · rintro rfl
      exact hmem (by decide)
    · rintro rfl
      exact hmem (by decide)

/-- The tokens behind one another, each quoted if it needs to be. -/
def joined (tokens : List Text) : Text := joinWith " ".toList (tokens.map quoteTokenIfNeeded)

theorem joined_cons (t : Text) (hne : tokens ≠ []) :
    joined (t :: tokens) = quoteTokenIfNeeded t ++ ' ' :: joined tokens := by
  unfold joined
  rw [List.map_cons, joinWith_cons _ (by simpa using hne)]
  simp

theorem joined_singleton (t : Text) : joined [t] = quoteTokenIfNeeded t := rfl

/-- **Joined tokens are read again.** -/
theorem tokenizeArgs_joined (h : ∀ t ∈ tokens, t ≠ []) : tokenizeArgs (joined tokens) = tokens := by
  unfold tokenizeArgs
  induction tokens with
  | nil => rfl
  | cons t tokens ih =>
    obtain ⟨ht, htokens⟩ := List.forall_mem_cons.mp h
    by_cases hne : tokens = []
    · subst hne
      have hread := tokenizeFrom_quoteTokenIfNeeded t [] []
      rw [List.append_nil] at hread
      rw [joined_singleton, hread, tokenizeFrom_nil]
      simp [ht]
    · rw [joined_cons t hne, tokenizeFrom_quoteTokenIfNeeded,
        tokenizeFrom_blank (by decide) (by decide), List.nil_append, if_neg (by simpa using ht),
        ih htokens]

/-- Tokens are not empty, and made of the characters of the text. -/
theorem mem_tokenizeFrom (quote : Option Char) (current text : Text) :
    ∀ t ∈ tokenizeFrom quote current text, t ≠ [] ∧ ∀ c ∈ t, c ∈ current ∨ c ∈ text := by
  fun_induction tokenizeFrom quote current text with
  | case1 => simp
  | case2 quote current hne => simpa using hne
  | case3 quote current nextChar more h ih =>
    intro t ht
    obtain ⟨hne, hmem⟩ := ih t ht
    refine ⟨hne, fun c hc => ?_⟩
    have := hmem c hc
    simp at this ⊢
    tauto
  | case4 quote current nextChar more h ih =>
    intro t ht
    obtain ⟨hne, hmem⟩ := ih t ht
    refine ⟨hne, fun c hc => ?_⟩
    have := hmem c hc
    simp at this ⊢
    tauto
  | case5 => simp
  | case6 current quote rest hq ih =>
    intro t ht
    obtain ⟨hne, hmem⟩ := ih t ht
    exact ⟨hne, fun c hc => (hmem c hc).imp id (List.mem_cons_of_mem quote)⟩
  | case7 quote current c' rest hc hq ih =>
    intro t ht
    obtain ⟨hne, hmem⟩ := ih t ht
    refine ⟨hne, fun c hc => ?_⟩
    have := hmem c hc
    simp at this ⊢
    tauto
  | case8 current c' rest hopen ih =>
    intro t ht
    obtain ⟨hne, hmem⟩ := ih t ht
    exact ⟨hne, fun c hc => (hmem c hc).imp id (List.mem_cons_of_mem c')⟩
  | case9 current c' rest hopen hblank hnil ih =>
    intro t ht
    obtain ⟨hne, hmem⟩ := ih t ht
    refine ⟨hne, fun c hc => .inr (List.mem_cons_of_mem c' ?_)⟩
    exact (hmem c hc).resolve_left List.not_mem_nil
  | case10 current c' rest hopen hblank hne ih =>
    intro t ht
    rcases List.mem_cons.mp ht with rfl | ht
    · exact ⟨by simpa using hne, fun c hc => .inl hc⟩
    · obtain ⟨hne, hmem⟩ := ih t ht
      refine ⟨hne, fun c hc => .inr (List.mem_cons_of_mem c' ?_)⟩
      exact (hmem c hc).resolve_left List.not_mem_nil
  | case11 current c' rest hopen hblank ih =>
    intro t ht
    obtain ⟨hne, hmem⟩ := ih t ht
    refine ⟨hne, fun c hc => ?_⟩
    have := hmem c hc
    simp at this ⊢
    tauto

/-- What is being read begins the first token. -/
theorem prefix_tokenizeFrom (quote : Option Char) (current text : Text) (hne : current ≠ []) :
    ∃ more tokens, tokenizeFrom quote current text = (current ++ more) :: tokens := by
  have hlonger : ∀ {quote : Option Char} {current text : Text} {c : Char},
      (current ++ [c] ≠ [] → ∃ more tokens,
        tokenizeFrom quote (current ++ [c]) text = (current ++ [c] ++ more) :: tokens) →
      ∃ more tokens, tokenizeFrom quote (current ++ [c]) text = (current ++ more) :: tokens := by
    intro quote current text c ih
    obtain ⟨more, tokens, heq⟩ := ih (by simp)
    exact ⟨c :: more, tokens, by rw [heq, List.append_assoc, List.singleton_append]⟩
  fun_induction tokenizeFrom quote current text with
  | case1 quote current hnil => exact absurd (List.isEmpty_iff.mp hnil) hne
  | case2 quote current => exact ⟨[], [], by rw [List.append_nil]⟩
  | case3 quote current nextChar more h ih => exact hlonger ih
  | case4 quote current nextChar more h ih => exact hlonger ih
  | case5 quote current => exact ⟨['\\'], [], rfl⟩
  | case6 current quote rest hq ih => exact ih hne
  | case7 quote current c' rest hc hq ih => exact hlonger ih
  | case8 current c' rest hopen ih => exact ih hne
  | case9 current c' rest hopen hblank hnil ih => exact absurd (List.isEmpty_iff.mp hnil) hne
  | case10 current c' rest hopen hblank hnonempty ih =>
    exact ⟨[], tokenizeFrom none [] rest, by rw [List.append_nil]⟩
  | case11 current c' rest hopen hblank ih => exact hlonger ih

/-! ### The ends of joined tokens -/

/-- Both ends of a quoted token are bare characters or quotes. -/
theorem quoteTokenIfNeeded_ends (t : Text) :
    (∀ c ∈ (quoteTokenIfNeeded t).head?, isBareCharacter c = true ∨ c = '"') ∧
      (∀ c ∈ (quoteTokenIfNeeded t).getLast?, isBareCharacter c = true ∨ c = '"') ∧
      quoteTokenIfNeeded t ≠ [] := by
  unfold quoteTokenIfNeeded
  split
  next =>
    rw [List.getLast?_concat, List.cons_append, List.head?_cons]
    refine ⟨fun c hc => ?_, fun c hc => ?_, List.cons_ne_nil _ _⟩
    · exact .inr (Option.some.inj hc).symm
    · exact .inr (Option.some.inj hc).symm
  next h =>
    obtain ⟨hne, hbare⟩ := forall_bare (Bool.not_eq_true _ ▸ h)
    refine ⟨fun c hc => .inl (hbare c ?_), fun c hc => .inl (hbare c ?_), hne⟩
    · exact List.mem_of_mem_head? hc
    · exact List.mem_of_mem_getLast? hc

theorem joined_ends (hne : tokens ≠ []) :
    (∀ c ∈ (joined tokens).head?, isBareCharacter c = true ∨ c = '"') ∧
      (∀ c ∈ (joined tokens).getLast?, isBareCharacter c = true ∨ c = '"') ∧
      joined tokens ≠ [] := by
  induction tokens with
  | nil => exact absurd rfl hne
  | cons t tokens ih =>
    obtain ⟨hhead, hlast, hnonempty⟩ := quoteTokenIfNeeded_ends t
    by_cases htokens : tokens = []
    · subst htokens
      exact ⟨hhead, hlast, hnonempty⟩
    · obtain ⟨-, hlast', hnonempty'⟩ := ih htokens
      rw [joined_cons t htokens]
      refine ⟨fun c hc => hhead c ?_, fun c hc => hlast' c ?_, by simp⟩
      · rwa [List.head?_append_of_ne_nil _ hnonempty] at hc
      · rwa [List.getLast?_append_of_ne_nil _ (List.cons_ne_nil _ _),
          List.getLast?_cons_of_ne_nil hnonempty'] at hc

/-- Nothing is trimmed from joined tokens. -/
theorem trimBy_joined {p : Char → Bool} (hp : ∀ c, isBareCharacter c = true ∨ c = '"' → p c = false)
    (tokens : List Text) : trimBy p (joined tokens) = joined tokens := by
  by_cases hne : tokens = []
  · subst hne
    rfl
  · obtain ⟨hhead, hlast, -⟩ := joined_ends hne
    exact trimBy_eq_self (fun c hc => hp c (hhead c hc)) fun c hc => hp c (hlast c hc)

theorem jsTrim_joined (tokens : List Text) : jsTrim (joined tokens) = joined tokens := by
  refine trimBy_joined (fun c hc => ?_) tokens
  rcases hc with hc | rfl
  · exact (isBareCharacter_facts hc).1
  · decide

theorem trim_joined (tokens : List Text) : trim (joined tokens) = joined tokens := by
  refine trimBy_joined (fun c hc => ?_) tokens
  rcases hc with hc | rfl
  · exact (isBareCharacter_facts hc).2.1
  · decide

theorem joinTokens_eq (hne : tokens ≠ []) : joinTokens tokens = some (joined tokens) := by
  have hnonempty := (joined_ends hne).2.2
  have htrim := jsTrim_joined tokens
  unfold joined at htrim hnonempty
  unfold joinTokens
  rw [if_neg (by simpa using hne)]
  simp only [htrim]
  rw [if_neg (by simpa using hnonempty)]
  rfl

/-- Of which tokens a text is joined. -/
theorem joinTokens_eq_some {e : Text} (h : joinTokens tokens = some e) :
    tokens ≠ [] ∧ e = joined tokens := by
  have hne : tokens ≠ [] := by
    rintro rfl
    cases h
  rw [joinTokens_eq hne] at h
  exact ⟨hne, (Option.some.inj h).symm⟩

/-! ### Normal texts -/

/-- A character that is not typographic. -/
def IsPlain (c : Char) : Prop := isDashLike c = false ∧ plainCharacter c = c

theorem plainCharacter_idem (c : Char) : plainCharacter (plainCharacter c) = plainCharacter c := by
  by_cases hblank : isNbsp c = true
  · have heq : plainCharacter c = ' ' := if_pos hblank
    rw [heq]
    decide
  · by_cases hdouble : isSmartDoubleQuote c = true
    · have heq : plainCharacter c = '"' := (if_neg hblank).trans (if_pos hdouble)
      rw [heq]
      decide
    · by_cases hsingle : isSmartSingleQuote c = true
      · have heq : plainCharacter c = '\'' :=
          (if_neg hblank).trans ((if_neg hdouble).trans (if_pos hsingle))
        rw [heq]
        decide
      · have heq : plainCharacter c = c :=
          (if_neg hblank).trans ((if_neg hdouble).trans (if_neg hsingle))
        rw [heq, heq]

theorem mem_dashesFor {token : Text} (h : c ∈ dashesFor token) : c = '-' := by
  unfold dashesFor at h
  simp only at h
  split at h
  · simpa using h
  · simpa using h

theorem mem_expandDashes {boundary : Bool} (h : c ∈ expandDashes boundary t) : c ∈ t ∨ c = '-' := by
  induction t generalizing boundary with
  | nil => exact .inl h
  | cons d t ih =>
    unfold expandDashes at h
    split at h
    · rcases List.mem_append.mp h with h | h
      · exact .inr (mem_dashesFor h)
      · exact (ih h).imp_left (List.mem_cons_of_mem d)
    · rcases List.mem_cons.mp h with rfl | h
      · exact .inl List.mem_cons_self
      · exact (ih h).imp_left (List.mem_cons_of_mem d)

theorem expandDashes_of_plain {boundary : Bool} (h : ∀ c ∈ t, isDashLike c = false) :
    expandDashes boundary t = t := by
  induction t generalizing boundary with
  | nil => rfl
  | cons d t ih =>
    obtain ⟨hd, ht⟩ := List.forall_mem_cons.mp h
    unfold expandDashes
    rw [if_neg (by simp [hd]), ih ht]

theorem mem_stripWrappingQuotes (h : c ∈ stripWrappingQuotes t) : c ∈ t := by
  unfold stripWrappingQuotes at h
  split at h
  · exact List.mem_of_mem_drop ((List.dropLast_sublist _).mem h)
  · exact h

/-- **A normal text has plain characters.** -/
theorem isPlain_of_normalized {args : Option Text} (h : normalizeCodexArgsInput args = some t) :
    ∀ c ∈ t, IsPlain c := by
  unfold normalizeCodexArgsInput at h
  simp only at h
  split at h
  next => cases h
  next =>
    split at h
    next => cases h
    next =>
      obtain rfl := Option.some.inj h
      intro c hc
      obtain ⟨d, hd, rfl⟩ := List.mem_map.mp (trimBy_subset _ _ hc)
      have hplain : plainCharacter d = d := by
        rcases mem_expandDashes hd with hd | rfl
        · have hd := trimBy_subset _ _ (mem_stripWrappingQuotes (trimBy_subset _ _ hd))
          obtain ⟨c', -, rfl⟩ := List.mem_map.mp hd
          exact plainCharacter_idem c'
        · decide
      unfold plainDash
      split
      next => exact ⟨by decide, by decide⟩
      next hdash => exact ⟨Bool.not_eq_true _ ▸ hdash, hplain⟩

/-- **Of a trimmed text of plain characters** only the quotes around it are taken. -/
theorem normalizeCodexArgsInput_plain (h : ∀ c ∈ t, IsPlain c) (htrim : jsTrim t = t) (hne : t ≠ []) :
    normalizeCodexArgsInput (some t) =
      if (jsTrim (stripWrappingQuotes t)).isEmpty then none
      else some (jsTrim (stripWrappingQuotes t)) := by
  have hcharacters : t.map plainCharacter = t :=
    (List.map_congr_left fun c hc => (h c hc).2).trans (List.map_id t)
  have hinner : ∀ c ∈ jsTrim (stripWrappingQuotes t), isDashLike c = false :=
    fun c hc => (h c (mem_stripWrappingQuotes (trimBy_subset _ _ hc))).1
  have hdashes : (jsTrim (stripWrappingQuotes t)).map plainDash = jsTrim (stripWrappingQuotes t) := by
    refine (List.map_congr_left fun c hc => ?_).trans (List.map_id _)
    unfold plainDash
    rw [hinner c hc]
    rfl
  have hagain : jsTrim (jsTrim (stripWrappingQuotes t)) = jsTrim (stripWrappingQuotes t) :=
    trimBy_trimBy _ _
  unfold normalizeCodexArgsInput
  simp only [Option.getD_some, htrim, hcharacters, expandDashes_of_plain hinner, hdashes, hagain]
  rw [if_neg (by simpa using hne)]

/-- Joining adds quotes, backslashes and blanks. -/
theorem mem_joined (h : c ∈ joined tokens) :
    (∃ t ∈ tokens, c ∈ t) ∨ c ∈ ['"', '\\', ' '] := by
  have hquoted : ∀ t : Text, c ∈ quoteTokenIfNeeded t → c ∈ t ∨ c ∈ ['"', '\\', ' '] := by
    intro t hc
    unfold quoteTokenIfNeeded at hc
    split at hc
    next =>
      simp only [List.cons_append, List.mem_cons, List.mem_append, List.not_mem_nil, or_false] at hc
      rcases hc with rfl | hc | rfl
      · simp
      · obtain ⟨d, hd, hc⟩ := List.mem_flatMap.mp hc
        unfold escapeCharacter at hc
        split at hc
        · simp only [List.mem_cons, List.not_mem_nil, or_false] at hc
          rcases hc with rfl | rfl
          · simp
          · exact .inl hd
        · rw [List.mem_singleton] at hc
          exact .inl (hc ▸ hd)
      · simp
    next => exact .inl hc
  induction tokens with
  | nil => cases h
  | cons t tokens ih =>
    by_cases hne : tokens = []
    · subst hne
      exact (hquoted t h).imp_left fun hc => ⟨t, List.mem_cons_self, hc⟩
    · rw [joined_cons t hne, List.mem_append, List.mem_cons] at h
      rcases h with h | rfl | h
      · exact (hquoted t h).imp_left fun hc => ⟨t, List.mem_cons_self, hc⟩
      · simp
      · refine (ih h).imp_left ?_
        rintro ⟨u, hu, hc⟩
        exact ⟨u, List.mem_cons_of_mem t hu, hc⟩

/-! ### The shell -/

open ShellReader

theorem read_escape (t : Text) (words : List Text) (word : Text) :
    (escape t).foldl step ⟨words, some word, .double⟩ = ⟨words, some (word ++ t), .double⟩ := by
  induction t generalizing word with
  | nil => simp [escape]
  | cons c t ih =>
    rw [escape_cons, List.foldl_append, escapeCharacter]
    split
    next h =>
      have hread : ['\\', c].foldl step ⟨words, some word, .double⟩ =
          ⟨words, some (word ++ [c]), .double⟩ := by
        rcases h with rfl | rfl <;> rfl
      rw [hread, ih]
      simp
    next h =>
      rw [not_or] at h
      have hread : [c].foldl step ⟨words, some word, .double⟩ =
          ⟨words, some (word ++ [c]), .double⟩ := by
        simp [step, h.1, h.2, extend]
      rw [hread, ih]
      simp

/-- Bare characters go on with a word, or begin one. -/
theorem read_bare (h : ∀ c ∈ t, isBareCharacter c = true) (words : List Text) (word : Option Text)
    (hne : t ≠ []) :
    t.foldl step ⟨words, word, .bare⟩ = ⟨words, some (word.getD [] ++ t), .bare⟩ := by
  induction t generalizing word with
  | nil => exact absurd rfl hne
  | cons c t ih =>
    obtain ⟨hc, ht⟩ := List.forall_mem_cons.mp h
    obtain ⟨-, -, -, -, hmem⟩ := isBareCharacter_facts hc
    have hread : step ⟨words, word, .bare⟩ c = ⟨words, some (word.getD [] ++ [c]), .bare⟩ := by
      simp only [List.mem_cons, List.not_mem_nil, or_false, not_or] at hmem
      simp [step, isSeparator, extend, hmem]
    rw [List.foldl_cons, hread]
    by_cases hnil : t = []
    · subst hnil
      rfl
    · rw [ih ht _ hnil]
      simp

theorem read_quoteTokenIfNeeded (t : Text) (words : List Text) :
    (quoteTokenIfNeeded t).foldl step ⟨words, none, .bare⟩ = ⟨words, some t, .bare⟩ := by
  unfold quoteTokenIfNeeded
  split
  next =>
    have hopen : step ⟨words, none, .bare⟩ '"' = ⟨words, some [], .double⟩ := rfl
    rw [List.cons_append, List.foldl_cons, hopen, List.foldl_append, read_escape]
    rfl
  next h =>
    obtain ⟨hne, hbare⟩ := forall_bare (Bool.not_eq_true _ ▸ h)
    exact read_bare hbare words none hne

theorem read_joined (tokens words : List Text) (hne : tokens ≠ []) :
    (((joined tokens).foldl step ⟨words, none, .bare⟩).finish) = some (words ++ tokens) := by
  induction tokens generalizing words with
  | nil => exact absurd rfl hne
  | cons t tokens ih =>
    by_cases htokens : tokens = []
    · subst htokens
      rw [joined_singleton, read_quoteTokenIfNeeded]
      rfl
    · have hend : step ⟨words, some t, .bare⟩ ' ' = ⟨words ++ [t], none, .bare⟩ := rfl
      rw [joined_cons t htokens, List.foldl_append, List.foldl_cons, read_quoteTokenIfNeeded, hend,
        ih _ htokens]
      simp

/-- **The shell finds the tokens**, of which none is empty. -/
theorem parseCodexArgs_joined (hne : tokens ≠ []) (h : ∀ t ∈ tokens, t ≠ []) :
    parseCodexArgs (some (joined tokens)) = .ok tokens := by
  have hnonempty := (joined_ends hne).2.2
  have hwords : shellWords (joined tokens) = some tokens := by
    have hread := read_joined tokens [] hne
    rwa [List.nil_append] at hread
  have hfilter : tokens.filter (fun arg => !arg.isEmpty) = tokens :=
    List.filter_eq_self.mpr fun t ht => by simpa using h t ht
  unfold parseCodexArgs
  simp [Option.filter, trim_joined, hnonempty, hwords, hfilter]

end CodexMonitor.CodexArgs
