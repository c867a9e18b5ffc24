import CodexMonitor.Lib.CaseMapping
import CodexMonitor.Lib.Runs

namespace CodexMonitor.Shared

open Text

/-!
# Shared — names of worktrees

`codex_aux_core.rs`: the name of a worktree is made from what a model proposes.  It is cleaned,
and brought under one of ten prefixes.  The lower case beyond ASCII is a parameter.

* `sanitizeRunWorktreeName` — the code.
* `core` — what a name is made from, and `cleaned_eq`, how.
* `branchName_slash`, `branchName_dash`, `branchName_none` — where the prefix comes from.
* `nameFacts` — what every name has that is made from some letter or digit.
-/

/-! ### The name of the worktree -/

/-- What becomes a dash. -/
def isDashLike (c : Char) : Bool := c = '-' || isWhitespace c || c = '_'

/-- The loop over the characters; the flag is `last_dash`. -/
def cleanFrom (lastDash : Bool) : Text → Text
  | [] => []
  | c :: rest =>
    if c.isAlphanum || c = '/' then c :: cleanFrom false rest
    else if isDashLike c then
      if lastDash then cleanFrom true rest else '-' :: cleanFrom true rest
    else cleanFrom lastDash rest

def isSeparator (c : Char) : Bool := c = '-' || c = '/'

def allowedPrefixes : List Text :=
  ["feat/", "fix/", "chore/", "test/", "docs/", "refactor/", "perf/", "build/", "ci/",
    "style/"].map String.toList

/-- `prefix.replace('/', "-")` -/
def dashPrefix (allowed : Text) : Text := allowed.map fun c => if c = '/' then '-' else c

/-- `text.replacen(needle, new, 1)` -/
def replaceFirst (needle new : Text) : Text → Text
  | [] => if needle.isEmpty then new else []
  | c :: rest =>
    match stripStart (c :: rest) needle with
    | some back => new ++ back
    | none => c :: replaceFirst needle new rest

def sanitizeRunWorktreeName (m : CaseMapping) (value : Text) : Text :=
  let trimmed := m.toLowerCase (trim value)
  let cleaned := trimEndBy isSeparator (cleanFrom false trimmed)
  if allowedPrefixes.any fun allowed => startsWith cleaned allowed then cleaned
  else
    match allowedPrefixes.find? fun allowed => startsWith cleaned (dashPrefix allowed) with
    | some allowed => replaceFirst (dashPrefix allowed) allowed cleaned
    | none => "feat/".toList ++ trimStartBy (fun c => c = '/') cleaned

/-! ### What a name is made from -/

/-- A lower-case letter, a digit, a slash or a dash. -/
def isNameChar (c : Char) : Bool := c.isLower || c.isDigit || isSeparator c

/-- The characters that count. -/
def counts (c : Char) : Bool := c.isAlphanum || c = '/' || isDashLike c

/-- What a name is made from: the letters, digits, slashes and dashes of a value, up to the last
    letter or digit. -/
def core (m : CaseMapping) (value : Text) : Text :=
  trimEndBy (fun c => !c.isAlphanum) ((m.toLowerCase (trim value)).filter counts)

/-- No prefix stands in front with dashes before its slash. -/
def DashedApart (core : Text) : Prop :=
  core.takeWhile Char.isAlphanum ++ ['/'] ∈ allowedPrefixes →
    ∀ c rest, core.dropWhile Char.isAlphanum = c :: rest → isDashLike c = true →
      (rest.dropWhile isDashLike).head? ≠ some '/'

/-! ### Characters -/

variable {m : CaseMapping} {b : Bool} {c d : Char} {t u word value : Text}

/-- Letters and digits are neither slashes nor dashes. -/
theorem isAlphanum_facts (h : c.isAlphanum = true) :
    isDashLike c = false ∧ isSeparator c = false ∧ isWhitespace c = false ∧
      (asciiLower c = c → isNameChar c = true) := by
  have hall : ∀ c : Char, c.toNat < 128 → c.isAlphanum = true →
      isDashLike c = false ∧ isSeparator c = false ∧ isWhitespace c = false ∧
        (asciiLower c = c → isNameChar c = true) := by
    apply CaseMapping.ascii_of_forall
    decide
  exact hall c (CaseMapping.ascii_of_isAlphanum h) h

theorem isSeparator_iff : isSeparator c = true ↔ c = '-' ∨ c = '/' := by
  unfold isSeparator
  rw [Bool.or_eq_true, decide_eq_true_eq, decide_eq_true_eq]

theorem counts_iff : counts c = true ↔ c.isAlphanum = true ∨ c = '/' ∨ isDashLike c = true := by
  unfold counts
  rw [Bool.or_eq_true, Bool.or_eq_true, decide_eq_true_eq, or_assoc]

theorem ne_slash_of_isAlphanum (h : c.isAlphanum = true) : c ≠ '/' := by
  rintro rfl
  exact absurd h (by decide)

theorem ne_slash_of_isDashLike (h : isDashLike c = true) : c ≠ '/' := by
  rintro rfl
  exact absurd h (by decide)

theorem not_isAlphanum_of_isDashLike (h : isDashLike c = true) : c.isAlphanum = false := by
  by_contra hc
  rw [(isAlphanum_facts (Bool.not_eq_false _ ▸ hc)).1] at h
  cases h

/-! ### The loop -/

theorem cleanFrom_kept (h : c.isAlphanum = true ∨ c = '/') :
    cleanFrom b (c :: t) = c :: cleanFrom false t := by
  rw [cleanFrom, if_pos]
  rw [Bool.or_eq_true, decide_eq_true_eq]
  exact h

theorem cleanFrom_dash (h : isDashLike c = true) :
    cleanFrom b (c :: t) = if b then cleanFrom true t else '-' :: cleanFrom true t := by
  have hnot : ¬ (c.isAlphanum || c = '/') = true := by
    rw [Bool.or_eq_true, decide_eq_true_eq, not_isAlphanum_of_isDashLike h]
    exact not_or.mpr ⟨Bool.false_ne_true, ne_slash_of_isDashLike h⟩
  rw [cleanFrom, if_neg hnot, if_pos h]

theorem cleanFrom_other (h : counts c = false) : cleanFrom b (c :: t) = cleanFrom b t := by
  have hnot := Bool.eq_false_iff.mp h
  rw [Ne, counts_iff] at hnot
  rw [cleanFrom, if_neg, if_neg fun hdash => hnot (.inr (.inr hdash))]
  rw [Bool.or_eq_true, decide_eq_true_eq]
  exact fun hkept => hnot (hkept.imp_right .inl)

/-- Only the characters that count matter. -/
theorem cleanFrom_filter : cleanFrom b (t.filter counts) = cleanFrom b t := by
  induction t generalizing b with
  | nil => rfl
  | cons c t ih =>
    by_cases hc : counts c = true
    · rw [List.filter_cons_of_pos hc]
      rcases counts_iff.mp hc with h | h | h
      · rw [cleanFrom_kept (.inl h), cleanFrom_kept (.inl h), ih]
      · rw [cleanFrom_kept (.inr h), cleanFrom_kept (.inr h), ih]
      · rw [cleanFrom_dash h, cleanFrom_dash h, ih]
    · rw [List.filter_cons_of_neg hc, cleanFrom_other (Bool.not_eq_true _ ▸ hc), ih]

/-- The loop goes on behind a first part with a flag that depends on it. -/
theorem cleanFrom_append (b : Bool) (t u : Text) :
    ∃ b', cleanFrom b (t ++ u) = cleanFrom b t ++ cleanFrom b' u := by
  induction t generalizing b with
  | nil => exact ⟨b, rfl⟩
  | cons c t ih =>
    rw [List.cons_append]
    by_cases hc : counts c = true
    · rcases counts_iff.mp hc with h | h | h
      · obtain ⟨b', hb'⟩ := ih false
        exact ⟨b', by rw [cleanFrom_kept (.inl h), cleanFrom_kept (.inl h), hb']; rfl⟩
      · obtain ⟨b', hb'⟩ := ih false
        exact ⟨b', by rw [cleanFrom_kept (.inr h), cleanFrom_kept (.inr h), hb']; rfl⟩
      · obtain ⟨b', hb'⟩ := ih true
        refine ⟨b', ?_⟩
        rw [cleanFrom_dash h, cleanFrom_dash h, hb']
        split <;> rfl
    · obtain ⟨b', hb'⟩ := ih b
      have hother := Bool.not_eq_true _ ▸ hc
      exact ⟨b', by rw [cleanFrom_other hother, cleanFrom_other hother, hb']⟩

theorem cleanFrom_word (h : ∀ c ∈ word, c.isAlphanum = true) :
    cleanFrom false (word ++ t) = word ++ cleanFrom false t := by
  induction word with
  | nil => rfl
  | cons c word ih =>
    rw [List.cons_append, cleanFrom_kept (.inl (h c List.mem_cons_self)),
      ih fun d hd => h d (List.mem_cons_of_mem _ hd), List.cons_append]

theorem mem_cleanFrom (h : c ∈ cleanFrom b t) :
    c = '-' ∨ (c ∈ t ∧ (c.isAlphanum = true ∨ c = '/')) := by
  induction t generalizing b with
  | nil => exact absurd h List.not_mem_nil
  | cons d t ih =>
    have hrest : ∀ {b : Bool}, c ∈ cleanFrom b t →
        c = '-' ∨ (c ∈ d :: t ∧ (c.isAlphanum = true ∨ c = '/')) :=
      fun hmem => (ih hmem).imp_right fun hc => ⟨List.mem_cons_of_mem _ hc.1, hc.2⟩
    by_cases hd : counts d = true
    · have hkept : (d.isAlphanum = true ∨ d = '/') →
          c = '-' ∨ (c ∈ d :: t ∧ (c.isAlphanum = true ∨ c = '/')) := by
        intro hk
        rw [cleanFrom_kept hk] at h
        rcases List.mem_cons.mp h with rfl | hmem
        · exact .inr ⟨List.mem_cons_self, hk⟩
        · exact hrest hmem
      rcases counts_iff.mp hd with hk | hk | hk
      · exact hkept (.inl hk)
      · exact hkept (.inr hk)
      · rw [cleanFrom_dash hk] at h
        split at h
        · exact hrest h
        · exact (List.mem_cons.mp h).elim .inl hrest
    · rw [cleanFrom_other (Bool.not_eq_true _ ▸ hd)] at h
      exact hrest h

/-- **No two dashes in a row**; the flag keeps a dash away from the front. -/
theorem cleanFrom_dashes (t : Text) :
    NoRun '-' (cleanFrom false t) ∧
      NoRun '-' (cleanFrom true t) ∧ (cleanFrom true t).head? ≠ some '-' := by
  induction t with
  | nil => exact ⟨noRun_nil, noRun_nil, nofun⟩
  | cons c t ih =>
    by_cases hc : counts c = true
    · have hkept : (c.isAlphanum = true ∨ c = '/') → _ := fun hk => by
        have hne : c ≠ '-' := by
          rintro rfl
          exact absurd hk (by decide)
        exact (⟨(noRun_cons_of_ne hne).mpr ih.1, fun heq => hne (Option.some.inj heq)⟩ :
          NoRun '-' (c :: cleanFrom false t) ∧ (c :: cleanFrom false t).head? ≠ some '-')
      rcases counts_iff.mp hc with hk | hk | hk
      · rw [cleanFrom_kept (.inl hk), cleanFrom_kept (.inl hk)]
        exact ⟨(hkept (.inl hk)).1, hkept (.inl hk)⟩
      · rw [cleanFrom_kept (.inr hk), cleanFrom_kept (.inr hk)]
        exact ⟨(hkept (.inr hk)).1, hkept (.inr hk)⟩
      · rw [cleanFrom_dash hk, cleanFrom_dash hk, if_neg Bool.false_ne_true, if_pos rfl]
        exact ⟨noRun_cons.mpr ⟨fun h => ih.2.2 h.2, ih.2.1⟩, ih.2⟩
    · rw [cleanFrom_other (Bool.not_eq_true _ ▸ hc), cleanFrom_other (Bool.not_eq_true _ ▸ hc)]
      exact ih

/-- **Slashes in a row** stay, and no new ones come up. -/
theorem cleanFrom_slashes (h : ∀ c ∈ t, counts c = true) :
    (∀ b, NoRun '/' (cleanFrom b t) ↔ NoRun '/' t) ∧
      ((cleanFrom false t).head? = some '/' ↔ t.head? = some '/') := by
  induction t with
  | nil => exact ⟨fun _ => Iff.rfl, Iff.rfl⟩
  | cons c t ih =>
    obtain ⟨ihruns, ihhead⟩ := ih fun d hd => h d (List.mem_cons_of_mem _ hd)
    have hkept : (c.isAlphanum = true ∨ c = '/') →
        (∀ b, NoRun '/' (cleanFrom b (c :: t)) ↔ NoRun '/' (c :: t)) ∧
          ((cleanFrom false (c :: t)).head? = some '/' ↔ (c :: t).head? = some '/') := by
      intro hk
      refine ⟨fun b => ?_, ?_⟩
      · rw [cleanFrom_kept hk, noRun_cons, noRun_cons, ihhead, ihruns]
      · rw [cleanFrom_kept hk]
        rfl
    rcases counts_iff.mp (h c List.mem_cons_self) with hk | hk | hk
    · exact hkept (.inl hk)
    · exact hkept (.inr hk)
    · have hne := ne_slash_of_isDashLike hk
      refine ⟨fun b => ?_, ?_⟩
      · rw [cleanFrom_dash hk, noRun_cons_of_ne hne]
        split
        · exact ihruns true
        · rw [noRun_cons_of_ne (by decide)]
          exact ihruns true
      · rw [cleanFrom_dash hk, if_neg Bool.false_ne_true]
        exact iff_of_false (by simp) fun heq => hne (Option.some.inj heq)

/-- The slashes in front are those of the cleaned text. -/
theorem trimStart_cleanFrom (h : ∀ c ∈ t, counts c = true) :
    trimStartBy (fun c => c = '/') (cleanFrom false t) =
      cleanFrom false (trimStartBy (fun c => c = '/') t) := by
  unfold trimStartBy
  induction t with
  | nil => rfl
  | cons c t ih =>
    by_cases hc : c = '/'
    · subst hc
      rw [cleanFrom_kept (.inr rfl), List.dropWhile_cons_of_pos (by decide),
        List.dropWhile_cons_of_pos (by decide)]
      exact ih fun d hd => h d (List.mem_cons_of_mem _ hd)
    · rw [List.dropWhile_cons_of_neg (l := t) (by simpa using hc)]
      rcases counts_iff.mp (h c List.mem_cons_self) with hk | hk | hk
      · rw [cleanFrom_kept (.inl hk), List.dropWhile_cons_of_neg (by simpa using hc)]
      · exact absurd hk hc
      · rw [cleanFrom_dash hk, if_neg Bool.false_ne_true,
          List.dropWhile_cons_of_neg (by decide)]

/-- What follows the dashes in front. -/
theorem head?_cleanFrom_true (h : ∀ c ∈ t, counts c = true) :
    (cleanFrom true t).head? = some '/' ↔ (t.dropWhile isDashLike).head? = some '/' := by
  induction t with
  | nil => rfl
  | cons c t ih =>
    have hkept : (c.isAlphanum = true ∨ c = '/') → isDashLike c = false →
        ((cleanFrom true (c :: t)).head? = some '/' ↔
          ((c :: t).dropWhile isDashLike).head? = some '/') := by
      intro hk hdash
      rw [cleanFrom_kept hk,
        List.dropWhile_cons_of_neg (by rw [hdash]; exact Bool.false_ne_true)]
      rfl
    rcases counts_iff.mp (h c List.mem_cons_self) with hk | hk | hk
    · exact hkept (.inl hk) (isAlphanum_facts hk).1
    · exact hkept (.inr hk) (by rw [hk]; decide)
    · rw [cleanFrom_dash hk, if_pos rfl, List.dropWhile_cons_of_pos hk]
      exact ih fun d hd => h d (List.mem_cons_of_mem _ hd)

/-! ### The cleaned text -/

theorem counts_of_mem_core (h : c ∈ core m value) : counts c = true :=
  (List.mem_filter.mp ((List.rdropWhile_prefix _ _).subset h)).2

/-- It ends with a letter or a digit. -/
theorem getLast?_core (h : core m value ≠ []) :
    ∃ c, (core m value).getLast? = some c ∧ c.isAlphanum = true := by
  have hlast := List.rdropWhile_last_not (fun c : Char => !c.isAlphanum)
    ((m.toLowerCase (trim value)).filter counts) h
  rw [Bool.not_eq_true, Bool.not_eq_false'] at hlast
  exact ⟨_, List.getLast?_eq_some_getLast h, hlast⟩

theorem getLast?_cleanFrom (hlast : t.getLast? = some c) (hc : c.isAlphanum = true) :
    (cleanFrom b t).getLast? = some c := by
  obtain ⟨init, rfl⟩ := List.getLast?_eq_some_iff.mp hlast
  obtain ⟨b', hb'⟩ := cleanFrom_append b init [c]
  rw [hb', cleanFrom_kept (.inl hc)]
  exact List.getLast?_concat

/-- **The cleaned text**, without the slashes and dashes at its end. -/
theorem cleaned_eq :
    trimEndBy isSeparator (cleanFrom false (m.toLowerCase (trim value))) =
      cleanFrom false (core m value) := by
  rw [← cleanFrom_filter]
  obtain ⟨back, hback⟩ := List.rdropWhile_prefix (fun c : Char => !c.isAlphanum)
    (l := (m.toLowerCase (trim value)).filter counts)
  have hsplit : core m value ++ back = (m.toLowerCase (trim value)).filter counts := hback
  -- nothing behind the core is a letter or a digit
  have hnone : ∀ c ∈ back, c.isAlphanum = false := by
    intro c hc
    have htail : back = ((m.toLowerCase (trim value)).filter counts).rtakeWhile
        fun c => !c.isAlphanum := by
      refine List.append_cancel_left (?_ : core m value ++ back = core m value ++ _)
      rw [hsplit]
      exact List.rdropWhile_append_rtakeWhile.symm
    rw [htail] at hc
    have hmem := List.mem_rtakeWhile_imp hc
    rwa [Bool.not_eq_true'] at hmem
  have hseparators : ∀ b, ∀ c ∈ cleanFrom b back, isSeparator c = true := by
    intro b c hc
    rw [isSeparator_iff]
    refine (mem_cleanFrom hc).imp_right fun h => h.2.resolve_left ?_
    rw [hnone c h.1]
    exact Bool.false_ne_true
  obtain ⟨b', hb'⟩ := cleanFrom_append false (core m value) back
  rw [← hsplit, hb']
  unfold trimEndBy List.rdropWhile
  rw [List.reverse_append, List.dropWhile_append_of_pos fun c hc =>
    hseparators b' c (List.mem_reverse.mp hc)]
  by_cases hcore : core m value = []
  · rw [hcore]
    rfl
  · obtain ⟨c, hlast, hc⟩ := getLast?_core hcore
    obtain ⟨init, hinit⟩ := List.getLast?_eq_some_iff.mp
      (getLast?_cleanFrom (b := false) hlast hc)
    have hnot : ¬ isSeparator c = true := by
      rw [(isAlphanum_facts hc).2.1]
      exact Bool.false_ne_true
    rw [hinit, List.reverse_concat, List.dropWhile_cons_of_neg hnot, ← List.reverse_concat,
      List.reverse_reverse]

/-! ### The prefixes -/

/-- Each prefix is a word and a slash. -/
theorem allowed_facts {allowed : Text} (h : allowed ∈ allowedPrefixes) :
    allowed = allowed.dropLast ++ ['/'] ∧ dashPrefix allowed = allowed.dropLast ++ ['-'] ∧
      ∀ c ∈ allowed.dropLast, c.isAlphanum = true ∧ isNameChar c = true := by
  have hall : ∀ allowed ∈ allowedPrefixes,
      allowed = allowed.dropLast ++ ['/'] ∧ dashPrefix allowed = allowed.dropLast ++ ['-'] ∧
        ∀ c ∈ allowed.dropLast, c.isAlphanum = true ∧ isNameChar c = true := by
    decide +kernel
  exact hall allowed h

theorem startsWith_iff_begins : startsWith t u = true ↔ u <+: t := List.isPrefixOf_iff_prefix

theorem replaceFirst_append (needle new back : Text) :
    replaceFirst needle new (needle ++ back) = new ++ back := by
  cases hall : needle ++ back with
  | nil =>
    obtain ⟨rfl, rfl⟩ := List.append_eq_nil_iff.mp hall
    rw [replaceFirst, List.append_nil]
    rfl
  | cons c rest => rw [replaceFirst, ← hall, stripStart_append]

/-- A text of characters that count, split behind its first word. -/
structure Split (t word after : Text) : Prop where
  eq : t = word ++ after
  word : ∀ c ∈ word, c.isAlphanum = true
  after : ∀ c, after.head? = some c → c = '/' ∨ isDashLike c = true

theorem split_takeWhile (h : ∀ c ∈ t, counts c = true) :
    Split t (t.takeWhile Char.isAlphanum) (t.dropWhile Char.isAlphanum) := by
  refine ⟨List.takeWhile_append_dropWhile.symm, fun c hc => List.mem_takeWhile_imp hc, ?_⟩
  intro c hc
  have hmem : c ∈ t :=
    (List.dropWhile_suffix _).subset (List.mem_of_head? hc)
  have hnot := List.head?_dropWhile_not Char.isAlphanum t
  rw [hc] at hnot
  refine (counts_iff.mp (h c hmem)).resolve_left fun halnum => ?_
  exact absurd halnum (by simpa using hnot)

variable {after : Text}

/-- **Which prefix is found**: that of the first word, if the given character follows it. -/
theorem prefix_cleanFrom_iff (h : Split t word after) {front : Text} {sep : Char}
    (hfront : ∀ c ∈ front, c.isAlphanum = true) (hsep : sep.isAlphanum = false) :
    front ++ [sep] <+: cleanFrom false t ↔
      front = word ∧ (cleanFrom false after).head? = some sep := by
  rw [h.eq, cleanFrom_word h.word]
  apply prefix_word_iff h.word hfront hsep
  intro c hc
  by_contra hcontra
  have halnum : c.isAlphanum = true := Bool.not_eq_false _ ▸ hcontra
  cases after with
  | nil => cases hc
  | cons d after =>
    rcases h.after d rfl with rfl | hd
    · rw [cleanFrom_kept (.inr rfl)] at hc
      exact ne_slash_of_isAlphanum halnum (Option.some.inj hc).symm
    · rw [cleanFrom_dash hd, if_neg Bool.false_ne_true] at hc
      rw [← Option.some.inj hc] at halnum
      exact absurd halnum (by decide)

/-- What the code makes of the cleaned text. -/
def branchName (cleaned : Text) : Text :=
  if allowedPrefixes.any fun allowed => startsWith cleaned allowed then cleaned
  else
    match allowedPrefixes.find? fun allowed => startsWith cleaned (dashPrefix allowed) with
    | some allowed => replaceFirst (dashPrefix allowed) allowed cleaned
    | none => "feat/".toList ++ trimStartBy (fun c => c = '/') cleaned

theorem sanitize_eq_branchName :
    sanitizeRunWorktreeName m value = branchName (cleanFrom false (core m value)) := by
  rw [← cleaned_eq]
  rfl

/-- A prefix stands in front. -/
theorem branchName_slash (h : Split t word ('/' :: after))
    (hword : word ++ ['/'] ∈ allowedPrefixes) :
    branchName (cleanFrom false t) = cleanFrom false t := by
  unfold branchName
  rw [if_pos]
  rw [List.any_eq_true]
  refine ⟨_, hword, startsWith_iff_begins.mpr ?_⟩
  rw [prefix_cleanFrom_iff h h.word (by decide), cleanFrom_kept (.inr rfl)]
  exact ⟨rfl, rfl⟩

/-- A prefix stands in front, with a dash for its slash. -/
theorem branchName_dash (h : Split t word (c :: after)) (hc : isDashLike c = true)
    (hword : word ++ ['/'] ∈ allowedPrefixes) :
    branchName (cleanFrom false t) = word ++ '/' :: cleanFrom true after := by
  have hafter : cleanFrom false (c :: after) = '-' :: cleanFrom true after := by
    rw [cleanFrom_dash hc, if_neg Bool.false_ne_true]
  have hno : ¬ (allowedPrefixes.any fun allowed =>
      startsWith (cleanFrom false t) allowed) = true := by
    intro hany
    obtain ⟨allowed, hallowed, hstarts⟩ := List.any_eq_true.mp hany
    obtain ⟨heq, -, hchars⟩ := allowed_facts hallowed
    rw [startsWith_iff_begins, heq,
      prefix_cleanFrom_iff h (fun d hd => (hchars d hd).1) (by decide), hafter] at hstarts
    exact absurd (Option.some.inj hstarts.2) (by decide)
  have hfind : ∀ allowed ∈ allowedPrefixes,
      startsWith (cleanFrom false t) (dashPrefix allowed) = true ↔ allowed = word ++ ['/'] := by
    intro allowed hallowed
    obtain ⟨heq, hdash, hchars⟩ := allowed_facts hallowed
    rw [startsWith_iff_begins, hdash,
      prefix_cleanFrom_iff h (fun d hd => (hchars d hd).1) (by decide), hafter]
    constructor
    · rintro ⟨hsame, -⟩
      rw [heq, hsame]
    · rintro rfl
      exact ⟨List.dropLast_concat, rfl⟩
  unfold branchName
  rw [if_neg hno]
  cases hfound : allowedPrefixes.find? fun allowed =>
      startsWith (cleanFrom false t) (dashPrefix allowed) with
  | none =>
    have hnone := List.find?_eq_none.mp hfound _ hword
    exact absurd ((hfind _ hword).mpr rfl) hnone
  | some allowed =>
    have hmem := List.mem_of_find?_eq_some hfound
    have hstarts : startsWith (cleanFrom false t) (dashPrefix allowed) = true :=
      List.find?_some (p := fun allowed =>
        startsWith (cleanFrom false t) (dashPrefix allowed)) hfound
    obtain rfl := (hfind allowed hmem).mp hstarts
    have hsplit : cleanFrom false t =
        dashPrefix (word ++ ['/']) ++ cleanFrom true after := by
      rw [(allowed_facts hmem).2.1, List.dropLast_concat, h.eq, cleanFrom_word h.word, hafter,
        List.append_assoc, List.singleton_append]
    show replaceFirst (dashPrefix (word ++ ['/'])) (word ++ ['/']) (cleanFrom false t) = _
    rw [hsplit, replaceFirst_append, List.append_assoc, List.singleton_append]

/-- No prefix stands in front. -/
theorem branchName_none (h : Split t word after)
    (hnone : word ++ ['/'] ∈ allowedPrefixes → after = []) :
    branchName (cleanFrom false t) =
      "feat/".toList ++ trimStartBy (fun c => c = '/') (cleanFrom false t) := by
  have hno : ∀ allowed ∈ allowedPrefixes, ∀ sep : Char, sep.isAlphanum = false →
      ¬ allowed.dropLast ++ [sep] <+: cleanFrom false t := by
    intro allowed hallowed sep hsep hbegins
    obtain ⟨heq, -, hchars⟩ := allowed_facts hallowed
    rw [prefix_cleanFrom_iff h (fun d hd => (hchars d hd).1) hsep] at hbegins
    rw [heq, hbegins.1] at hallowed
    rw [hnone hallowed] at hbegins
    cases hbegins.2
  unfold branchName
  rw [if_neg, List.find?_eq_none.mpr]
  · intro allowed hallowed hstarts
    rw [startsWith_iff_begins, (allowed_facts hallowed).2.1] at hstarts
    exact hno allowed hallowed '-' (by decide) hstarts
  · intro hany
    obtain ⟨allowed, hallowed, hstarts⟩ := List.any_eq_true.mp hany
    rw [startsWith_iff_begins, (allowed_facts hallowed).1] at hstarts
    exact hno allowed hallowed '/' (by decide) hstarts

/-! ### The names that come out -/

/-- What every name has that is made from some letter or digit. -/
structure Tidy (name : Text) : Prop where
  allowed : ∃ front ∈ allowedPrefixes, front <+: name
  chars : ∀ c ∈ name, isNameChar c = true
  dashes : NoRun '-' name
  last : ∃ c, name.getLast? = some c ∧ c.isAlphanum = true

theorem getLast?_dropWhile {p : Char → Bool} (h : t.getLast? = some c) (hc : p c = false) :
    (t.dropWhile p).getLast? = some c := by
  obtain ⟨init, rfl⟩ := List.getLast?_eq_some_iff.mp h
  rw [List.dropWhile_append]
  split
  · rw [List.dropWhile_cons_of_neg (by rw [hc]; exact Bool.false_ne_true)]
    rfl
  · exact List.getLast?_concat

theorem trimStart_of_head (h : t.head? ≠ some '/') : trimStartBy (fun c => c = '/') t = t := by
  cases t with
  | nil => rfl
  | cons c t =>
    have hc : c ≠ '/' := fun heq => h (congrArg some heq)
    exact List.dropWhile_cons_of_neg (by simpa using hc)

theorem notMem_word (h : ∀ c ∈ word, c.isAlphanum = true) (hd : d.isAlphanum = false) :
    d ∉ word := by
  intro hmem
  rw [h d hmem] at hd
  cases hd

theorem word_ne_nil (h : word ++ ['/'] ∈ allowedPrefixes) : word ≠ [] := by
  rintro rfl
  exact absurd h (by decide +kernel)

theorem head?_word (hne : word ≠ []) (h : ∀ c ∈ word, c.isAlphanum = true) :
    (word ++ t).head? ≠ some '/' := by
  cases word with
  | nil => exact absurd rfl hne
  | cons c word =>
    intro heq
    exact ne_slash_of_isAlphanum (h c List.mem_cons_self) (Option.some.inj heq)

/-- The characters of a cleaned text. -/
theorem isNameChar_cleanFrom (hlow : ∀ c ∈ t, asciiLower c = c) (h : c ∈ cleanFrom b t) :
    isNameChar c = true := by
  rcases mem_cleanFrom h with rfl | ⟨hmem, halnum | rfl⟩
  · decide
  · exact (isAlphanum_facts halnum).2.2.2 (hlow c hmem)
  · decide

/-- What is to be shown of the name of a text. -/
def NameFacts (t : Text) : Prop :=
  Tidy (branchName (cleanFrom false t)) ∧
    (NoRun '/' (branchName (cleanFrom false t)) ↔
      NoRun '/' (trimStartBy (fun c => c = '/') t) ∧ DashedApart t)

section Names

variable (hall : ∀ c ∈ t, counts c = true) (hlow : ∀ c ∈ t, asciiLower c = c)
  (hlast : t.getLast? = some d) (hd : d.isAlphanum = true)
include hall hlow hlast hd

/-- The name gets the default prefix. -/
theorem nameFacts_none
    (hnone : t.takeWhile Char.isAlphanum ++ ['/'] ∈ allowedPrefixes →
      t.dropWhile Char.isAlphanum = []) : NameFacts t := by
  have hsub : ∀ c ∈ trimStartBy (fun c => c = '/') t, c ∈ t :=
    fun c hc => (List.dropWhile_suffix _).subset hc
  have hfront : (trimStartBy (fun c => c = '/') (cleanFrom false t)).head? ≠ some '/' := by
    intro heq
    have hnot := List.head?_dropWhile_not (fun c : Char => c = '/') (cleanFrom false t)
    unfold trimStartBy at heq
    rw [heq] at hnot
    exact absurd hnot (by decide)
  have hend : (trimStartBy (fun c => c = '/') (cleanFrom false t)).getLast? = some d :=
    getLast?_dropWhile (getLast?_cleanFrom hlast hd)
      (decide_eq_false (ne_slash_of_isAlphanum hd))
  unfold NameFacts
  rw [branchName_none (split_takeWhile hall) hnone]
  refine ⟨⟨⟨"feat/".toList, by decide, List.prefix_append _ _⟩, ?_, ?_, d, ?_, hd⟩, ?_⟩
  · intro c hc
    rcases List.mem_append.mp hc with hc | hc
    · have hfeat : ∀ c ∈ "feat/".toList, isNameChar c = true := by decide
      exact hfeat c hc
    · exact isNameChar_cleanFrom hlow ((List.dropWhile_suffix _).subset hc)
  · rw [noRun_append_of_notMem (by decide), trimStart_cleanFrom hall]
    exact (cleanFrom_dashes _).1
  · rw [List.getLast?_append, hend]
    rfl
  · have happart : DashedApart t := by
      intro hword c rest hafter
      rw [hnone hword] at hafter
      cases hafter
    have hfeat : "feat/".toList = "feat".toList ++ ['/'] := by decide
    rw [hfeat, List.append_assoc, noRun_append_of_notMem (by decide), List.singleton_append,
      noRun_cons, and_iff_right fun h => hfront h.2, trimStart_cleanFrom hall,
      (cleanFrom_slashes fun c hc => hall c (hsub c hc)).1]
    exact (and_iff_left happart).symm

variable (hword : word ++ ['/'] ∈ allowedPrefixes)
include hword

/-- A prefix stands in front. -/
theorem nameFacts_slash (hsplit : Split t word ('/' :: after))
    (happart : DashedApart t) : NameFacts t := by
  have hstart : trimStartBy (fun c => c = '/') t = t := by
    apply trimStart_of_head
    rw [hsplit.eq]
    exact head?_word (word_ne_nil hword) hsplit.word
  unfold NameFacts
  rw [branchName_slash hsplit hword, hstart, (cleanFrom_slashes hall).1]
  refine ⟨⟨⟨_, hword, ?_⟩, fun c => isNameChar_cleanFrom hlow, (cleanFrom_dashes t).1, d,
    getLast?_cleanFrom hlast hd, hd⟩, (and_iff_left happart).symm⟩
  rw [prefix_cleanFrom_iff hsplit hsplit.word (by decide), cleanFrom_kept (.inr rfl)]
  exact ⟨rfl, rfl⟩

/-- A prefix stands in front, with a dash for its slash. -/
theorem nameFacts_dash (hsplit : Split t word (c :: after)) (hc : isDashLike c = true)
    (happart : DashedApart t ↔ (after.dropWhile isDashLike).head? ≠ some '/') :
    NameFacts t := by
  have hback : ∀ e ∈ after, e ∈ t := by
    intro e he
    rw [hsplit.eq]
    exact List.mem_append_right _ (List.mem_cons_of_mem _ he)
  have hcounts : ∀ e ∈ after, counts e = true := fun e he => hall e (hback e he)
  have hword' : ∀ {e : Char}, e.isAlphanum = false → e ∉ word := notMem_word hsplit.word
  have hend : after.getLast? = some d := by
    rw [hsplit.eq, List.getLast?_append, List.getLast?_cons] at hlast
    cases hafter : after.getLast? with
    | none =>
      rw [hafter] at hlast
      obtain rfl : c = d := Option.some.inj hlast
      rw [not_isAlphanum_of_isDashLike hc] at hd
      cases hd
    | some e =>
      rw [hafter] at hlast
      exact hlast
  have hstart : trimStartBy (fun c => c = '/') t = t := by
    apply trimStart_of_head
    rw [hsplit.eq]
    exact head?_word (word_ne_nil hword) hsplit.word
  unfold NameFacts
  rw [branchName_dash hsplit hc hword, hstart]
  refine ⟨⟨⟨_, hword, cleanFrom true after, by simp⟩, ?_, ?_, d, ?_, hd⟩, ?_⟩
  · intro e he
    rcases List.mem_append.mp he with he | he
    · refine (isAlphanum_facts (hsplit.word e he)).2.2.2 (hlow e ?_)
      rw [hsplit.eq]
      exact List.mem_append_left _ he
    · rcases List.mem_cons.mp he with rfl | he
      · decide
      · exact isNameChar_cleanFrom (fun e he => hlow e (hback e he)) he
  · rw [noRun_append_of_notMem (hword' (by decide)), noRun_cons_of_ne (by decide)]
    exact (cleanFrom_dashes after).2.1
  · rw [List.getLast?_append, List.getLast?_cons, getLast?_cleanFrom hend hd]
    rfl
  · have ht : NoRun '/' t ↔ NoRun '/' after := by
      rw [hsplit.eq, noRun_append_of_notMem (hword' (by decide)),
        noRun_cons_of_ne (ne_slash_of_isDashLike hc)]
    rw [noRun_append_of_notMem (hword' (by decide)), noRun_cons, happart, ht,
      (cleanFrom_slashes hcounts).1, head?_cleanFrom_true hcounts, and_comm]
    exact and_congr_right' (not_congr (and_iff_right rfl))

omit hword

/-- **What becomes of a text that ends with a letter or a digit.** -/
theorem nameFacts : NameFacts t := by
  have hsplit := split_takeWhile hall
  by_cases hnone : t.takeWhile Char.isAlphanum ++ ['/'] ∈ allowedPrefixes →
      t.dropWhile Char.isAlphanum = []
  · exact nameFacts_none hall hlow hlast hd hnone
  · obtain ⟨hword, hne⟩ := Classical.not_imp.mp hnone
    obtain ⟨c, after, hafter⟩ := List.exists_cons_of_ne_nil hne
    rw [hafter] at hsplit
    rcases hsplit.after c rfl with rfl | hc
    · apply nameFacts_slash hall hlow hlast hd hword hsplit
      intro _ c rest hcons hdash
      rw [hafter] at hcons
      obtain ⟨rfl, -⟩ := List.cons.inj hcons
      exact absurd hdash (by decide)
    · apply nameFacts_dash hall hlow hlast hd hword hsplit hc
      constructor
      · exact fun h => h hword c after hafter hc
      · intro h _ e rest hcons _
        rw [hafter] at hcons
        obtain ⟨rfl, rfl⟩ := List.cons.inj hcons
        exact h

end Names

end CodexMonitor.Shared
