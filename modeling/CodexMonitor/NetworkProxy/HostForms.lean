import CodexMonitor.Lib.CaseMapping
import CodexMonitor.Lib.Utf8
import CodexMonitor.NetworkProxy.Decisions

namespace CodexMonitor.NetworkProxy

open Text

/-!
# Network proxy — the form of a host

A host name or an address has one form, whatever brackets, port, blanks, dots and capitals it is
written with; that form is a pattern that stands for itself.

* `HostText` — names and addresses, as they are written.
* `HostForm` — the forms they have; `normalizeHost_form` — the form of a form is itself.
* `enforces_of_form` — the entries with such a form are enforced for that host alone.
* `ExactPattern` — the patterns without glob characters, and what they are enforced by.
* `PlainEntry` — the entries that are enforced by the name that the constraints compare;
  `enforces_of_allows` — such an entry is enforced for no host that the pattern allowing it is not
  enforced for.
-/

/-! ### Names and addresses -/

/-- The characters of names and addresses. -/
def isHostChar (c : Char) : Bool :=
  c.isAlphanum || c = '-' || c = '.' || c = ':' || c = '%'

/-- A name or an address alone, before a port, or in brackets with whatever follows them. -/
inductive HostBody : Text → Prop
  | bare {core : Text} (chars : ∀ c ∈ core, isHostChar c = true) (colons : core.count ':' ≠ 1) :
      HostBody core
  | withPort {core port : Text} (chars : ∀ c ∈ core, isHostChar c = true) (core_free : ':' ∉ core)
      (port_free : ':' ∉ port) : HostBody (core ++ ':' :: port)
  | bracketed {core rest : Text} (chars : ∀ c ∈ core, isHostChar c = true)
      (colons : core.count ':' ≠ 1) : HostBody ('[' :: core ++ ']' :: rest)

/-- **Hosts as they are written**, with blanks around them. -/
def HostText (host : Text) : Prop := HostBody host.trim

/-- **The forms of hosts.** -/
structure HostForm (host : Text) : Prop where
  ne_nil : host ≠ []
  chars : ∀ c ∈ host, isHostChar c = true ∧ asciiLower c = c
  lastChar : host.getLast? ≠ some '.'
  colons : host.count ':' ≠ 1

variable {host n : Text} {c : Char}

theorem isHostChar_facts (h : isHostChar c = true) :
    isWhitespace c = false ∧ c ≠ '[' ∧ c ≠ ']' ∧ c ≠ '*' ∧ isHostChar (asciiLower c) = true := by
  have hlt : c.toNat < 128 := by
    simp only [isHostChar, Bool.or_eq_true, decide_eq_true_eq] at h
    rcases h with (((h | rfl) | rfl) | rfl) | rfl
    · exact CaseMapping.ascii_of_isAlphanum h
    all_goals decide
  have hall : ∀ c : Char, c.toNat < 128 → isHostChar c = true →
      isWhitespace c = false ∧ c ≠ '[' ∧ c ≠ ']' ∧ c ≠ '*' ∧
        isHostChar (asciiLower c) = true := by
    apply CaseMapping.ascii_of_forall
    decide
  exact hall c hlt h

/-! ### The form of a host -/

theorem bracketed_of_head {t : Text} (h : t.head? ≠ some '[') : bracketed t = none := by
  unfold bracketed
  split
  · exact absurd rfl h
  · rfl

theorem count_trimDots (t : Text) : (trimDots t).count ':' = t.count ':' := by
  unfold trimDots trimEndBy
  induction t using List.reverseRecOn with
  | nil => rfl
  | append_singleton cs c ih =>
    rw [List.rdropWhile_concat]
    split
    next hdot =>
      rw [ih, beq_iff_eq.mp hdot, List.count_append, List.count_singleton, if_neg (by decide),
        Nat.add_zero]
    next => rfl

/-- Names and addresses are lower-cased, and lose the dots at their end. -/
theorem normalizeDnsHost_form {core : Text} (chars : ∀ c ∈ core, isHostChar c = true)
    (colons : core.count ':' ≠ 1) (hne : normalizeDnsHost core ≠ []) :
    HostForm (normalizeDnsHost core) where
  ne_nil := hne
  chars := by
    intro c hc
    obtain ⟨d, hd, rfl⟩ := List.mem_map.mp ((List.rdropWhile_prefix _ _).sublist.mem hc)
    exact ⟨(isHostChar_facts (chars d hd)).2.2.2.2, asciiLower_idem d⟩
  lastChar := by
    intro hlast
    have hdot := List.rdropWhile_last_not (fun c : Char => c == '.') (core.map asciiLower) hne
    rw [List.getLast?_eq_some_getLast hne] at hlast
    exact hdot (beq_iff_eq.mpr (Option.some.inj hlast))
  colons := by
    intro hcount
    apply colons
    have hlower : (core.map asciiLower).count ':' = core.count ':' :=
      count_map_asciiLower core (by decide)
    rw [← hlower, ← count_trimDots, ← hcount]
    rfl

/-- **A host that is accepted has a form.** -/
theorem normalizeHost_form (h : HostText host) (hne : normalizeHost host ≠ []) :
    HostForm (normalizeHost host) := by
  unfold HostText at h
  unfold normalizeHost at hne ⊢
  generalize host.trim = body at h hne ⊢
  cases h with
  | bare chars colons =>
    have hnone : bracketed body = none := by
      apply bracketed_of_head
      intro hhead
      exact (isHostChar_facts (chars _ (List.mem_of_mem_head? hhead))).2.1 rfl
    rw [hnone] at hne ⊢
    dsimp only at hne ⊢
    rw [if_neg colons] at hne ⊢
    exact normalizeDnsHost_form chars colons hne
  | @withPort core port chars core_free port_free =>
    have hnone : bracketed (core ++ ':' :: port) = none := by
      apply bracketed_of_head
      intro hhead
      cases core with
      | nil => exact absurd hhead (by simp)
      | cons d core =>
        obtain rfl := Option.some.inj hhead
        exact (isHostChar_facts (chars _ List.mem_cons_self)).2.1 rfl
    have hcount : (core ++ ':' :: port).count ':' = 1 := by
      rw [List.count_append, List.count_cons_self, List.count_eq_zero.mpr core_free,
        List.count_eq_zero.mpr port_free]
    have htake : (core ++ ':' :: port).takeWhile (· != ':') = core := by
      rw [List.takeWhile_append_of_pos, List.takeWhile_cons_of_neg (by simp), List.append_nil]
      intro d hd
      rw [bne_iff_ne]
      rintro rfl
      exact core_free hd
    rw [hnone] at hne ⊢
    dsimp only at hne ⊢
    rw [if_pos hcount, htake] at hne ⊢
    apply normalizeDnsHost_form chars _ hne
    rw [List.count_eq_zero.mpr core_free]
    decide
  | @bracketed core rest chars colons =>
    have hclose : ∀ d ∈ core, (d != ']') = true := by
      intro d hd
      rw [bne_iff_ne]
      exact (isHostChar_facts (chars d hd)).2.2.1
    have htake : (core ++ ']' :: rest).takeWhile (· != ']') = core := by
      rw [List.takeWhile_append_of_pos hclose, List.takeWhile_cons_of_neg (by simp),
        List.append_nil]
    have hinner : NetworkProxy.bracketed ('[' :: core ++ ']' :: rest) = some core := by
      show (if ']' ∈ core ++ ']' :: rest then _ else none) = some core
      rw [if_pos (by simp)]
      exact congrArg some htake
    rw [hinner] at hne ⊢
    exact normalizeDnsHost_form chars colons hne

theorem HostForm.trim (h : HostForm n) : n.trim = n :=
  trimBy_of_forall fun c hc => (isHostChar_facts (h.chars c hc).1).1

theorem HostForm.head (h : HostForm n) : n.head? ≠ some '[' ∧ n.head? ≠ some '*' := by
  constructor
  · intro hhead
    exact (isHostChar_facts (h.chars _ (List.mem_of_mem_head? hhead)).1).2.1 rfl
  · intro hhead
    exact (isHostChar_facts (h.chars _ (List.mem_of_mem_head? hhead)).1).2.2.2.1 rfl

/-- **The form of a form is itself.** -/
theorem HostForm.normalizeHost (h : HostForm n) : normalizeHost n = n := by
  unfold NetworkProxy.normalizeHost
  rw [h.trim, bracketed_of_head h.head.1]
  dsimp only
  rw [if_neg h.colons]
  unfold normalizeDnsHost trimDots trimEndBy
  have hlower : n.map asciiLower = n := by
    calc n.map asciiLower = n.map id := List.map_congr_left fun c hc => (h.chars c hc).2
      _ = n := List.map_id n
  rw [hlower, List.rdropWhile_eq_self_iff]
  intro hne hdot
  apply h.lastChar
  rw [List.getLast?_eq_some_getLast hne]
  exact congrArg some (beq_iff_eq.mp hdot)

/-! ### The entries of a form -/

theorem stripStart_of_head {t u : Text} {d : Char} (h : t.head? ≠ some d) :
    stripStart t (d :: u) = none := by
  cases t with
  | nil => rfl
  | cons c t =>
    have hne : c ≠ d := fun heq => h (congrArg some heq)
    simp [stripStart, hne]

theorem splitWildcard_of_head {t : Text} (h : t.head? ≠ some '*') : splitWildcard t = ([], t) := by
  unfold splitWildcard
  rw [show "**.".toList = '*' :: "*.".toList from rfl, stripStart_of_head h,
    show "*.".toList = '*' :: ".".toList from rfl, stripStart_of_head h]

/-- Without a star in front the pattern is read as a host. -/
theorem normalizePattern_of_head {pattern : Text} (h : pattern.trim.head? ≠ some '*') :
    normalizePattern pattern = normalizeHost pattern := by
  have hstar : pattern.trim ≠ "*".toList := by
    intro heq
    rw [heq] at h
    exact h rfl
  have hidem : normalizeHost pattern.trim = normalizeHost pattern := by
    unfold normalizeHost
    rw [show pattern.trim.trim = pattern.trim from trimBy_trimBy _ _]
  unfold normalizePattern
  rw [if_neg hstar, splitWildcard_of_head h]
  exact hidem

/-- A star in front stays there. -/
theorem head_normalizeHost {pattern : Text} (h : pattern.trim.head? = some '*') :
    (normalizeHost pattern).head? = some '*' := by
  obtain ⟨rest, hrest⟩ := List.head?_eq_some_iff.mp h
  have hdns : ∀ t : Text, (normalizeDnsHost ('*' :: t)).head? = some '*' := by
    intro t
    show (trimDots ('*' :: t.map asciiLower)).head? = some '*'
    unfold trimDots trimEndBy
    have hbegins := List.rdropWhile_prefix (fun c : Char => c == '.') ('*' :: t.map asciiLower)
    cases hcut : ('*' :: t.map asciiLower).rdropWhile fun c => c == '.' with
    | nil =>
      have hall := List.rdropWhile_eq_nil_iff.mp hcut '*' List.mem_cons_self
      exact absurd hall (by decide)
    | cons d cut =>
      rw [hcut, List.cons_prefix_cons] at hbegins
      exact congrArg some hbegins.1
  unfold normalizeHost
  rw [hrest]
  show (if ('*' :: rest).count ':' = 1 then normalizeDnsHost (('*' :: rest).takeWhile (· != ':'))
    else normalizeDnsHost ('*' :: rest)).head? = some '*'
  split
  · exact hdns _
  · exact hdns rest

/-- **The entries of a form** are enforced by it. -/
theorem normalizePattern_of_form {pattern : Text} (h : HostForm (normalizeHost pattern)) :
    normalizePattern pattern = normalizeHost pattern :=
  normalizePattern_of_head fun hhead => h.head.2 (head_normalizeHost hhead)

/-! ### Patterns without wildcards -/

/-- The characters that mean something in a glob. -/
def isGlobChar (c : Char) : Bool := c ∈ ['*', '?', '[', ']', '\x7b', '\x7d', '\\']

/-- **Exact patterns**: no character of the pattern that is compiled is one of a glob. -/
def ExactPattern (pattern : Text) : Prop := ∀ c ∈ normalizePattern pattern, isGlobChar c = false

instance (pattern : Text) : Decidable (ExactPattern pattern) :=
  inferInstanceAs (Decidable (∀ c ∈ normalizePattern pattern, isGlobChar c = false))

/-- **Globs without such characters** match one text, in any case. -/
def LiteralGlobs (ext : Externals) : Prop :=
  ∀ glob : Text, (∀ c ∈ glob, isGlobChar c = false) → ∀ t,
    ext.globMatches glob t = eqIgnoreAsciiCase glob t

theorem head_normalizePattern {pattern : Text} (h : pattern.trim.head? = some '*') :
    (normalizePattern pattern).head? = some '*' := by
  unfold normalizePattern
  split
  · rfl
  · unfold splitWildcard
    split
    · rfl
    · split
      · rfl
      · show (normalizeHost pattern.trim).head? = some '*'
        apply head_normalizeHost
        rw [show pattern.trim.trim = pattern.trim from trimBy_trimBy _ _]
        exact h

theorem asciiLower_of_mem_normalizeHost (h : c ∈ normalizeHost host) : asciiLower c = c := by
  have hdns : ∀ t : Text, c ∈ normalizeDnsHost t → asciiLower c = c := by
    intro t hmem
    obtain ⟨d, -, rfl⟩ := List.mem_map.mp ((List.rdropWhile_prefix _ _).sublist.mem hmem)
    exact asciiLower_idem d
  unfold normalizeHost at h
  split at h
  · exact hdns _ h
  · split at h
    · exact hdns _ h
    · exact hdns _ h

theorem expand_of_chars {m : Text} (h : ∀ c ∈ m, isGlobChar c = false) :
    expandDomainPattern m = [m.trim] := by
  have hhead : m.trim.head? ≠ some '*' := by
    intro heq
    have hmem := trimBy_subset _ _ (List.mem_of_mem_head? heq)
    exact absurd (h '*' hmem) (by decide)
  unfold expandDomainPattern DomainPattern.parse
  split
  next hempty =>
    rw [List.isEmpty_iff.mp hempty]
    rfl
  next =>
    rw [show "**.".toList = '*' :: "*.".toList from rfl, stripStart_of_head hhead,
      show "*.".toList = '*' :: ".".toList from rfl, stripStart_of_head hhead]
    rfl

theorem eqIgnoreAsciiCase_of_lower {a b : Text} (ha : ∀ c ∈ a, asciiLower c = c)
    (hb : ∀ c ∈ b, asciiLower c = c) : eqIgnoreAsciiCase a b = true ↔ a = b := by
  have hmap : ∀ t : Text, (∀ c ∈ t, asciiLower c = c) → t.map asciiLower = t := by
    intro t ht
    calc t.map asciiLower = t.map id := List.map_congr_left ht
      _ = t := List.map_id t
  unfold eqIgnoreAsciiCase
  rw [hmap a ha, hmap b hb, beq_iff_eq]

variable {ext : Externals} {pattern : Text}

/-- **What an exact pattern is enforced for**: the host that it is, without blanks at its ends. -/
theorem enforces_exact (hext : LiteralGlobs ext) (hexact : ExactPattern pattern)
    (hlower : ∀ c ∈ host, asciiLower c = c) :
    ext.enforces pattern host = true ↔ (normalizeHost pattern).trim = host := by
  have hhead : pattern.trim.head? ≠ some '*' := by
    intro h
    exact absurd (hexact '*' (List.mem_of_mem_head? (head_normalizePattern h))) (by decide)
  have hchars : ∀ c ∈ normalizeHost pattern, isGlobChar c = false := by
    rw [← normalizePattern_of_head hhead]
    exact hexact
  have htrimmed : ∀ c ∈ (normalizeHost pattern).trim, isGlobChar c = false := fun c hc =>
    hchars c (trimBy_subset _ _ hc)
  unfold Externals.enforces
  rw [normalizePattern_of_head hhead, expand_of_chars hchars, List.any_cons, List.any_nil,
    Bool.or_false, hext _ htrimmed]
  exact eqIgnoreAsciiCase_of_lower
    (fun c hc => asciiLower_of_mem_normalizeHost (trimBy_subset _ _ hc)) hlower

theorem not_isGlobChar_of_isHostChar (h : isHostChar c = true) : isGlobChar c = false := by
  by_contra hglob
  rw [Bool.not_eq_false, isGlobChar, decide_eq_true_eq] at hglob
  simp only [List.mem_cons, List.not_mem_nil, or_false] at hglob
  rcases hglob with rfl | rfl | rfl | rfl | rfl | rfl | rfl <;> exact absurd h (by decide)

/-- The entries of a form are enforced for that host only. -/
theorem enforces_of_form (hext : LiteralGlobs ext) (h : HostForm (normalizeHost pattern))
    (hlower : ∀ c ∈ host, asciiLower c = c) :
    ext.enforces pattern host = true ↔ normalizeHost pattern = host := by
  have hexact : ExactPattern pattern := by
    intro c hc
    rw [normalizePattern_of_form h] at hc
    exact not_isGlobChar_of_isHostChar (h.chars c hc).1
  rw [enforces_exact hext hexact hlower, h.trim]

/-! ### Names that are read in one way -/

/-- The characters of names and of wildcards in them: no blanks, and none that means something else
    in a glob, in an address or before a port. -/
def isNameChar (c : Char) : Bool :=
  !isWhitespace c && c ∉ ['[', ']', '\x7b', '\x7d', '\\', '/', ':']

/-- A glob of such characters, over bytes: neither wildcard stops at a separator. -/
def globTokens (glob : Text) : List (Wildcard UInt8) :=
  glob.flatMap fun c => if c = '*' then [.many] else if c = '?' then [.one]
    else (Utf8.encodeChar c).map .lit

/-- **Globs with wildcards** match the lower-cased texts that their tokens accept; `**` alone is one
    for directories. -/
def WildcardGlobs (ext : Externals) : Prop :=
  ∀ glob : Text, (∀ c ∈ glob, isNameChar c = true ∧ asciiLower c = c) → glob ≠ "**".toList →
    ∀ t : Text, (∀ c ∈ t, asciiLower c = c) →
      ext.globMatches glob t = Wildcard.accepts (globTokens glob) (Utf8.encode t)

/-- The name of an entry, without its wildcard. -/
def entryName (entry : Text) : Text := normalizeDnsHost (splitWildcard entry.trim).2

/-- **Plain entries**: a wildcard and a name that the URL parser only lowers, where it reads it. -/
structure PlainEntry (ext : Externals) (entry : Text) : Prop where
  chars : ∀ c ∈ (splitWildcard entry.trim).2, isNameChar c = true
  named : entryName entry ≠ "**".toList
  parsed : entryName entry ≠ [] →
    (∀ c ∈ trimDots (splitWildcard entry.trim).2, c ≠ '*' ∧ c ≠ '?' ∧ c ≠ '%') →
      ext.urlHost (trimDots (splitWildcard entry.trim).2) = some (entryName entry)

/-- The pattern of a wildcard and a name. -/
def withWildcard (wildcard domain : Text) : DomainPattern :=
  if wildcard = "**.".toList then .apexAndSubdomains domain
  else if wildcard = "*.".toList then .subdomainsOnly domain
  else .exact domain

variable {entry name : Text}

theorem trimDots_map_asciiLower (t : Text) :
    trimDots (t.map asciiLower) = (trimDots t).map asciiLower := by
  refine trimEndBy_map t fun c => ?_
  rw [Bool.eq_iff_iff, beq_iff_eq, beq_iff_eq]
  exact asciiLower_eq_iff (by decide) c

theorem trimDots_idem (t : Text) : trimDots (trimDots t) = trimDots t :=
  List.rdropWhile_idempotent _ _

theorem not_isWhitespace_of_isNameChar (h : isNameChar c = true) : isWhitespace c = false := by
  unfold isNameChar at h
  rw [Bool.and_eq_true, Bool.not_eq_true'] at h
  exact h.1

theorem trim_of_nameChars (h : ∀ c ∈ name, isNameChar c = true) : name.trim = name :=
  trimBy_of_forall fun c hc => not_isWhitespace_of_isNameChar (h c hc)

theorem ne_of_nameChar (h : isNameChar c = true) :
    c ≠ '[' ∧ c ≠ ']' ∧ c ≠ ':' := by
  refine ⟨?_, ?_, ?_⟩
  · rintro rfl
    exact absurd h (by decide)
  · rintro rfl
    exact absurd h (by decide)
  · rintro rfl
    exact absurd h (by decide)

/-- A name is lower-cased, and loses the dots at its end. -/
theorem normalizeHost_of_nameChars (h : ∀ c ∈ name, isNameChar c = true) :
    normalizeHost name = normalizeDnsHost name := by
  have hhead : name.head? ≠ some '[' := by
    intro heq
    exact (ne_of_nameChar (h _ (List.mem_of_mem_head? heq))).1 rfl
  have hcount : name.count ':' = 0 := by
    rw [List.count_eq_zero]
    intro hmem
    exact (ne_of_nameChar (h _ hmem)).2.2 rfl
  unfold normalizeHost
  rw [trim_of_nameChars h, bracketed_of_head hhead]
  dsimp only
  rw [if_neg (by omega)]

theorem isNameChar_asciiLower (h : isNameChar c = true) : isNameChar (asciiLower c) = true := by
  unfold isNameChar at h ⊢
  rw [isWhitespace_asciiLower]
  rw [Bool.and_eq_true] at h ⊢
  refine ⟨h.1, decide_eq_true fun hmem => of_decide_eq_true h.2 ?_⟩
  have hspecial : ∀ d ∈ ['[', ']', '\x7b', '\x7d', '\\', '/', ':'], d.isAlpha = false := by decide
  have hsame : c = asciiLower c := (asciiLower_eq_iff (hspecial _ hmem) c).mp rfl
  rw [← hsame] at hmem
  exact hmem

theorem normalizeDnsHost_chars (h : ∀ c ∈ name, isNameChar c = true) :
    ∀ c ∈ normalizeDnsHost name, isNameChar c = true ∧ asciiLower c = c := by
  intro c hc
  obtain ⟨d, hd, rfl⟩ := List.mem_map.mp ((List.rdropWhile_prefix _ _).sublist.mem hc)
  exact ⟨isNameChar_asciiLower (h d hd), asciiLower_idem d⟩

theorem entryName_eq (entry : Text) :
    entryName entry = (trimDots (splitWildcard entry.trim).2).map asciiLower := by
  unfold entryName normalizeDnsHost
  exact trimDots_map_asciiLower _

theorem normalizeDomain_trimDots (t : Text) :
    normalizeDomain (trimDots t) = normalizeDnsHost t := by
  unfold normalizeDomain normalizeDnsHost
  rw [trimDots_idem, trimDots_map_asciiLower]

theorem normalizeDomain_dnsHost (t : Text) :
    normalizeDomain (normalizeDnsHost t) = normalizeDnsHost t := by
  unfold normalizeDomain normalizeDnsHost
  rw [trimDots_idem, ← trimDots_map_asciiLower, map_asciiLower_idem]

/-- **The constraints read the name that is enforced.** -/
theorem normalizeDomain_parsed (h : PlainEntry ext entry) :
    normalizeDomain (ext.parseDomainForConstraints (splitWildcard entry.trim).2) =
      entryName entry := by
  have hname : entryName entry = normalizeDnsHost (splitWildcard entry.trim).2 := rfl
  have heq := entryName_eq entry
  have hparsed := h.parsed
  have hchars := h.chars
  generalize (splitWildcard entry.trim).2 = name at hname heq hparsed hchars ⊢
  unfold Externals.parseDomainForConstraints
  rw [trim_of_nameChars hchars]
  dsimp only
  by_cases hempty : (trimDots name).isEmpty = true
  · rw [if_pos hempty, heq, List.isEmpty_iff.mp hempty]
    rfl
  · have hbracket : ¬ (startsWith (trimDots name) ['['] && endsWith (trimDots name) [']']) =
        true := by
      intro hboth
      have hopen := List.isPrefixOf_iff_prefix.mp (Bool.and_eq_true_iff.mp hboth).1
      have hmem : '[' ∈ trimDots name := hopen.subset (List.mem_singleton.mpr rfl)
      exact (ne_of_nameChar (hchars _ ((List.rdropWhile_prefix _ _).subset hmem))).1 rfl
    have hne : entryName entry ≠ [] := by
      rw [heq]
      intro hnil
      exact hempty (List.isEmpty_iff.mpr (List.map_eq_nil_iff.mp hnil))
    rw [if_neg hempty, if_neg hbracket]
    by_cases hwild : '*' ∈ trimDots name ∨ '?' ∈ trimDots name ∨ '%' ∈ trimDots name
    · rw [if_pos hwild, normalizeDomain_trimDots, hname]
    · rw [if_neg hwild, hparsed hne ?_]
      · show normalizeDomain (entryName entry) = _
        rw [hname, normalizeDomain_dnsHost]
      · intro c hc
        refine ⟨?_, ?_, ?_⟩
        · rintro rfl
          exact hwild (.inl hc)
        · rintro rfl
          exact hwild (.inr (.inl hc))
        · rintro rfl
          exact hwild (.inr (.inr hc))

/-! ### The two readings of an entry -/

theorem parseForConstraints_eq (ext : Externals) (entry : Text) :
    DomainPattern.parseForConstraints ext entry = withWildcard (splitWildcard entry.trim).1
      (ext.parseDomainForConstraints (splitWildcard entry.trim).2) := by
  unfold DomainPattern.parseForConstraints splitWildcard
  by_cases hempty : entry.trim.isEmpty = true
  · rw [if_pos hempty, List.isEmpty_iff.mp hempty]
    rfl
  · rw [if_neg hempty]
    cases stripStart entry.trim "**.".toList with
    | some domain => rfl
    | none =>
      cases stripStart entry.trim "*.".toList with
      | some domain => rfl
      | none => rfl

/-- The wildcard before a name is one of two, or there is none and the name begins with none. -/
theorem splitWildcard_cases (t : Text) :
    (splitWildcard t).1 = "**.".toList ∨ (splitWildcard t).1 = "*.".toList ∨
      (splitWildcard t = ([], t) ∧ stripStart t "**.".toList = none ∧
        stripStart t "*.".toList = none) := by
  unfold splitWildcard
  cases stripStart t "**.".toList with
  | some domain => exact .inl rfl
  | none =>
    cases stripStart t "*.".toList with
    | some domain => exact .inr (.inl rfl)
    | none => exact .inr (.inr ⟨rfl, rfl, rfl⟩)

/-- A name that begins with no wildcard has none after it is normalized. -/
theorem stripStart_normalizeDnsHost {t wildcard : Text} (hwild : ∀ c ∈ wildcard, c.isAlpha = false)
    (h : stripStart t wildcard = none) : stripStart (normalizeDnsHost t) wildcard = none := by
  by_contra hsome
  obtain ⟨rest, hrest⟩ := Option.ne_none_iff_exists'.mp hsome
  have hbegins := stripStart_eq_some_iff.mp hrest
  obtain ⟨dots, hdots⟩ := List.rdropWhile_prefix (fun c : Char => c == '.') (t.map asciiLower)
  have hlower : t.map asciiLower = wildcard ++ (rest ++ dots) := by
    rw [← hdots, ← List.append_assoc, ← hbegins]
    rfl
  have hstrip := stripStart_map_asciiLower t hwild
  rw [hlower, stripStart_append, h] at hstrip
  cases hstrip

theorem normalizePattern_plain (h : ∀ c ∈ (splitWildcard entry.trim).2, isNameChar c = true) :
    normalizePattern entry = (splitWildcard entry.trim).1 ++ entryName entry := by
  unfold normalizePattern
  by_cases hstar : entry.trim = "*".toList
  · rw [if_pos hstar]
    unfold entryName
    rw [hstar]
    rfl
  · rw [if_neg hstar, normalizeHost_of_nameChars h]
    rfl

/-- **The globs of an entry**: those of its wildcard and name. -/
theorem expand_plain (h : ∀ c ∈ (splitWildcard entry.trim).2, isNameChar c = true)
    (hne : entryName entry ≠ []) :
    expandDomainPattern (normalizePattern entry) =
      (withWildcard (splitWildcard entry.trim).1 (entryName entry)).globs := by
  have hchars : ∀ c ∈ entryName entry, isNameChar c = true := fun c hc =>
    (normalizeDnsHost_chars h c hc).1
  have htrim : (entryName entry).trim = entryName entry := trim_of_nameChars hchars
  have hnotempty : (entryName entry).isEmpty = false := by
    rw [List.isEmpty_eq_false_iff]
    exact hne
  have hends : ∀ front : Text, (∀ c ∈ front, isWhitespace c = false) →
      (front ++ entryName entry).trim = front ++ entryName entry := by
    intro front hfront
    refine trimBy_of_forall fun c hc => ?_
    rcases List.mem_append.mp hc with hmem | hmem
    · exact hfront c hmem
    · exact not_isWhitespace_of_isNameChar (hchars c hmem)
  rw [normalizePattern_plain h]
  unfold expandDomainPattern DomainPattern.parse
  rcases splitWildcard_cases entry.trim with hwild | hwild | ⟨hwild, hapex, hsub⟩
  · rw [hwild, hends _ (by decide), if_neg (by simp), stripStart_append]
    show (DomainPattern.parseDomain _ _).globs = _
    unfold DomainPattern.parseDomain
    rw [htrim, hnotempty]
    rfl
  · rw [hwild, hends _ (by decide), if_neg (by simp)]
    have hnot : stripStart ("*.".toList ++ entryName entry) "**.".toList = none := rfl
    rw [hnot, stripStart_append]
    show (DomainPattern.parseDomain _ _).globs = _
    unfold DomainPattern.parseDomain
    rw [htrim, hnotempty]
    rfl
  · have hname : entryName entry = normalizeDnsHost entry.trim := by
      unfold entryName
      rw [hwild]
    have halone : ([] : Text) ++ entryName entry = entryName entry := rfl
    rw [hwild, halone, htrim, hnotempty, if_neg Bool.false_ne_true, hname,
      stripStart_normalizeDnsHost (by decide) hapex, stripStart_normalizeDnsHost (by decide) hsub]
    rfl

/-- An entry without a name has the empty glob. -/
theorem expand_nameless (h : ∀ c ∈ (splitWildcard entry.trim).2, isNameChar c = true)
    (hnil : entryName entry = []) : expandDomainPattern (normalizePattern entry) = [[]] := by
  rw [normalizePattern_plain h, hnil]
  rcases splitWildcard_cases entry.trim with hwild | hwild | ⟨hwild, -, -⟩
  · rw [hwild]
    rfl
  · rw [hwild]
    rfl
  · rw [hwild]
    rfl

/-! ### What the constraints allow -/

theorem below_of_isStrictSubdomain {child parent : Text}
    (h : isStrictSubdomain child parent = true) :
    ∃ front, normalizeDomain child = front ++ '.' :: normalizeDomain parent := by
  obtain ⟨front, hfront⟩ := List.isSuffixOf_iff_suffix.mp (Bool.and_eq_true_iff.mp h).2
  exact ⟨front, hfront.symm⟩

theorem isSubdomainOrEqual_cases {child parent : Text}
    (h : isSubdomainOrEqual child parent = true) :
    normalizeDomain child = normalizeDomain parent ∨
      ∃ front, normalizeDomain child = front ++ '.' :: normalizeDomain parent := by
  rcases Bool.or_eq_true_iff.mp h with heq | hends
  · exact .inl (beq_iff_eq.mp heq)
  · obtain ⟨front, hfront⟩ := List.isSuffixOf_iff_suffix.mp hends
    exact .inr ⟨front, hfront.symm⟩

/-- **A pattern that is allowed** has the name of the managed one and no more globs, or a name below
    it, of which the managed one covers all. -/
theorem allows_cases {managedWildcard wildcard managedDomain domain : Text}
    (h : (withWildcard managedWildcard managedDomain).allows (withWildcard wildcard domain) =
      true) :
    (normalizeDomain domain = normalizeDomain managedDomain ∧
        ∀ m, (withWildcard wildcard m).globs ⊆ (withWildcard managedWildcard m).globs) ∨
      (∃ front, normalizeDomain domain = front ++ '.' :: normalizeDomain managedDomain) ∧
        ∀ m, subdomainGlob m ∈ (withWildcard managedWildcard m).globs := by
  unfold withWildcard at h ⊢
  -- the managed wildcard decides what is compared, the other one which globs there are
  by_cases hmanagedApex : managedWildcard = "**.".toList
  · simp only [if_pos hmanagedApex] at h ⊢
    have hor : isSubdomainOrEqual domain managedDomain = true := by
      split at h
      · exact h
      · split at h
        · exact h
        · exact h
    rcases isSubdomainOrEqual_cases hor with heq | hfront
    · refine .inl ⟨heq, fun m => ?_⟩
      split
      · exact List.Subset.refl _
      · split
        · exact fun glob hglob => List.mem_cons_of_mem _ hglob
        · intro glob hglob
          rw [List.mem_singleton.mp hglob]
          exact List.mem_cons_self
    · exact .inr ⟨hfront, fun m => List.mem_cons_of_mem _ (List.mem_singleton.mpr rfl)⟩
  · by_cases hmanagedSub : managedWildcard = "*.".toList
    · simp only [if_neg hmanagedApex, if_pos hmanagedSub] at h ⊢
      have hself : ∀ m, subdomainGlob m ∈ (DomainPattern.subdomainsOnly m).globs :=
        fun m => List.mem_singleton.mpr rfl
      by_cases happex : wildcard = "**.".toList
      · simp only [if_pos happex] at h
        exact .inr ⟨below_of_isStrictSubdomain h, hself⟩
      · by_cases hsub : wildcard = "*.".toList
        · simp only [if_neg happex, if_pos hsub] at h ⊢
          rcases isSubdomainOrEqual_cases h with heq | hfront
          · exact .inl ⟨heq, fun m => List.Subset.refl _⟩
          · exact .inr ⟨hfront, hself⟩
        · simp only [if_neg happex, if_neg hsub] at h
          exact .inr ⟨below_of_isStrictSubdomain h, hself⟩
    · simp only [if_neg hmanagedApex, if_neg hmanagedSub] at h ⊢
      by_cases happex : wildcard = "**.".toList
      · rw [if_pos happex] at h
        cases h
      · by_cases hsub : wildcard = "*.".toList
        · rw [if_neg happex, if_pos hsub] at h
          cases h
        · simp only [if_neg happex, if_neg hsub] at h ⊢
          exact .inl ⟨beq_iff_eq.mp h, fun m => List.Subset.refl _⟩

/-! ### What the globs match -/

theorem globTokens_append (front back : Text) :
    globTokens (front ++ back) = globTokens front ++ globTokens back := List.flatMap_append

theorem globTokens_below (front domain : Text) :
    globTokens (front ++ '.' :: domain) = globTokens front ++ .lit 46 :: globTokens domain := by
  rw [globTokens_append]
  rfl

theorem globTokens_subdomain (domain : Text) :
    globTokens (subdomainGlob domain) = .one :: .many :: .lit 46 :: globTokens domain := rfl

/-- Only a dot begins with its byte. -/
theorem head_of_encode {rest : List UInt8} (h : Utf8.encode host = 46 :: rest) :
    host.head? = some '.' := by
  cases host with
  | nil => cases h
  | cons c t =>
    obtain ⟨b, more, hbytes, hdecode⟩ := Utf8.decodeFirst_encodeChar c []
    rw [Utf8.encode_cons, hbytes] at h
    obtain rfl : b = 46 := (List.cons.inj h).1
    have hdot : Utf8.decodeFirst 46 (more ++ []) = .char '.' (more ++ []) := rfl
    rw [hdecode] at hdot
    rw [List.head?_cons, (Utf8.Decoded.char.inj hdot).1]

/-- A pattern has the glob of its name, that of the names below it, or both. -/
theorem mem_globs {domain glob wildcard : Text}
    (hglob : glob ∈ (withWildcard wildcard domain).globs) :
    glob = domain ∨ glob = subdomainGlob domain := by
  unfold withWildcard at hglob
  split at hglob
  · rcases List.mem_cons.mp hglob with heq | hmem
    · exact .inl heq
    · exact .inr (List.mem_singleton.mp hmem)
  · split at hglob
    · exact .inr (List.mem_singleton.mp hglob)
    · exact .inl (List.mem_singleton.mp hglob)

theorem globMatches_subdomain (hext : WildcardGlobs ext) {domain : Text}
    (h : ∀ c ∈ domain, isNameChar c = true ∧ asciiLower c = c)
    (hlower : ∀ c ∈ host, asciiLower c = c) :
    ext.globMatches (subdomainGlob domain) host =
      Wildcard.accepts (.one :: .many :: .lit 46 :: globTokens domain) (Utf8.encode host) := by
  rw [← globTokens_subdomain]
  refine hext _ ?_ ?_ host hlower
  · intro c hc
    have hwild : ∀ c ∈ "?*.".toList, isNameChar c = true ∧ asciiLower c = c := by decide
    rcases List.mem_append.mp hc with hmem | hmem
    · exact hwild c hmem
    · exact h c hmem
  · intro heq
    cases heq

/-- **A name below another one**: what its globs match is below the other one, too, unless it is
    the other one after a single dot. -/
theorem globMatches_below (hext : WildcardGlobs ext) {domain front glob wildcard : Text}
    (h : ∀ c ∈ front ++ '.' :: domain, isNameChar c = true ∧ asciiLower c = c)
    (hnamed : front ++ '.' :: domain ≠ "**".toList) (hlower : ∀ c ∈ host, asciiLower c = c)
    (hdot : host.head? ≠ some '.')
    (hglob : glob ∈ (withWildcard wildcard (front ++ '.' :: domain)).globs)
    (hmatch : ext.globMatches glob host = true) :
    ext.globMatches (subdomainGlob domain) host = true := by
  have hdomain : ∀ c ∈ domain, isNameChar c = true ∧ asciiLower c = c := fun c hc =>
    h c (List.mem_append_right _ (List.mem_cons_of_mem _ hc))
  rw [globMatches_subdomain hext hdomain hlower]
  rcases mem_globs hglob with rfl | rfl
  · -- the front of the name may match nothing, but then the host begins with the dot
    rw [hext _ h hnamed host hlower, globTokens_below] at hmatch
    obtain ⟨before, after, hsplit, -, hafter⟩ := Wildcard.accepts_append.mp hmatch
    have hne : before ≠ [] := by
      rintro rfl
      obtain ⟨rest, hrest, -⟩ := Wildcard.accepts_lit.mp hafter
      rw [List.nil_append, hrest] at hsplit
      exact hdot (head_of_encode hsplit)
    have hall : Wildcard.accepts ([.one, .many] ++ .lit 46 :: globTokens domain)
        (Utf8.encode host) = true :=
      Wildcard.accepts_append.mpr ⟨before, after, hsplit, Wildcard.accepts_one_many.mpr hne, hafter⟩
    exact hall
  · rw [globMatches_subdomain hext h hlower, globTokens_below] at hmatch
    have hfront : ∃ token ∈ Wildcard.one :: .many :: .lit 46 :: globTokens front,
        token ≠ Wildcard.many := ⟨.one, List.mem_cons_self, by simp⟩
    exact Wildcard.accepts_suffix hfront hmatch

/-- A plain entry that is enforced for a host has a name. -/
theorem entryName_ne_nil (hext : WildcardGlobs ext) (hentry : PlainEntry ext entry)
    (hlower : ∀ c ∈ host, asciiLower c = c) (hne : host ≠ [])
    (henforces : ext.enforces entry host = true) : entryName entry ≠ [] := by
  intro hnil
  obtain ⟨glob, hglob, hmatch⟩ := List.any_eq_true.mp henforces
  rw [expand_nameless hentry.chars hnil, List.mem_singleton] at hglob
  rw [hglob, hext [] (fun c hc => absurd hc List.not_mem_nil) (by simp) host hlower] at hmatch
  have hempty : Utf8.encode host = [] := Wildcard.accepts_nil.mp hmatch
  have hlength := Utf8.length_le_encode host
  rw [hempty] at hlength
  exact hne (List.length_eq_zero_iff.mp (Nat.le_zero.mp hlength))

/-- No name ends with a dot. -/
theorem entryName_ne_concat (entry front : Text) : entryName entry ≠ front ++ ['.'] := by
  intro heq
  have hne : entryName entry ≠ [] := by
    rw [heq]
    exact List.append_ne_nil_of_right_ne_nil _ (List.cons_ne_nil _ _)
  have hlast := List.rdropWhile_last_not (fun c : Char => c == '.')
    ((splitWildcard entry.trim).2.map asciiLower) hne
  have hget : (entryName entry).getLast? = some '.' := by
    rw [heq]
    exact List.getLast?_concat
  rw [List.getLast?_eq_some_getLast hne] at hget
  exact hlast (beq_iff_eq.mpr (Option.some.inj hget))

/-- **The constraints allow only what the managed entry is enforced for.** -/
theorem enforces_of_allows (hext : WildcardGlobs ext) (hpattern : PlainEntry ext pattern)
    (hentry : PlainEntry ext entry)
    (hallows : (DomainPattern.parseForConstraints ext pattern).allows
      (DomainPattern.parseForConstraints ext entry) = true)
    (hlower : ∀ c ∈ host, asciiLower c = c) (hne : host ≠ []) (hdot : host.head? ≠ some '.')
    (henforces : ext.enforces entry host = true) : ext.enforces pattern host = true := by
  have hnamed := entryName_ne_nil hext hentry hlower hne henforces
  obtain ⟨glob, hglob, hmatch⟩ := List.any_eq_true.mp henforces
  rw [expand_plain hentry.chars hnamed] at hglob
  rw [parseForConstraints_eq, parseForConstraints_eq] at hallows
  rcases allows_cases hallows with ⟨hsame, hglobs⟩ | ⟨⟨front, hfront⟩, hcovers⟩
  · -- one name: the managed entry has the glob of the other one
    rw [normalizeDomain_parsed hentry, normalizeDomain_parsed hpattern] at hsame
    rw [hsame] at hnamed hglob
    refine List.any_eq_true.mpr ⟨glob, ?_, hmatch⟩
    rw [expand_plain hpattern.chars hnamed]
    exact hglobs _ hglob
  · -- a name below it: the glob of its subdomains matches whatever the other one matches
    rw [normalizeDomain_parsed hentry, normalizeDomain_parsed hpattern] at hfront
    have hmanaged : entryName pattern ≠ [] := by
      intro hnil
      rw [hnil] at hfront
      exact entryName_ne_concat entry front hfront
    refine List.any_eq_true.mpr ⟨subdomainGlob (entryName pattern), ?_, ?_⟩
    · rw [expand_plain hpattern.chars hmanaged]
      exact hcovers _
    · have hentryNamed := hentry.named
      have hchars : ∀ c ∈ entryName entry, isNameChar c = true ∧ asciiLower c = c :=
        normalizeDnsHost_chars hentry.chars
      rw [hfront] at hentryNamed hchars hglob
      exact globMatches_below hext hchars hentryNamed hlower hdot hglob hmatch

end CodexMonitor.NetworkProxy
