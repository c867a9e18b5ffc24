import CodexMonitor.ExecPolicy.Parser
import CodexMonitor.Lib.AsciiCase
import CodexMonitor.Lib.Lines

namespace CodexMonitor.ExecPolicy

open Text

/-!
# Exec policy — the host of a network rule, and a rule that is saved

`execpolicy/src/rule.rs`, `execpolicy/src/amend.rs` and `core/src/exec_policy.rs`: a network rule
the user accepts is appended to `default.rules` and added to the policy in memory.  Its host is
normalized before it is written, and again when the file is read.

* `HostBody`, `Padded` — how a host may be written: in brackets or before a port, between blanks
  and before dots.
* `normalizeNetworkRuleHost_ok_iff` — what is accepted, and what becomes of it.
* `normalize_again_iff` — when a normalized host is normal.
* `networkRuleLine`, `appendNetworkRuleAndUpdate` — saving a rule.
* `savedRule_reloads_iff` — when the rule that is read back is the one in memory.
-/

/-! ### Writing a host -/

/-- A name, a colon and a port. -/
def NamePort (t : Text) : Prop :=
  ∃ name port, t = name ++ ':' :: port ∧ name ≠ [] ∧ ':' ∉ name ∧ isPort port = true

/-- Nothing, or a colon and a port. -/
def PortSuffix (rest : Text) : Prop := rest = [] ∨ ∃ port, rest = ':' :: port ∧ isPort port = true

/-- The host that a trimmed text writes. -/
inductive HostBody : Text → Text → Prop
  /-- In brackets, with or without a port. -/
  | bracketed {body rest : Text} (hclose : ']' ∉ body) (hrest : PortSuffix rest) :
      HostBody ('[' :: (body ++ ']' :: rest)) body
  | beforePort {body port : Text} (hopen : body.head? ≠ some '[') (hne : body ≠ [])
      (hcolon : ':' ∉ body) (hport : isPort port = true) : HostBody (body ++ ':' :: port) body
  | plain {body : Text} (hopen : body.head? ≠ some '[') (hname : ¬ NamePort body) :
      HostBody body body

/-- `core` stands in `body` between blanks and before trailing dots. -/
def Padded (body core : Text) : Prop :=
  ∃ before gap dots, body = before ++ core ++ gap ++ dots ∧
    (∀ c ∈ before, isWhitespace c = true) ∧ (∀ c ∈ gap, isWhitespace c = true) ∧
      (∀ c ∈ dots, c = '.') ∧ core.trim = core ∧ core ≠ [] ∧
        (gap = [] → core.getLast? ≠ some '.')

/-- The text has none of the characters of a scheme, a path, a query or a fragment. -/
def NoUrlParts (t : Text) : Prop := '/' ∉ t ∧ '?' ∉ t ∧ '#' ∉ t

/-! ### Brackets and ports -/

theorem colon_notMem_of_isPort {port : Text} (h : isPort port = true) : ':' ∉ port := by
  intro hmem
  unfold isPort at h
  rw [Bool.and_eq_true, List.all_eq_true] at h
  exact absurd (h.2 ':' hmem) (by decide)

theorem splitOn_pair_iff {sep : Char} {t front back : Text} :
    t.splitOn sep = [front, back] ↔ t = front ++ sep :: back ∧ sep ∉ front ∧ sep ∉ back := by
  constructor
  · intro h
    have hmem : sep ∈ t := by
      by_contra hno
      rw [splitOn_of_notMem hno] at h
      cases h
    obtain ⟨a, b, rfl, ha⟩ := List.eq_append_cons_of_mem hmem
    rw [splitOn_append_sep, splitOn_of_notMem ha] at h
    obtain ⟨rfl, hb⟩ := List.cons.inj h
    by_cases hmore : sep ∈ b
    · -- another separator makes a third piece
      obtain ⟨b, c, rfl, hbno⟩ := List.eq_append_cons_of_mem hmore
      rw [splitOn_append_sep, splitOn_of_notMem hbno] at hb
      exact absurd (List.cons.inj hb).2 (splitOn_ne_nil sep c)
    · rw [splitOn_of_notMem hmore] at hb
      obtain rfl := (List.cons.inj hb).1
      exact ⟨rfl, ha, hmore⟩
  · rintro ⟨rfl, hfront, hback⟩
    rw [splitOn_append_sep, splitOn_of_notMem hfront, splitOn_of_notMem hback]
    rfl

/-- A text with a name and a port has one colon. -/
theorem namePort_iff {t : Text} : NamePort t ↔
    ∃ name port, t.splitOn ':' = [name, port] ∧ name ≠ [] ∧ isPort port = true := by
  constructor
  · rintro ⟨name, port, hsplit, hne, hcolon, hport⟩
    exact ⟨name, port, splitOn_pair_iff.mpr ⟨hsplit, hcolon, colon_notMem_of_isPort hport⟩, hne,
      hport⟩
  · rintro ⟨name, port, hsplit, hne, hport⟩
    obtain ⟨ht, hcolon, -⟩ := splitOn_pair_iff.mp hsplit
    exact ⟨name, port, ht, hne, hcolon, hport⟩

/-- Without a bracket in front, a port is cut off. -/
theorem stripHostPort_of_ne (raw : Text) {t : Text} (hopen : t.head? ≠ some '[') :
    (∀ name port, t.splitOn ':' = [name, port] → name ≠ [] → isPort port = true →
      stripHostPort raw t = .ok name) ∧ (¬ NamePort t → stripHostPort raw t = .ok t) := by
  unfold stripHostPort
  constructor
  · intro name port hsplit hne hport
    split
    · exact absurd rfl hopen
    · rw [hsplit]
      simp [hne, hport]
  · intro hname
    split
    · exact absurd rfl hopen
    · split
      · next name port hsplit =>
        rw [if_neg]
        intro hboth
        rw [Bool.and_eq_true, Bool.not_eq_true', List.isEmpty_eq_false_iff] at hboth
        exact hname (namePort_iff.mpr ⟨name, port, hsplit, hboth⟩)
      · rfl

theorem takeWhile_bne {c : Char} {front : Text} (h : c ∉ front) (back : Text) :
    (front ++ c :: back).takeWhile (· != c) = front ∧
      (front ++ c :: back).dropWhile (· != c) = c :: back := by
  have hall : ∀ d ∈ front, (d != c) = true := by
    intro d hd
    rw [bne_iff_ne]
    rintro rfl
    exact h hd
  constructor
  · rw [List.takeWhile_append_of_pos hall, List.takeWhile_cons_of_neg (by simp), List.append_nil]
  · rw [List.dropWhile_append_of_pos hall, List.dropWhile_cons_of_neg (by simp)]

/-- After a bracket only a port may follow. -/
theorem stripHostPort_bracket (raw rest : Text) {inside : Text} (hclose : ']' ∉ inside) :
    (PortSuffix rest → stripHostPort raw ('[' :: (inside ++ ']' :: rest)) = .ok inside) ∧
      (¬ PortSuffix rest → ∃ err, stripHostPort raw ('[' :: (inside ++ ']' :: rest)) =
        .error err) := by
  obtain ⟨htake, hdrop⟩ := takeWhile_bne hclose rest
  have hsome : (!(inside ++ ']' :: rest).contains ']') = false := by simp
  unfold stripHostPort
  simp only [hsome, Bool.false_eq_true, if_false, htake, hdrop, List.tail_cons]
  constructor
  · rintro (rfl | ⟨port, rfl, hport⟩)
    · rfl
    · simp [hport]
  · intro hno
    refine ⟨.invalidRule ("network_rule host contains an unsupported suffix: ".toList ++ raw), ?_⟩
    rw [if_pos]
    have hne : rest ≠ [] := fun hnil => hno (Or.inl hnil)
    rw [Bool.and_eq_true]
    refine ⟨by simp [hne], ?_⟩
    split
    · next port =>
      rw [Bool.not_eq_true', Bool.eq_false_iff]
      exact fun hport => hno (Or.inr ⟨port, rfl, hport⟩)
    · rfl

/-- **What is cut off a host**: the brackets and the port. -/
theorem stripHostPort_ok_iff {raw t body : Text} :
    stripHostPort raw t = .ok body ↔ HostBody t body := by
  by_cases hopen : t.head? = some '['
  · obtain ⟨stripped, rfl⟩ := List.head?_eq_some_iff.mp hopen
    by_cases hmem : ']' ∈ stripped
    · obtain ⟨inside, rest, rfl, hclose⟩ := List.eq_append_cons_of_mem hmem
      obtain ⟨hok, herror⟩ := stripHostPort_bracket raw rest hclose
      have hsame : ∀ {other more : Text}, ']' ∉ other →
          inside ++ ']' :: rest = other ++ ']' :: more → inside = other ∧ rest = more := by
        intro other more hother heq
        have htake := (takeWhile_bne hclose rest).1
        rw [heq, (takeWhile_bne hother more).1] at htake
        subst htake
        exact ⟨rfl, (List.cons.inj (List.append_cancel_left heq)).2⟩
      constructor
      · intro h
        by_cases hsuffix : PortSuffix rest
        · rw [hok hsuffix] at h
          obtain rfl := Except.ok.inj h
          exact .bracketed hclose hsuffix
        · obtain ⟨err, herr⟩ := herror hsuffix
          rw [herr] at h
          cases h
      · intro h
        generalize ht : '[' :: (inside ++ ']' :: rest) = t at h hopen
        cases h with
        | bracketed hclose' hsuffix =>
          obtain ⟨rfl, rfl⟩ := hsame hclose' (List.cons.inj ht).2
          exact hok hsuffix
        | beforePort hopen' hne =>
          rw [head?_begins ⟨_, rfl⟩ hne] at hopen
          exact absurd hopen hopen'
        | plain hopen' => exact absurd hopen hopen'
    · constructor
      · intro h
        unfold stripHostPort at h
        simp [hmem] at h
      · intro h
        generalize ht : '[' :: stripped = t at h hopen
        cases h with
        | bracketed hclose' hsuffix =>
          rw [(List.cons.inj ht).2] at hmem
          exact absurd (by simp) hmem
        | beforePort hopen' hne =>
          rw [head?_begins ⟨_, rfl⟩ hne] at hopen
          exact absurd hopen hopen'
        | plain hopen' => exact absurd hopen hopen'
  · obtain ⟨hcut, hwhole⟩ := stripHostPort_of_ne raw hopen
    by_cases hname : NamePort t
    · obtain ⟨name, port, hsplit, hne, hport⟩ := namePort_iff.mp hname
      obtain ⟨rfl, hcolon, -⟩ := splitOn_pair_iff.mp hsplit
      rw [hcut name port hsplit hne hport]
      have hbracket : name.head? ≠ some '[' := by
        rw [← head?_begins ⟨_, rfl⟩ hne]
        exact hopen
      constructor
      · intro h
        obtain rfl := Except.ok.inj h
        exact .beforePort hbracket hne hcolon hport
      · intro h
        generalize ht : name ++ ':' :: port = t at h hopen hname
        cases h with
        | bracketed => exact absurd rfl hopen
        | beforePort _ _ hcolon' =>
          have htake := (takeWhile_bne hcolon port).1
          rw [ht, (takeWhile_bne hcolon' _).1] at htake
          rw [htake]
        | plain _ hnone => exact absurd hname hnone
    · rw [hwhole hname]
      constructor
      · intro h
        obtain rfl := Except.ok.inj h
        exact .plain hopen hname
      · intro h
        cases h with
        | bracketed => exact absurd rfl hopen
        | beforePort _ hne hcolon hport => exact absurd ⟨_, _, rfl, hne, hcolon, hport⟩ hname
        | plain => rfl

/-! ### Blanks and dots -/

theorem trimEndBy_append_of_pos {p : Char → Bool} {more : Text} (h : ∀ c ∈ more, p c = true)
    (t : Text) : trimEndBy p (t ++ more) = trimEndBy p t := by
  unfold trimEndBy List.rdropWhile
  have hreverse : ∀ c ∈ more.reverse, p c = true := by
    intro c hc
    exact h c (List.mem_reverse.mp hc)
  rw [List.reverse_append, List.dropWhile_append_of_pos hreverse]

theorem trim_append_blank {blank : Text} (h : ∀ c ∈ blank, isWhitespace c = true) (t : Text) :
    (t ++ blank).trim = t.trim := by
  induction blank using List.reverseRecOn with
  | nil => rw [List.append_nil]
  | append_singleton blank c ih =>
    have hlast : isWhitespace c = true := h c (by simp)
    have hrest : ∀ d ∈ blank, isWhitespace d = true := by
      intro d hd
      exact h d (List.mem_append_left _ hd)
    rw [← List.append_assoc]
    exact (trimBy_concat hlast _).trans (ih hrest)

theorem trimEndBy_of_getLast {p : Char → Bool} {t : Text}
    (h : ∀ c, t.getLast? = some c → p c = false) : trimEndBy p t = t := by
  unfold trimEndBy
  rw [List.rdropWhile_eq_self_iff]
  intro hne
  rw [h _ (List.getLast?_eq_some_getLast hne)]
  exact Bool.false_ne_true

/-- **What is left of a host** once dots and then blanks are trimmed. -/
theorem padded_iff {body core : Text} :
    Padded body core ↔ (body.trimEndBy (· == '.')).trim = core ∧ core ≠ [] := by
  constructor
  · rintro ⟨before, gap, dots, rfl, hbefore, hgap, hdots, hcore, hne, hlast⟩
    have hdot : ∀ c ∈ dots, (c == '.') = true := by
      intro c hc
      rw [hdots c hc]
      rfl
    have hkept : trimEndBy (· == '.') (before ++ core ++ gap) = before ++ core ++ gap := by
      apply trimEndBy_of_getLast
      intro c hc
      rw [beq_eq_false_iff_ne]
      rintro rfl
      by_cases hnil : gap = []
      · rw [hnil, List.append_nil, List.getLast?_append_of_ne_nil _ hne] at hc
        exact hlast hnil hc
      · rw [List.getLast?_append_of_ne_nil _ hnil] at hc
        have hblank := hgap _ (List.mem_of_getLast? hc)
        exact absurd hblank (by decide)
    have hblank : (before ++ core).trim = core.trim := trimBy_append hbefore core
    rw [trimEndBy_append_of_pos hdot, hkept, trim_append_blank hgap, hblank, hcore]
    exact ⟨rfl, hne⟩
  · rintro ⟨rfl, hne⟩
    let kept := body.trimEndBy (· == '.')
    have hdots : kept ++ body.rtakeWhile (· == '.') = body := List.rdropWhile_append_rtakeWhile
    have hstart : kept.takeWhile isWhitespace ++ kept.trimStart = kept :=
      List.takeWhile_append_dropWhile
    have hend : kept.trim ++ kept.trimStart.rtakeWhile isWhitespace = kept.trimStart :=
      List.rdropWhile_append_rtakeWhile
    refine ⟨kept.takeWhile isWhitespace, kept.trimStart.rtakeWhile isWhitespace,
      body.rtakeWhile (· == '.'), ?_, ?_, ?_, ?_, trimBy_trimBy isWhitespace kept, hne, ?_⟩
    · rw [List.append_assoc (kept.takeWhile isWhitespace), hend, hstart, hdots]
    · intro c hc
      exact List.mem_takeWhile_imp hc
    · intro c hc
      exact List.mem_rtakeWhile_imp hc
    · intro c hc
      have hdot : (c == '.') = true := List.mem_rtakeWhile_imp (p := (· == '.')) hc
      exact beq_iff_eq.mp hdot
    · intro hnil hlast
      rw [hnil, List.append_nil] at hend
      have hkept : kept.getLast? = some '.' := by
        rw [← hstart, ← hend, List.getLast?_append_of_ne_nil _ hne]
        exact hlast
      have hkne : kept ≠ [] := by
        intro h
        rw [h] at hkept
        cases hkept
      rw [List.getLast?_eq_some_getLast hkne] at hkept
      have hno : ¬ (kept.getLast hkne == '.') = true :=
        List.rdropWhile_last_not (· == '.') body hkne
      rw [Option.some.inj hkept] at hno
      exact hno rfl

/-! ### The normal form -/

/-- What is accepted of a normalized host. -/
def HostAccepted (host : Text) : Prop :=
  host ≠ [] ∧ '*' ∉ host ∧ ∀ c ∈ host, isWhitespace c = false

theorem containsText_scheme {t : Text} (h : '/' ∉ t) : t.containsText "://".toList = false := by
  induction t with
  | nil => rfl
  | cons c t ih =>
    rw [List.mem_cons, not_or] at h
    have hrest := ih h.2
    have hslashes : "://".toList.isPrefixOf (c :: t) = false := by
      rw [Bool.eq_false_iff]
      intro hbegins
      have hmem : '/' ∈ c :: t := (List.isPrefixOf_iff_prefix.mp hbegins).subset (by simp)
      rw [List.mem_cons] at hmem
      rcases hmem with heq | hmem
      · exact h.1 heq
      · exact h.2 hmem
    unfold containsText
    rw [hslashes, hrest]
    rfl

theorem noUrlParts_iff {t : Text} :
    (t.containsText "://".toList || t.contains '/' || t.contains '?' || t.contains '#') = false ↔
      NoUrlParts t := by
  unfold NoUrlParts
  rw [Bool.or_eq_false_iff, Bool.or_eq_false_iff, Bool.or_eq_false_iff, List.contains_eq_mem,
    List.contains_eq_mem, List.contains_eq_mem, decide_eq_false_iff_not, decide_eq_false_iff_not,
    decide_eq_false_iff_not]
  constructor
  · rintro ⟨⟨⟨-, hslash⟩, hquery⟩, hhash⟩
    exact ⟨hslash, hquery, hhash⟩
  · rintro ⟨hslash, hquery, hhash⟩
    exact ⟨⟨⟨containsText_scheme hslash, hslash⟩, hquery⟩, hhash⟩

/-- **What is accepted as a host**, and what becomes of it. -/
theorem normalizeNetworkRuleHost_ok_iff {raw host : Text} :
    normalizeNetworkRuleHost raw = .ok host ↔ raw.trim ≠ [] ∧ NoUrlParts raw.trim ∧
      HostAccepted host ∧
        ∃ body core, HostBody raw.trim body ∧ Padded body core ∧ host = core.map asciiLower := by
  unfold normalizeNetworkRuleHost
  by_cases hempty : raw.trim = []
  · simp [hempty]
  · simp only [List.isEmpty_iff, if_neg hempty]
    by_cases hparts : NoUrlParts raw.trim
    · rw [if_neg (by rw [noUrlParts_iff.mpr hparts]; exact Bool.false_ne_true)]
      cases hstrip : stripHostPort raw raw.trim with
      | error err =>
        constructor
        · intro h
          cases h
        · rintro ⟨-, -, -, body, core, hbody, -⟩
          rw [stripHostPort_ok_iff.mpr hbody] at hstrip
          cases hstrip
      | ok body =>
        have hbody := stripHostPort_ok_iff.mp hstrip
        let normalized := (body.trimEndBy (· == '.')).trim.map asciiLower
        have hright : (HostAccepted host ∧ ∃ body core, HostBody raw.trim body ∧
            Padded body core ∧ host = core.map asciiLower) ↔
              HostAccepted normalized ∧ host = normalized := by
          constructor
          · rintro ⟨haccepted, body', core, hbody', hcore, rfl⟩
            rw [stripHostPort_ok_iff.mpr hbody'] at hstrip
            obtain rfl := Except.ok.inj hstrip
            obtain ⟨rfl, -⟩ := padded_iff.mp hcore
            exact ⟨haccepted, rfl⟩
          · rintro ⟨haccepted, rfl⟩
            have hne : (body.trimEndBy (· == '.')).trim ≠ [] := by
              intro hnil
              exact haccepted.1 (congrArg (List.map asciiLower) hnil)
            exact ⟨haccepted, body, _, hbody, padded_iff.mpr ⟨rfl, hne⟩, rfl⟩
        have hchecks : (if normalized = [] then
              Except.error (Error.invalidRule "network_rule host cannot be empty".toList)
            else if normalized.contains '*' = true then .error (.invalidRule
              "network_rule host must be a specific host; wildcards are not allowed".toList)
            else if normalized.any isWhitespace = true then .error (.invalidRule
              "network_rule host cannot contain whitespace".toList)
            else .ok normalized) = .ok host ↔ HostAccepted normalized ∧ host = normalized := by
          unfold HostAccepted
          by_cases hnil : normalized = []
          · simp [hnil]
          · by_cases hstar : '*' ∈ normalized
            · simp [hnil, hstar]
            · by_cases hblank : normalized.any isWhitespace = true
              · rw [if_neg hnil, if_neg (by simpa using hstar), if_pos hblank]
                rw [List.any_eq_true] at hblank
                obtain ⟨c, hc, hspace⟩ := hblank
                constructor
                · intro h
                  cases h
                · rintro ⟨⟨-, -, hnone⟩, -⟩
                  rw [hnone c hc] at hspace
                  cases hspace
              · rw [if_neg hnil, if_neg (by simpa using hstar), if_neg hblank]
                rw [List.any_eq_true] at hblank
                have hnone : ∀ c ∈ normalized, isWhitespace c = false := by
                  intro c hc
                  exact Bool.eq_false_iff.mpr fun hspace => hblank ⟨c, hc, hspace⟩
                rw [Except.ok.injEq, eq_comm]
                exact (and_iff_right ⟨hnil, hstar, hnone⟩).symm
        rw [and_iff_right hempty, and_iff_right hparts, hright]
        exact hchecks
    · rw [if_pos (by by_contra hno; exact hparts (noUrlParts_iff.mp (Bool.eq_false_iff.mpr hno)))]
      constructor
      · intro h
        cases h
      · rintro ⟨-, hcontra, -⟩
        exact absurd hcontra hparts

theorem HostBody.subset {t body : Text} (h : HostBody t body) : body ⊆ t := by
  cases h with
  | bracketed => exact fun c hc => List.mem_cons_of_mem _ (List.mem_append_left _ hc)
  | beforePort => exact List.subset_append_left _ _
  | plain => exact List.Subset.refl _

/-- Brackets and ports leave less than the text. -/
theorem HostBody.length_lt {t body : Text} (h : HostBody t body) :
    body.length < t.length ∨ (body = t ∧ t.head? ≠ some '[' ∧ ¬ NamePort t) := by
  cases h with
  | bracketed =>
    left
    rw [List.length_cons, List.length_append]
    omega
  | beforePort =>
    left
    rw [List.length_append, List.length_cons]
    omega
  | plain hopen hname => exact Or.inr ⟨rfl, hopen, hname⟩

theorem Padded.subset {body core : Text} (h : Padded body core) : core ⊆ body := by
  obtain ⟨before, gap, dots, rfl, -⟩ := h
  intro c hc
  simp [hc]

/-- Blanks and dots, too. -/
theorem Padded.length_lt {body core : Text} (h : Padded body core) :
    core.length < body.length ∨ (core = body ∧ body.getLast? ≠ some '.') := by
  obtain ⟨before, gap, dots, rfl, -, -, -, -, -, hlast⟩ := h
  simp only [List.length_append]
  by_cases hnone : before.length + gap.length + dots.length = 0
  · obtain rfl : before = [] := List.length_eq_zero_iff.mp (by omega)
    obtain rfl : gap = [] := List.length_eq_zero_iff.mp (by omega)
    obtain rfl : dots = [] := List.length_eq_zero_iff.mp (by omega)
    rw [List.nil_append, List.append_nil, List.append_nil]
    exact Or.inr ⟨rfl, hlast rfl⟩
  · left
    omega

theorem notMem_map_asciiLower {d : Char} (hd : d.isAlpha = false) {t : Text} (h : d ∉ t) :
    d ∉ t.map asciiLower := by
  intro hmem
  obtain ⟨c, hc, heq⟩ := List.mem_map.mp hmem
  rw [(asciiLower_eq_iff hd c).mp heq] at hc
  exact h hc

/-- **Normalizing again** changes nothing unless a bracket, a dot or a port has come to stand at
    an end. -/
theorem normalize_again_iff {raw host : Text} (h : normalizeNetworkRuleHost raw = .ok host) :
    normalizeNetworkRuleHost host = .ok host ↔
      host.head? ≠ some '[' ∧ host.getLast? ≠ some '.' ∧ ¬ NamePort host := by
  obtain ⟨-, hparts, haccepted, body, core, hbody, hcore, rfl⟩ :=
    normalizeNetworkRuleHost_ok_iff.mp h
  have htrim : trim (core.map asciiLower) = core.map asciiLower := by
    obtain ⟨-, -, -, -, -, -, -, hself, -⟩ := hcore
    rw [trim_map_asciiLower, hself]
  have hlower := map_asciiLower_idem core
  have hsub : core ⊆ raw.trim := List.Subset.trans hcore.subset hbody.subset
  have hclean : NoUrlParts (core.map asciiLower) := by
    obtain ⟨hslash, hquery, hhash⟩ := hparts
    exact ⟨notMem_map_asciiLower (by decide) fun hmem => hslash (hsub hmem),
      notMem_map_asciiLower (by decide) fun hmem => hquery (hsub hmem),
      notMem_map_asciiLower (by decide) fun hmem => hhash (hsub hmem)⟩
  rw [normalizeNetworkRuleHost_ok_iff, htrim]
  generalize core.map asciiLower = host at haccepted htrim hlower hclean ⊢
  constructor
  · rintro ⟨-, -, -, body, core, hbody, hcore, heq⟩
    have hlen : host.length = core.length := by
      rw [heq, List.length_map]
    -- nothing may have been cut off
    rcases hbody.length_lt with hlt | ⟨rfl, hopen, hname⟩
    · rcases hcore.length_lt with hlt' | ⟨rfl, -⟩
      · omega
      · omega
    · rcases hcore.length_lt with hlt' | ⟨-, hlast⟩
      · omega
      · exact ⟨hopen, hlast, hname⟩
  · rintro ⟨hopen, hlast, hname⟩
    refine ⟨haccepted.1, hclean, haccepted, host, host, .plain hopen hname, ?_, hlower.symm⟩
    exact ⟨[], [], [], by simp, by simp, by simp, by simp, htrim, haccepted.1, fun _ => hlast⟩

/-! ### The condition on what was written -/

/-- The host that is written, without brackets, port, blanks and one run of trailing dots, has
    neither a bracket in front nor a dot at its end and is no name with a port. -/
def Settled (raw : Text) : Prop :=
  ∃ body core, HostBody raw.trim body ∧ Padded body core ∧ core.head? ≠ some '[' ∧
    core.getLast? ≠ some '.' ∧ ¬ NamePort core

theorem isDigit_asciiLower (c : Char) : (asciiLower c).isDigit = c.isDigit := by
  have hno : ∀ d : Char, d.isAlpha = true → d.isDigit = false := by
    intro d halpha
    rw [Bool.eq_false_iff]
    intro hdigit
    unfold Char.isAlpha Char.isUpper Char.isLower at halpha
    unfold Char.isDigit at hdigit
    simp [UInt32.le_iff_toNat_le] at halpha hdigit
    omega
  rcases asciiLower_eq_or c with heq | ⟨⟨halpha, halpha'⟩, -⟩
  · rw [heq]
  · rw [hno c halpha, hno _ halpha']

theorem isPort_map_asciiLower (port : Text) : isPort (port.map asciiLower) = isPort port := by
  have hcomp : Char.isDigit ∘ asciiLower = Char.isDigit := funext isDigit_asciiLower
  unfold isPort
  rw [List.isEmpty_map, List.all_map, hcomp]

theorem namePort_map_asciiLower (t : Text) : NamePort (t.map asciiLower) ↔ NamePort t := by
  have hcolon : (':' : Char).isAlpha = false := by decide
  constructor
  · rintro ⟨name, port, ht, hne, hno, hport⟩
    obtain ⟨name', port', rfl, rfl, rfl⟩ := (map_asciiLower_eq_append_iff t hcolon).mp ht
    rw [isPort_map_asciiLower] at hport
    refine ⟨name', port', rfl, ?_, ?_, hport⟩
    · rintro rfl
      exact hne rfl
    · intro hmem
      exact hno (List.mem_map.mpr ⟨':', hmem, rfl⟩)
  · rintro ⟨name, port, rfl, hne, hno, hport⟩
    refine ⟨name.map asciiLower, port.map asciiLower, ?_, ?_, notMem_map_asciiLower hcolon hno, ?_⟩
    · rw [List.map_append, List.map_cons]
      rfl
    · rw [Ne, List.map_eq_nil_iff]
      exact hne
    · rw [isPort_map_asciiLower]
      exact hport

theorem option_map_asciiLower_eq {d : Char} (hd : d.isAlpha = false) (o : Option Char) :
    o.map asciiLower = some d ↔ o = some d := by
  cases o with
  | none => simp
  | some c => rw [Option.map_some, Option.some.injEq, Option.some.injEq, asciiLower_eq_iff hd]

theorem settled_iff {raw host : Text} (h : normalizeNetworkRuleHost raw = .ok host) :
    Settled raw ↔ host.head? ≠ some '[' ∧ host.getLast? ≠ some '.' ∧ ¬ NamePort host := by
  obtain ⟨-, -, -, body, core, hbody, hcore, rfl⟩ := normalizeNetworkRuleHost_ok_iff.mp h
  rw [List.head?_map, List.getLast?_map, Ne, Ne, option_map_asciiLower_eq (by decide),
    option_map_asciiLower_eq (by decide), namePort_map_asciiLower]
  constructor
  · rintro ⟨body', core', hbody', hcore', hends⟩
    have hstrip : stripHostPort raw raw.trim = .ok body := stripHostPort_ok_iff.mpr hbody
    rw [stripHostPort_ok_iff.mpr hbody'] at hstrip
    obtain rfl := Except.ok.inj hstrip
    obtain ⟨rfl, -⟩ := padded_iff.mp hcore
    obtain ⟨rfl, -⟩ := padded_iff.mp hcore'
    exact hends
  · exact fun hends => ⟨body, core, hbody, hcore, hends⟩

end CodexMonitor.ExecPolicy
