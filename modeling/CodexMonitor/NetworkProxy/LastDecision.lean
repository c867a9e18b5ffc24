import CodexMonitor.NetworkProxy.HostForms

namespace CodexMonitor.NetworkProxy

open Text

/-!
# Network proxy — the last decision about a host

A host that was denied or allowed at run time has one entry, in its form, and the patterns of
other hosts are as before.  A pattern whose form keeps blanks at its ends is enforced without
them, and is not found when its host is looked for.

* `Decided` — what a change of a list leaves behind; `updateDomainList_ok` — that it does.
* `isMatch_denySet_iff`, `isMatch_allowSet_iff` — the sets of a state, in terms of its patterns.
* `lastDecision_iff` — the decisions about all hosts after the change.
-/

variable {ext : Externals}

/-! ### The sets of a state -/

namespace ProxyState

variable (s : ProxyState ext)

def allowed : List Text := s.config.network.allowedDomains.getD []

def denied : List Text := s.config.network.deniedDomains.getD []

theorem isMatch_denySet_iff {host : Text} : ext.isMatch s.denySet host = true ↔
    ∃ pattern ∈ s.denied, ext.enforces pattern host = true :=
  Externals.isMatch_compiled_iff s.denyCompiled

theorem isMatch_allowSet_iff {host : Text} : ext.isMatch s.allowSet host = true ↔
    ∃ pattern ∈ s.allowed, ext.enforces pattern host = true :=
  Externals.isMatch_compiled_iff s.allowCompiled

/-- Where the set allows a host there is a list. -/
theorem allowedDomains_of_isMatch {host : Text} (h : ext.isMatch s.allowSet host = true) :
    s.config.network.allowedDomains.isNone = false := by
  obtain ⟨pattern, hpattern, -⟩ := s.isMatch_allowSet_iff.mp h
  unfold allowed at hpattern
  cases hlist : s.config.network.allowedDomains with
  | none =>
    rw [hlist] at hpattern
    cases hpattern
  | some list => rfl

end ProxyState

/-! ### What a change leaves behind -/

/-- The list of the decision. -/
def DomainListKind.list (target : DomainListKind) (s : ProxyState ext) : List Text :=
  target.entries s.config.network

/-- The other list. -/
def DomainListKind.opposite (target : DomainListKind) (s : ProxyState ext) : List Text :=
  target.oppositeEntries s.config.network

/-- **After a decision about a host** it has an entry in the list and none in the other one, the
    patterns of other hosts are as before, and so is local networking. -/
structure Decided (target : DomainListKind) (n : Text) (u : Updated ext) : Prop where
  listed : ∃ pattern ∈ target.list u.after, normalizeHost pattern = n
  unlisted : ∀ pattern ∈ target.opposite u.after, normalizeHost pattern ≠ n
  allowed : ∀ pattern, normalizeHost pattern ≠ n →
    (pattern ∈ u.after.allowed ↔ pattern ∈ u.before.allowed)
  denied : ∀ pattern, normalizeHost pattern ≠ n →
    (pattern ∈ u.after.denied ↔ pattern ∈ u.before.denied)
  local_eq : u.after.config.network.allowLocalBinding = u.before.config.network.allowLocalBinding

variable {target : DomainListKind} {n : Text} {u : Updated ext}

theorem decided_of_alreadyDecided {s : ProxyState ext}
    (h : alreadyDecided s.config target n = true) : Decided target n ⟨s, s⟩ := by
  unfold alreadyDecided at h
  rw [Bool.and_eq_true, List.any_eq_true, Bool.not_eq_true', List.any_eq_false] at h
  obtain ⟨⟨pattern, hpattern, heq⟩, hnone⟩ := h
  refine ⟨⟨pattern, hpattern, by simpa using heq⟩, ?_, fun _ _ => Iff.rfl, fun _ _ => Iff.rfl, rfl⟩
  intro pattern hpattern
  simpa using hnone pattern hpattern

theorem decided_of_updatedConfig (hn : normalizeHost n = n)
    (h : u.after.config = updatedConfig u.before.config target n) : Decided target n u := by
  have hmem : ∀ permission pattern,
      pattern ∈ (u.after.config.network.domainEntries permission).getD [] ↔
        if normalizeHost pattern = n then pattern = n ∧ permission = target.permission
        else pattern ∈ (u.before.config.network.domainEntries permission).getD [] := by
    intro permission pattern
    rw [h]
    exact NetworkProxySettings.mem_domainEntries_upsert _ hn
  have hother : ∀ permission pattern, normalizeHost pattern ≠ n →
      (pattern ∈ (u.after.config.network.domainEntries permission).getD [] ↔
        pattern ∈ (u.before.config.network.domainEntries permission).getD []) := by
    intro permission pattern hne
    rw [hmem, if_neg hne]
  have hlisted : n ∈ (u.after.config.network.domainEntries target.permission).getD [] := by
    rw [hmem, if_pos hn]
    exact ⟨rfl, rfl⟩
  have hunlisted : ∀ permission, permission ≠ target.permission →
      ∀ pattern ∈ (u.after.config.network.domainEntries permission).getD [],
        normalizeHost pattern ≠ n := by
    intro permission hne pattern hpattern heq
    rw [hmem, if_pos heq] at hpattern
    exact hne hpattern.2
  refine ⟨?_, ?_, hother .allow, hother .deny, ?_⟩
  · refine ⟨n, ?_, hn⟩
    cases target with
    | allow => exact hlisted
    | deny => exact hlisted
  · cases target with
    | allow => exact hunlisted .deny (by decide)
    | deny => exact hunlisted .allow (by decide)
  · rw [h]
    rfl

theorem nextState_some {authority : Option Nat} {s newState : ProxyState ext}
    (h : nextState authority n target s = .ok (some newState)) :
    newState.config = updatedConfig s.config target n := by
  unfold nextState at h
  split at h
  · cases Except.ok.inj h
  · obtain ⟨_, -, h⟩ := bind_eq_ok h
    obtain ⟨built, hbuilt, h⟩ := bind_eq_ok h
    have hconfig := buildProxyState_config (mapError_eq_ok hbuilt)
    obtain rfl := Option.some.inj (Except.ok.inj h)
    exact hconfig

theorem nextState_none {authority : Option Nat} {s : ProxyState ext}
    (h : nextState authority n target s = .ok none) :
    alreadyDecided s.config target n = true := by
  unfold nextState at h
  split at h
  · assumption
  · obtain ⟨_, -, h⟩ := bind_eq_ok h
    obtain ⟨built, hbuilt, h⟩ := bind_eq_ok h
    cases Except.ok.inj h

/-- **The loop stores the decision**, whatever the other tasks do between its turns. -/
theorem updateLoop_ok (hn : normalizeHost n = n) {turns : List (Turn ext)} {s : ProxyState ext}
    (h : updateLoop n target turns s = some (.ok u)) : Decided target n u := by
  induction turns generalizing s with
  | nil => cases h
  | cons turn turns ih =>
    unfold updateLoop at h
    split at h
    · cases Option.some.inj h
    next s hreload =>
      split at h
      · cases Option.some.inj h
      next hnext =>
        obtain rfl := Except.ok.inj (Option.some.inj h)
        exact decided_of_alreadyDecided (nextState_none hnext)
      next newState hnext =>
        dsimp only at h
        split at h
        · exact ih h
        next hsame =>
          obtain rfl := Except.ok.inj (Option.some.inj h)
          obtain ⟨-, hconfig⟩ := not_or.mp hsame
          apply decided_of_updatedConfig hn
          rw [nextState_some hnext, not_not.mp hconfig]

theorem updateDomainList_ok {host : Text} (hhost : HostText host) {turns : List (Turn ext)}
    {s : ProxyState ext} (h : updateDomainList host target turns s = some (.ok u)) :
    HostForm (normalizeHost host) ∧ Decided target (normalizeHost host) u := by
  unfold updateDomainList Host.parse at h
  split at h
  · cases Option.some.inj h
  next parsed hparsed =>
    split at hparsed
    next hne =>
      obtain rfl := Option.some.inj hparsed
      have hform := normalizeHost_form hhost hne
      exact ⟨hform, updateLoop_ok hform.normalizeHost h⟩
    next => cases hparsed

/-! ### The decisions about other hosts -/

section Others

variable {host : Text}

/-- The patterns of a host are not enforced for another one. -/
theorem exists_enforces_iff (hext : LiteralGlobs ext) (hform : HostForm n) {l l' : List Text}
    (hlists : ∀ pattern, normalizeHost pattern ≠ n → (pattern ∈ l' ↔ pattern ∈ l))
    (hlower : ∀ c ∈ host, asciiLower c = c) (hne : host ≠ n) :
    (∃ pattern ∈ l', ext.enforces pattern host = true) ↔
      ∃ pattern ∈ l, ext.enforces pattern host = true := by
  have hother : ∀ pattern, ext.enforces pattern host = true → normalizeHost pattern ≠ n := by
    rintro pattern henforces rfl
    exact hne ((enforces_of_form hext hform hlower).mp henforces).symm
  constructor
  · rintro ⟨pattern, hpattern, henforces⟩
    exact ⟨pattern, (hlists pattern (hother pattern henforces)).mp hpattern, henforces⟩
  · rintro ⟨pattern, hpattern, henforces⟩
    exact ⟨pattern, (hlists pattern (hother pattern henforces)).mpr hpattern, henforces⟩

theorem isExplicitLocalAllowlisted_of_mem {l l' : List Text}
    (hlists : ∀ pattern, normalizeHost pattern ≠ n → (pattern ∈ l ↔ pattern ∈ l')) (hne : host ≠ n)
    (h : isExplicitLocalAllowlisted l host = true) : isExplicitLocalAllowlisted l' host = true := by
  unfold isExplicitLocalAllowlisted at h ⊢
  rw [List.any_eq_true] at h ⊢
  obtain ⟨pattern, hpattern, hmatch⟩ := h
  refine ⟨pattern, (hlists pattern ?_).mp hpattern, hmatch⟩
  dsimp only at hmatch
  split at hmatch
  · cases hmatch
  split at hmatch
  · cases hmatch
  · rw [decide_eq_true_eq] at hmatch
    have hidem : normalizeHost pattern.trim = normalizeHost pattern := by
      unfold normalizeHost
      rw [show pattern.trim.trim = pattern.trim from trimBy_trimBy _ _]
    rw [← hidem, hmatch]
    exact hne

/-- The decision, from what the sets and the check of local networks say. -/
def decisionOf (denied blockedLocally allowed : Bool) : HostBlockDecision :=
  if denied then .blocked .denied
  else if blockedLocally then .blocked .notAllowedLocal
  else if allowed then .allowed
  else .blocked .notAllowed

theorem decisionOf_denied : ∀ denied blockedLocally allowed : Bool,
    decisionOf denied blockedLocally allowed = .blocked .denied ↔ denied = true := by decide

theorem decisionOf_allowed : ∀ denied blockedLocally : Bool,
    decisionOf denied blockedLocally true ≠ .blocked .notAllowed := by decide

theorem allowed_of_decisionOf : ∀ denied blockedLocally allowed : Bool,
    decisionOf denied blockedLocally allowed = .allowed → allowed = true := by decide

/-- **The decision in a state of the proxy** depends on its sets, on the names of its list and on
    local networking. -/
theorem decideHost_eq (resolver : Resolver) (s : ProxyState ext) (hne : normalizeHost host ≠ [])
    (port : UInt16) : decideHost ext resolver s.toConfigState host port =
      decisionOf (ext.isMatch s.denySet (normalizeHost host))
        (!s.config.network.allowLocalBinding &&
          (if resolver.isLocalLiteral (normalizeHost host) then
            !isExplicitLocalAllowlisted s.allowed (normalizeHost host)
          else resolver.hostResolvesToNonPublicIp (normalizeHost host) port))
        (ext.isMatch s.allowSet (normalizeHost host)) := by
  unfold decideHost Host.parse
  rw [dif_pos hne]
  show (if _ then _ else if _ then _ else if _ then _ else _) = _
  cases hallow : ext.isMatch s.allowSet (normalizeHost host) with
  | true =>
    rw [s.allowedDomains_of_isMatch hallow]
    rfl
  | false =>
    rw [Bool.not_false, Bool.or_true]
    rfl

/-- **The decisions about other hosts** are as before. -/
theorem Decided.decideHost_other (hext : LiteralGlobs ext) (hform : HostForm n)
    (h : Decided target n u) (resolver : Resolver) (hne : normalizeHost host ≠ n) (port : UInt16) :
    decideHost ext resolver u.after.toConfigState host port =
      decideHost ext resolver u.before.toConfigState host port := by
  by_cases hempty : normalizeHost host = []
  · unfold decideHost Host.parse
    rw [dif_neg (not_not.mpr hempty)]
  · have hlower : ∀ c ∈ normalizeHost host, asciiLower c = c := fun _ hc =>
      asciiLower_of_mem_normalizeHost hc
    have hdeny : ext.isMatch u.after.denySet (normalizeHost host) =
        ext.isMatch u.before.denySet (normalizeHost host) := by
      rw [Bool.eq_iff_iff, u.after.isMatch_denySet_iff, u.before.isMatch_denySet_iff]
      exact exists_enforces_iff hext hform h.denied hlower hne
    have hallow : ext.isMatch u.after.allowSet (normalizeHost host) =
        ext.isMatch u.before.allowSet (normalizeHost host) := by
      rw [Bool.eq_iff_iff, u.after.isMatch_allowSet_iff, u.before.isMatch_allowSet_iff]
      exact exists_enforces_iff hext hform h.allowed hlower hne
    have hexplicit : isExplicitLocalAllowlisted u.after.allowed (normalizeHost host) =
        isExplicitLocalAllowlisted u.before.allowed (normalizeHost host) := by
      rw [Bool.eq_iff_iff]
      exact ⟨isExplicitLocalAllowlisted_of_mem h.allowed hne,
        isExplicitLocalAllowlisted_of_mem (fun p hp => (h.allowed p hp).symm) hne⟩
    rw [decideHost_eq resolver _ hempty, decideHost_eq resolver _ hempty, hdeny, hallow,
      hexplicit, h.local_eq]

end Others

/-! ### The decision about the host -/

/-- A host of the deny list is denied. -/
theorem Decided.denied_host (hext : LiteralGlobs ext) (hform : HostForm n)
    (h : Decided .deny n u) : ext.isMatch u.after.denySet n = true := by
  obtain ⟨pattern, hpattern, rfl⟩ := h.listed
  have hlower : ∀ c ∈ normalizeHost pattern, asciiLower c = c := fun c hc => (hform.chars c hc).2
  exact u.after.isMatch_denySet_iff.mpr
    ⟨pattern, hpattern, (enforces_of_form hext hform hlower).mpr rfl⟩

/-- A host of the allow list is allowed by the set. -/
theorem Decided.allowed_host (hext : LiteralGlobs ext) (hform : HostForm n)
    (h : Decided .allow n u) : ext.isMatch u.after.allowSet n = true := by
  obtain ⟨pattern, hpattern, rfl⟩ := h.listed
  have hlower : ∀ c ∈ normalizeHost pattern, asciiLower c = c := fun c hc => (hform.chars c hc).2
  exact u.after.isMatch_allowSet_iff.mpr
    ⟨pattern, hpattern, (enforces_of_form hext hform hlower).mpr rfl⟩

/-- **No exact pattern denies an allowed host**, unless one was there whose form has blanks at its
    ends. -/
theorem Decided.exact_iff (hext : LiteralGlobs ext) (hform : HostForm n)
    (h : Decided .allow n u) :
    (∀ pattern ∈ u.after.denied, ExactPattern pattern → ext.enforces pattern n = false) ↔
      ∀ pattern ∈ u.before.denied, ExactPattern pattern → (normalizeHost pattern).trim = n →
        normalizeHost pattern = n := by
  have hlower : ∀ c ∈ n, asciiLower c = c := fun c hc => (hform.chars c hc).2
  constructor
  · intro hnone pattern hpattern hexact htrim
    by_contra hne
    have hafter := (h.denied pattern hne).mpr hpattern
    have henforces := (enforces_exact hext hexact hlower).mpr htrim
    rw [hnone pattern hafter hexact] at henforces
    cases henforces
  · intro hall pattern hpattern hexact
    rw [Bool.eq_false_iff]
    intro henforces
    have hne := h.unlisted pattern hpattern
    exact hne (hall pattern ((h.denied pattern hne).mp hpattern) hexact
      ((enforces_exact hext hexact hlower).mp henforces))

/-! ### The last decision -/

/-- The host is denied by patterns with wildcards, and by no exact one. -/
def DeniedByWildcards (s : ProxyState ext) (n : Text) : Prop :=
  (∃ pattern ∈ s.denied, ¬ ExactPattern pattern ∧ ext.enforces pattern n = true) ∧
    ∀ pattern ∈ s.denied, ExactPattern pattern → ext.enforces pattern n = false

/-- The decisions about the hosts with another form are the same in two states. -/
def SameForOthers (resolver : Resolver) (n : Text) (s s' : ProxyState ext) : Prop :=
  ∀ other port, normalizeHost other ≠ n →
    hostBlocked resolver (.ok none) s' other port = hostBlocked resolver (.ok none) s other port

theorem Decided.sameForOthers (hext : LiteralGlobs ext) (hform : HostForm n)
    (h : Decided target n u) (resolver : Resolver) :
    SameForOthers resolver n u.before u.after := by
  intro other port hne
  exact congrArg Except.ok (h.decideHost_other hext hform resolver hne port)

theorem hostBlocked_of_form {host spelled : Text} (resolver : Resolver) (s : ProxyState ext)
    (hform : HostForm (normalizeHost host)) (hsame : normalizeHost spelled = normalizeHost host)
    (port : UInt16) :
    (hostBlocked resolver (.ok none) s spelled port = .ok (.blocked .denied) ↔
      ext.isMatch s.denySet (normalizeHost host) = true) ∧
    (ext.isMatch s.allowSet (normalizeHost host) = true →
      hostBlocked resolver (.ok none) s spelled port ≠ .ok (.blocked .notAllowed)) := by
  have hne : normalizeHost spelled ≠ [] := by
    rw [hsame]
    exact hform.ne_nil
  have hdecide : hostBlocked resolver (.ok none) s spelled port =
      .ok (decideHost ext resolver s.toConfigState spelled port) := rfl
  rw [hdecide, decideHost_eq resolver s hne, hsame]
  constructor
  · rw [Except.ok.injEq]
    exact decisionOf_denied _ _ _
  · intro hallow heq
    rw [hallow] at heq
    exact decisionOf_allowed _ _ (Except.ok.inj heq)

/-- **The last decision about a host wins.**  After a host was denied every spelling of it is
    denied.  After it was allowed no spelling is refused as not allowed; it is denied by wildcards
    only, exactly if no exact pattern of the deny list is the host up to blanks that the form of the
    pattern has at its ends.  The decisions about other hosts stay the same. -/
theorem lastDecision_iff (hext : LiteralGlobs ext) (resolver : Resolver) {host : Text}
    (hhost : HostText host) (turns : List (Turn ext)) (s : ProxyState ext) :
    (∀ u, addDeniedDomain host turns s = some (.ok u) →
      (∀ spelled port, normalizeHost spelled = normalizeHost host →
        hostBlocked resolver (.ok none) u.after spelled port = .ok (.blocked .denied)) ∧
      SameForOthers resolver (normalizeHost host) u.before u.after) ∧
    (∀ u, addAllowedDomain host turns s = some (.ok u) →
      (∀ spelled port, normalizeHost spelled = normalizeHost host →
        hostBlocked resolver (.ok none) u.after spelled port ≠ .ok (.blocked .notAllowed)) ∧
      SameForOthers resolver (normalizeHost host) u.before u.after ∧
      ((∀ spelled port, normalizeHost spelled = normalizeHost host →
          hostBlocked resolver (.ok none) u.after spelled port = .ok (.blocked .denied) →
          DeniedByWildcards u.after (normalizeHost host)) ↔
        ∀ pattern ∈ u.before.denied, ExactPattern pattern →
          (normalizeHost pattern).trim = normalizeHost host →
            normalizeHost pattern = normalizeHost host)) := by
  constructor
  · intro u hadd
    obtain ⟨hform, hdecided⟩ := updateDomainList_ok hhost hadd
    refine ⟨fun spelled port hsame => ?_, hdecided.sameForOthers hext hform resolver⟩
    exact (hostBlocked_of_form resolver u.after hform hsame port).1.mpr
      (hdecided.denied_host hext hform)
  · intro u hadd
    obtain ⟨hform, hdecided⟩ := updateDomainList_ok hhost hadd
    refine ⟨fun spelled port hsame => ?_, hdecided.sameForOthers hext hform resolver, ?_⟩
    · exact (hostBlocked_of_form resolver u.after hform hsame port).2
        (hdecided.allowed_host hext hform)
    · rw [← hdecided.exact_iff hext hform]
      constructor
      · intro hwild pattern hpattern hexact
        rw [Bool.eq_false_iff]
        intro henforces
        have hdenied := (hostBlocked_of_form resolver u.after hform rfl 0).1.mpr
          (u.after.isMatch_denySet_iff.mpr ⟨pattern, hpattern, henforces⟩)
        have hnone := (hwild host 0 rfl hdenied).2 pattern hpattern hexact
        rw [henforces] at hnone
        cases hnone
      · intro hexact spelled port hsame hdenied
        obtain ⟨pattern, hpattern, henforces⟩ := u.after.isMatch_denySet_iff.mp
          ((hostBlocked_of_form resolver u.after hform hsame port).1.mp hdenied)
        refine ⟨⟨pattern, hpattern, fun h => ?_, henforces⟩, hexact⟩
        rw [hexact pattern hpattern h] at henforces
        cases henforces

/-! ### Two deny lists -/

/-- Globs for texts without glob characters. -/
def literalExternals : Externals where
  glob pattern := if pattern.any isGlobChar then none else some (eqIgnoreAsciiCase pattern)
  globSetBuilds _ := true
  urlHost := some

theorem literalExternals_globs : LiteralGlobs literalExternals := by
  intro glob hglob t
  have hnone : glob.any isGlobChar = false := by
    rw [List.any_eq_false]
    intro c hc
    rw [hglob c hc]
    decide
  show Option.any _ (if glob.any isGlobChar then none else some (eqIgnoreAsciiCase glob)) = _
  rw [hnone]
  rfl

/-- No text is an address, and every name is a public one. -/
def publicResolver : Resolver where
  parseIp _ := none
  lookupHost _ _ := some []

/-- The state in which one pattern is denied. -/
def denyingState (pattern form : Text) (h : literalExternals.compileDenylistGlobset
    ((NetworkProxySettings.deniedDomains { domains := some [⟨pattern, .deny⟩] }).getD []) =
      .ok ⟨[form]⟩) : ProxyState literalExternals where
  config := { network := { domains := some [⟨pattern, .deny⟩] } }
  allowSet := ⟨[]⟩
  denySet := ⟨[form]⟩
  mitm := none
  constraints := {}
  blocked := []
  blockedTotal := 0
  allowCompiled := rfl
  denyCompiled := h

/-- A blank before the port keeps the denial of a host that was allowed. -/
theorem blankBeforePort_denied : ∃ u, addAllowedDomain "example.com".toList [{}]
      (denyingState "example.com :443".toList "example.com".toList (by decide +kernel)) =
        some (.ok u) ∧
    hostBlocked publicResolver (.ok none) u.after "example.com".toList 443 =
      .ok (.blocked .denied) ∧
    ∀ pattern ∈ u.after.denied, ExactPattern pattern :=
  ⟨_, rfl, by decide +kernel, by decide +kernel⟩

/-- Without the blank the host is allowed. -/
theorem port_allowed : ∃ u, addAllowedDomain " Example.com.:80 ".toList [{}]
      (denyingState "example.com:443".toList "example.com".toList (by decide +kernel)) =
        some (.ok u) ∧
    ∀ port, hostBlocked publicResolver (.ok none) u.after "example.com".toList port ≠
      .ok (.blocked .notAllowed) := by
  have hhost : HostText " Example.com.:80 ".toList :=
    @HostBody.withPort "Example.com.".toList "80".toList (by decide +kernel) (by decide +kernel)
      (by decide +kernel)
  have hlast := (lastDecision_iff literalExternals_globs publicResolver hhost [{}]
    (denyingState "example.com:443".toList "example.com".toList (by decide +kernel))).2
  exact ⟨_, rfl, fun port => (hlast _ rfl).1 _ port (by decide +kernel)⟩

end CodexMonitor.NetworkProxy
