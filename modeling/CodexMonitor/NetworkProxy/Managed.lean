import CodexMonitor.NetworkProxy.LastDecision
import CodexMonitor.NetworkProxy.Runtime

namespace CodexMonitor.NetworkProxy

open Text

/-!
# Network proxy — managed constraints hold in every state

Whatever is added, reloaded or replaced, and in whatever order the accesses take place, the
configuration validates against the constraints that are stored with it, and a host that a managed
pattern denies is denied. An allowlist that may not be expanded stays within the managed one.

* `validate_ok_iff` — a configuration validates exactly if it passes every check.
* `Validated.setMode` — the mode may be patched if it passes its own check.
* `Managed` — what holds in every state; `managed_reachable` — that it does.
* `allowed_within_managed` — a host that is allowed is one that a managed pattern is enforced for.
-/

variable {ext : Externals}

/-! ### The checks, one by one -/

theorem seq_ok_iff {first rest : Checked} :
    (first >>= fun _ => rest) = .ok () ↔ first = .ok () ∧ rest = .ok () := by
  constructor
  · intro h
    obtain ⟨_, hfirst, hrest⟩ := bind_eq_ok h
    exact ⟨hfirst, hrest⟩
  · rintro ⟨rfl, hrest⟩
    exact hrest

/-- **A configuration validates** exactly if it passes every check. -/
theorem validate_ok_iff (config : NetworkProxyConfig) (constraints : NetworkProxyConstraints) :
    validatePolicyAgainstConstraints ext config constraints = .ok () ↔
      validateNonGlobalWildcardDomainPatterns "network.denied_domains".toList
          (config.network.deniedDomains.getD []) = .ok () ∧
        validateSwitch "network.enabled".toList (constraints.enabled.getD true)
          config.network.enabled = .ok () ∧
        validateMode constraints.mode config.network.mode = .ok () ∧
        validateSwitch "network.allow_upstream_proxy".toList
          (constraints.allowUpstreamProxy.getD true) config.network.allowUpstreamProxy = .ok () ∧
        validateSwitch "network.dangerously_allow_non_loopback_proxy".toList
          (constraints.dangerouslyAllowNonLoopbackProxy.getD true)
          config.network.dangerouslyAllowNonLoopbackProxy = .ok () ∧
        validateSwitch "network.dangerously_allow_all_unix_sockets".toList
          (constraints.dangerouslyAllowAllUnixSockets.getD constraints.allowUnixSockets.isNone)
          config.network.dangerouslyAllowAllUnixSockets = .ok () ∧
        validateSwitch "network.allow_local_binding".toList
          (constraints.allowLocalBinding.getD true) config.network.allowLocalBinding = .ok () ∧
        validateAllowedDomains ext constraints.allowedDomains
          constraints.allowlistExpansionEnabled (config.network.allowedDomains.getD [])
          (config.network.deniedDomains.getD []) = .ok () ∧
        validateDeniedDomains constraints.deniedDomains constraints.denylistExpansionEnabled
          (config.network.deniedDomains.getD []) = .ok () ∧
        validateAllowUnixSockets constraints.allowUnixSockets
          config.network.allowUnixSockets = .ok () := by
  unfold validatePolicyAgainstConstraints
  simp only [seq_ok_iff]

/-- The configuration of a state validates against the constraints stored with it. -/
def Validated (s : ProxyState ext) : Prop :=
  validatePolicyAgainstConstraints ext s.config s.constraints = .ok ()

/-- What else a state holds does not matter. -/
theorem Validated.of_config {s s' : ProxyState ext} (h : Validated s) (hconfig : s'.config = s.config)
    (hconstraints : s'.constraints = s.constraints) : Validated s' := by
  unfold Validated at h ⊢
  rwa [hconfig, hconstraints]

/-- The check of the mode is the only one that looks at the mode. -/
theorem Validated.setMode {s : ProxyState ext} {mode : NetworkMode} (h : Validated s)
    (hmode : validateMode s.constraints.mode mode = .ok ()) : Validated (s.setMode mode) := by
  obtain ⟨hdenied, henabled, -, hrest⟩ := (validate_ok_iff _ _).mp h
  exact (validate_ok_iff _ _).mpr ⟨hdenied, henabled, hmode, hrest⟩

theorem validateMode_of_candidate {s : ProxyState ext} {mode : NetworkMode}
    (h : validatePolicyAgainstConstraints ext (s.setMode mode).config s.constraints = .ok ()) :
    validateMode s.constraints.mode mode = .ok () :=
  ((validate_ok_iff _ _).mp h).2.2.1

theorem buildProxyState_constraints {authority : Option Nat} {config : NetworkProxyConfig}
    {constraints : NetworkProxyConstraints} {s : ProxyState ext}
    (h : buildProxyState ext authority config constraints = .ok s) :
    s.config = config ∧ s.constraints = constraints := by
  unfold buildProxyState at h
  split at h
  · cases h
  next built hbuilt =>
    obtain rfl := Except.ok.inj h
    exact ⟨(compiled_of_build hbuilt).1, (compiled_of_build hbuilt).2.1⟩

/-- A state with a changed list was validated, against the constraints that were read. -/
theorem validated_of_nextState {authority : Option Nat} {host : Text} {target : DomainListKind}
    {s newState : ProxyState ext} (h : nextState authority host target s = .ok (some newState)) :
    newState.constraints = s.constraints ∧ Validated newState := by
  unfold nextState at h
  split at h
  · cases h
  · obtain ⟨_, hvalid, h⟩ := bind_eq_ok h
    obtain ⟨built, hbuilt, h⟩ := bind_eq_ok h
    obtain rfl := Option.some.inj (Except.ok.inj h)
    obtain ⟨hconfig, hconstraints⟩ := buildProxyState_constraints (mapError_eq_ok hbuilt)
    refine ⟨hconstraints, ?_⟩
    show validatePolicyAgainstConstraints ext built.config built.constraints = .ok ()
    rw [hconfig, hconstraints]
    exact mapError_eq_ok hvalid

/-! ### Denied hosts -/

/-- A pattern is enforced as any other spelling of it. -/
theorem enforces_of_lowered {pattern spelled : Text} (host : Text)
    (h : spelled.map asciiLower = pattern.map asciiLower) :
    ext.enforces spelled host = ext.enforces pattern host := by
  unfold Externals.enforces
  rw [← normalizePattern_map_asciiLower spelled, h, normalizePattern_map_asciiLower]

/-- The managed patterns are in the list of a configuration that validates. -/
theorem mem_lowered_of_validateDeniedDomains {managed candidate : List Text}
    {expansion : Option Bool}
    (h : validateDeniedDomains (some managed) expansion candidate = .ok ()) {pattern : Text}
    (hpattern : pattern ∈ managed) : ∃ spelled ∈ candidate,
      spelled.map asciiLower = pattern.map asciiLower := by
  have hlowered : pattern.map asciiLower ∈ lowered managed := List.mem_map_of_mem hpattern
  suffices pattern.map asciiLower ∈ lowered candidate from List.mem_map.mp this
  unfold validateDeniedDomains at h
  obtain ⟨_, -, h⟩ := bind_eq_ok h
  split at h
  · split at h
    next hsame =>
      have hall := (Bool.and_eq_true_iff.mp hsame).2
      exact of_decide_eq_true (List.all_eq_true.mp hall _ hlowered)
    next => cases h
  · dsimp only at h
    split at h
    next hmissing =>
      by_contra hnot
      have hmem : pattern.map asciiLower ∈
          missingEntries (lowered managed) fun entry => entry ∈ lowered candidate := by
        refine List.mem_filter.mpr ⟨List.mem_dedup.mpr hlowered, ?_⟩
        simpa using hnot
      rw [List.isEmpty_iff.mp hmissing] at hmem
      cases hmem
    next => cases h

/-- **A host that a managed pattern denies is denied**, and no decider is asked. -/
theorem Validated.denies {s : ProxyState ext} (h : Validated s) {managed : List Text}
    (hmanaged : s.constraints.deniedDomains = some managed) {pattern raw : Text} {host : Host}
    (hpattern : pattern ∈ managed) (hparse : Host.parse raw = some host)
    (henforces : ext.enforces pattern host.asStr = true) (resolver : Resolver) (port : UInt16) :
    decideHost ext resolver s.toConfigState raw port = .blocked .denied := by
  have hchecks := (validate_ok_iff _ _).mp h
  have hdenied := hchecks.2.2.2.2.2.2.2.2.1
  rw [hmanaged] at hdenied
  obtain ⟨spelled, hspelled, hlower⟩ := mem_lowered_of_validateDeniedDomains hdenied hpattern
  have hmatch : ext.isMatch s.denySet host.asStr = true :=
    s.isMatch_denySet_iff.mpr ⟨spelled, hspelled, (enforces_of_lowered _ hlower).trans henforces⟩
  unfold decideHost
  rw [hparse]
  exact if_pos hmatch

/-! ### Every state -/

/-- The states that are given to an operation validate. -/
def Call.Incoming : Call ext → Prop
  | .replaceConfigState newState => Validated newState
  | _ => True

/-- The states that come from outside validate. -/
def Action.Incoming : Action ext → Prop
  | .call _ operation => operation.Incoming
  | .answer _ (.ok (some newState)) => Validated newState
  | _ => True

/-- What an operation has in its hands validates, and so does what it will write. -/
def Task.Valid : Task ext → Prop
  | .reloading call => call.Incoming
  | .loaded call newState => call.Incoming ∧ Validated newState
  | .carrying call newState => call.Incoming ∧ Validated newState
  | .reloaded call => call.Incoming
  | .forced newState => Validated newState
  | .settingMode mode constraints => validateMode constraints.mode mode = .ok ()
  | .storing _ _ _ constraints newState =>
      newState.constraints = constraints ∧ Validated newState
  | _ => True

/-- The state validates, and so will what is written later. -/
structure RuntimeValid (s : Runtime ext) : Prop where
  state : Validated s.state
  tasks : s.tasks.Each fun _ task => task.Valid

variable {s s' : Runtime ext} {i : Nat} {task : Task ext} {state : ProxyState ext}

namespace RuntimeValid

theorem setTask (h : RuntimeValid s) (htask : task.Valid) : RuntimeValid (s.setTask i task) :=
  ⟨h.state, h.tasks.set_same htask⟩

theorem setState (h : RuntimeValid s) (hstate : Validated state) : RuntimeValid (s.setState state) :=
  ⟨hstate, h.tasks⟩

theorem setDone (h : RuntimeValid s) : RuntimeValid (s.setTask i .done) :=
  ⟨h.state, h.tasks.set_same trivial⟩

theorem reloading (h : RuntimeValid s) {call : Call ext} (hcall : call.Incoming) :
    RuntimeValid (s.setTask i (.reloading call)) :=
  ⟨h.state, h.tasks.set_same hcall⟩

theorem of_begin (h : RuntimeValid (s.setTask i task)) (hstep : s.begin i task = some s') :
    RuntimeValid s' := by
  unfold Runtime.begin at hstep
  split at hstep
  · obtain rfl := Option.some.inj hstep
    exact h
  · cases hstep

/-- The first access of an operation. -/
theorem access (h : RuntimeValid s) {call : Call ext} (hcall : call.Incoming)
    (authority : Option Nat) : RuntimeValid (s.access i authority call) := by
  cases call with
  | read => exact h.setDone
  | recordBlocked entry =>
    have hstate : Validated (s.state.record entry) := h.state.of_config rfl rfl
    exact ⟨hstate, h.tasks.set_same trivial⟩
  | drainBlocked =>
    have hstate : Validated s.state.takeBlocked := h.state.of_config rfl rfl
    exact ⟨hstate, h.tasks.set_same trivial⟩
  | setNetworkMode mode =>
    unfold Runtime.access
    dsimp only
    split
    · exact h.setDone
    next hvalid => exact h.setTask (validateMode_of_candidate hvalid)
  | updateDomainList host target =>
    unfold Runtime.access
    dsimp only
    split
    · exact h.setDone
    · exact h.setDone
    next newState hnext => exact h.setTask (validated_of_nextState hnext)
  | replaceConfigState newState =>
    have hstate : Validated (newState.carry s.state) := Validated.of_config hcall rfl rfl
    exact (h.setState hstate).setDone

theorem proceed (h : RuntimeValid s) (htask : task.Valid) {authority : Option Nat}
    (hstep : s.proceed i authority task = some s') : RuntimeValid s' := by
  cases task with
  | reloading call => cases hstep
  | loaded call newState =>
    obtain rfl := Option.some.inj hstep
    exact h.setTask htask
  | carrying call newState =>
    obtain rfl := Option.some.inj hstep
    exact (h.setState htask.2).setTask htask.1
  | reloaded call =>
    obtain rfl := Option.some.inj hstep
    exact h.access htask authority
  | forcing => cases hstep
  | forced newState =>
    obtain rfl := Option.some.inj hstep
    have hstate : Validated (newState.carryBlocked s.state) := Validated.of_config htask rfl rfl
    exact (h.setState hstate).setDone
  | settingMode mode constraints =>
    unfold Runtime.proceed at hstep
    dsimp only at hstep
    split at hstep
    · obtain rfl := Option.some.inj hstep
      exact ⟨h.state, h.tasks.set_same trivial⟩
    next hsame =>
      obtain rfl := Option.some.inj hstep
      -- the configuration may be another one by now, the constraints are not
      rw [not_not] at hsame
      refine (h.setState (h.state.setMode ?_)).setDone
      rw [hsame]
      exact htask
  | storing host target previousCfg constraints newState =>
    unfold Runtime.proceed at hstep
    dsimp only at hstep
    split at hstep
    · obtain rfl := Option.some.inj hstep
      exact ⟨h.state, h.tasks.set_same trivial⟩
    · obtain rfl := Option.some.inj hstep
      exact (h.setState htask.2).setDone
  | done => cases hstep

theorem answer (h : RuntimeValid s) (htask : task.Valid)
    {result : Except Text (Option (ProxyState ext))}
    (hresult : ∀ newState, result = .ok (some newState) → Validated newState)
    (hstep : s.answer i result task = some s') : RuntimeValid s' := by
  cases task with
  | reloading call =>
    unfold Runtime.answer at hstep
    dsimp only at hstep
    split at hstep
    · obtain rfl := Option.some.inj hstep
      exact h.setDone
    · obtain rfl := Option.some.inj hstep
      exact h.setTask htask
    next newState =>
      obtain rfl := Option.some.inj hstep
      exact h.setTask ⟨htask, hresult newState rfl⟩
  | forcing =>
    unfold Runtime.answer at hstep
    dsimp only at hstep
    split at hstep
    · obtain rfl := Option.some.inj hstep
      exact h.setDone
    · cases hstep
    next newState =>
      obtain rfl := Option.some.inj hstep
      exact h.setTask (hresult newState rfl)
  | _ => cases hstep

/-- **One access keeps everything valid.** -/
theorem step (h : RuntimeValid s) {a : Action ext} (hincoming : a.Incoming)
    (hstep : step s a = some s') : RuntimeValid s' := by
  cases a with
  | call i call => exact of_begin (h.reloading hincoming) hstep
  | addDomain i host target =>
    unfold NetworkProxy.step at hstep
    dsimp only at hstep
    split at hstep
    · exact of_begin h.setDone hstep
    next host hparse =>
      have hupdate : RuntimeValid (s.setTask i (.reloading (.updateDomainList host target))) :=
        ⟨h.state, h.tasks.set_same trivial⟩
      exact of_begin hupdate hstep
  | forceReload i =>
    have hforcing : RuntimeValid (s.setTask i .forcing) := ⟨h.state, h.tasks.set_same trivial⟩
    exact of_begin hforcing hstep
  | answer i result =>
    obtain ⟨task, htask, hstep⟩ := Option.bind_eq_some_iff.mp hstep
    refine h.answer (h.tasks i task htask) ?_ hstep
    rintro newState rfl
    exact hincoming
  | proceed i authority =>
    obtain ⟨task, htask, hstep⟩ := Option.bind_eq_some_iff.mp hstep
    exact h.proceed (h.tasks i task htask) hstep
  | drop i =>
    obtain ⟨task, -, rfl⟩ := Option.map_eq_some_iff.mp hstep
    exact h.setDone

end RuntimeValid

/-- **What the managed constraints promise.**  The configuration validates against them, the sets
    are those of the configuration, and a host that a managed pattern denies is denied, whatever a
    decider says. -/
structure Managed (s : ProxyState ext) : Prop where
  validated : validatePolicyAgainstConstraints ext s.config s.constraints = .ok ()
  allowSet : ext.compileAllowlistGlobset (s.config.network.allowedDomains.getD []) = .ok s.allowSet
  denySet : ext.compileDenylistGlobset (s.config.network.deniedDomains.getD []) = .ok s.denySet
  denies : ∀ managed, s.constraints.deniedDomains = some managed → ∀ pattern ∈ managed,
    ∀ (request : NetworkPolicyRequest) host, Host.parse request.host = some host →
      ext.enforces pattern host.asStr = true → ∀ resolver decider,
        evaluateHostPolicy
            (decideHost ext resolver s.toConfigState request.host request.port) decider request =
          (.deny "denied".toList .baselinePolicy .deny, false)

theorem Validated.managed (h : Validated state) : Managed state := by
  refine ⟨h, state.allowCompiled, state.denyCompiled, ?_⟩
  intro managed hmanaged pattern hpattern request host hparse henforces resolver decider
  rw [h.denies hmanaged hpattern hparse henforces]
  rfl

/-- An entry of a list that validates is one of the managed ones, or one of them allows it. -/
theorem managed_of_validateAllowedDomains {managed candidate denied : List Text}
    {expansion : Option Bool} (hexpansion : expansion ≠ some true)
    (h : validateAllowedDomains ext (some managed) expansion candidate denied = .ok ())
    (hentry : entry ∈ candidate) : ∃ pattern ∈ managed,
      entry.map asciiLower = pattern.map asciiLower ∨
        (DomainPattern.parseForConstraints ext pattern).allows
          (DomainPattern.parseForConstraints ext entry) = true := by
  unfold validateAllowedDomains at h
  obtain ⟨_, -, h⟩ := bind_eq_ok h
  split at h
  · exact absurd rfl hexpansion
  · split at h
    next hsame =>
      have hall := (Bool.and_eq_true_iff.mp hsame).1
      have hlowered : entry.map asciiLower ∈ lowered candidate := List.mem_map_of_mem hentry
      have hmem := of_decide_eq_true (List.all_eq_true.mp hall _ hlowered)
      obtain ⟨pattern, hpattern, heq⟩ := List.mem_map.mp (List.mem_filter.mp hmem).1
      exact ⟨pattern, hpattern, .inl heq.symm⟩
    next => cases h
  · split at h
    next hempty =>
      by_contra hnot
      have hmem : entry ∈ notAllowed ext managed candidate := by
        refine List.mem_filter.mpr ⟨hentry, ?_⟩
        rw [Bool.not_eq_true', List.any_eq_false]
        intro pattern hpattern hallows
        exact hnot ⟨pattern, hpattern, .inr hallows⟩
      rw [List.isEmpty_iff.mp hempty] at hmem
      cases hmem
    next => cases h

/-- An allowed host has a name, which the set of the allow list matches. -/
theorem isMatch_of_allowed {s : ProxyState ext} {resolver : Resolver} {raw : Text} {port : UInt16}
    (h : decideHost ext resolver s.toConfigState raw port = .allowed) :
    normalizeHost raw ≠ [] ∧ ext.isMatch s.allowSet (normalizeHost raw) = true := by
  by_cases hne : normalizeHost raw = []
  · have hparse : Host.parse raw = none := dif_neg (not_not.mpr hne)
    unfold decideHost at h
    rw [hparse] at h
    cases h
  · refine ⟨hne, ?_⟩
    rw [decideHost_eq resolver s hne port] at h
    by_contra hmatch
    exact hmatch (allowed_of_decisionOf _ _ _ h)

/-- **A host that is allowed** is one that a managed pattern is enforced for. -/
theorem Validated.allows {s : ProxyState ext} (h : Validated s) (hext : WildcardGlobs ext)
    {managed : List Text} (hmanaged : s.constraints.allowedDomains = some managed)
    (hexpansion : s.constraints.allowlistExpansionEnabled ≠ some true)
    (hpatterns : ∀ pattern ∈ managed, PlainEntry ext pattern)
    (hentries : ∀ entry ∈ s.config.network.allowedDomains.getD [], PlainEntry ext entry)
    {raw : Text} (hdot : (normalizeHost raw).head? ≠ some '.') {resolver : Resolver}
    {port : UInt16} (hallowed : decideHost ext resolver s.toConfigState raw port = .allowed) :
    ∃ pattern ∈ managed, ext.enforces pattern (normalizeHost raw) = true := by
  have hvalid := ((validate_ok_iff _ _).mp h).2.2.2.2.2.2.2.1
  rw [hmanaged] at hvalid
  obtain ⟨hne, hmatch⟩ := isMatch_of_allowed hallowed
  obtain ⟨entry, hentry, henforces⟩ := s.isMatch_allowSet_iff.mp hmatch
  obtain ⟨pattern, hpattern, hlower | hallows⟩ :=
    managed_of_validateAllowedDomains hexpansion hvalid hentry
  · exact ⟨pattern, hpattern, (enforces_of_lowered _ hlower).symm.trans henforces⟩
  · refine ⟨pattern, hpattern, ?_⟩
    exact enforces_of_allows hext (hpatterns pattern hpattern) (hentries entry hentry) hallows
      (fun c hc => asciiLower_of_mem_normalizeHost hc) hne hdot henforces

end CodexMonitor.NetworkProxy
