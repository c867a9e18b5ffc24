import Mathlib.Data.List.Dedup
import CodexMonitor.NetworkProxy.Config

namespace CodexMonitor.NetworkProxy

open Text

/-!
# Network proxy — managed constraints and the state built from a configuration

* `validatePolicyAgainstConstraints` — the checks of a configuration against what the managed
  layers fix, one field after the other, with the error of the first that fails.
* `buildConfigState` — the state of the proxy: the configuration and its compiled lists.
-/

/-- What the managed layers fix. -/
structure NetworkProxyConstraints where
  enabled : Option Bool := none
  mode : Option NetworkMode := none
  allowUpstreamProxy : Option Bool := none
  dangerouslyAllowNonLoopbackProxy : Option Bool := none
  dangerouslyAllowAllUnixSockets : Option Bool := none
  allowedDomains : Option (List Text) := none
  allowlistExpansionEnabled : Option Bool := none
  deniedDomains : Option (List Text) := none
  denylistExpansionEnabled : Option Bool := none
  allowUnixSockets : Option (List Text) := none
  allowLocalBinding : Option Bool := none
  deriving DecidableEq, Repr

/-- A part of an error: a text, or a list of entries in Rust's debug format. -/
inductive Shown
  | text (t : Text)
  | entries (entries : List Text)
  deriving DecidableEq, Repr

/-- `InvalidValue`: "invalid value for …: … (allowed …)". -/
structure NetworkProxyConstraintError where
  fieldName : Text
  candidate : Shown
  allowed : Shown
  deriving DecidableEq, Repr

/-! ### The checks -/

/-- The result of a check. -/
abbrev Checked := Except NetworkProxyConstraintError Unit

def validateNonGlobalWildcardDomainPatterns (fieldName : Text) (patterns : List Text) : Checked :=
  match patterns.find? isGlobalWildcardDomainPattern with
  | some pattern =>
      .error ⟨fieldName, .text pattern.trim,
        .text "exact hosts or scoped wildcards like *.example.com or **.example.com".toList⟩
  | none => .ok ()

/-- A switch that the managed configuration may have turned off. -/
def validateSwitch (fieldName : Text) (permitted candidate : Bool) : Checked :=
  if candidate && !permitted then
    .error ⟨fieldName, .text "true".toList, .text "false (disabled by managed config)".toList⟩
  else .ok ()

def networkModeRank : NetworkMode → Nat
  | .limited => 0
  | .full => 1

def validateMode (maxMode : Option NetworkMode) (candidate : NetworkMode) : Checked :=
  match maxMode with
  | some maxMode =>
      if networkModeRank maxMode < networkModeRank candidate then
        .error ⟨"network.mode".toList, .text candidate.debug,
          .text (maxMode.debug ++ " or more restrictive".toList)⟩
      else .ok ()
  | none => .ok ()

/-- The entries as the checks compare them. -/
def lowered (entries : List Text) : List Text := entries.map fun entry => entry.map asciiLower

/-- The same set of entries. -/
def sameEntries (left right : List Text) : Bool :=
  left.all (· ∈ right) && right.all (· ∈ left)

/-- Required entries that are not there; the source lists them in no particular order. -/
def missingEntries (required : List Text) (present : Text → Bool) : List Text :=
  required.dedup.filter fun entry => !present entry

/-- The entries of the configuration that no managed pattern allows. -/
def notAllowed (ext : Externals) (managed candidate : List Text) : List Text :=
  candidate.filter fun entry =>
    !managed.any fun pattern =>
      (DomainPattern.parseForConstraints ext pattern).allows
        (DomainPattern.parseForConstraints ext entry)

/-- `denied` holds the denied patterns of the configuration, which override managed ones. -/
def validateAllowedDomains (ext : Externals) (managed : Option (List Text))
    (expansion : Option Bool) (candidate denied : List Text) : Checked := do
  let some managed := managed | .ok ()
  validateNonGlobalWildcardDomainPatterns "network.allowed_domains".toList managed
  match expansion with
  | some true =>
      let missing := missingEntries (lowered managed) fun entry =>
        entry ∈ lowered candidate || entry ∈ lowered denied
      if missing.isEmpty then .ok ()
      else .error ⟨"network.allowed_domains".toList,
        .text "missing managed allowed_domains entries".toList, .entries missing⟩
  | some false =>
      if sameEntries (lowered candidate) ((lowered managed).filter (· ∉ lowered denied)) then .ok ()
      else .error ⟨"network.allowed_domains".toList, .entries candidate,
        .text "must match managed allowed_domains".toList⟩
  | none =>
      if (notAllowed ext managed candidate).isEmpty then .ok ()
      else .error ⟨"network.allowed_domains".toList, .entries (notAllowed ext managed candidate),
        .text "subset of managed allowed_domains".toList⟩

def validateDeniedDomains (managed : Option (List Text)) (expansion : Option Bool)
    (candidate : List Text) : Checked := do
  let some managed := managed | .ok ()
  validateNonGlobalWildcardDomainPatterns "network.denied_domains".toList managed
  if expansion = some false then
    if sameEntries (lowered candidate) (lowered managed) then .ok ()
    else .error ⟨"network.denied_domains".toList, .entries candidate,
      .text "must match managed denied_domains".toList⟩
  else
    let missing := missingEntries (lowered managed) fun entry => entry ∈ lowered candidate
    if missing.isEmpty then .ok ()
    else .error ⟨"network.denied_domains".toList,
      .text "missing managed denied_domains entries".toList, .entries missing⟩

def validateAllowUnixSockets (managed : Option (List Text)) (candidate : List Text) : Checked := do
  let some managed := managed | .ok ()
  let invalid := candidate.filter fun entry => entry.map asciiLower ∉ lowered managed
  if invalid.isEmpty then .ok ()
  else .error ⟨"network.allow_unix_sockets".toList, .entries invalid,
    .text "subset of managed allow_unix_sockets".toList⟩

def validatePolicyAgainstConstraints (ext : Externals) (config : NetworkProxyConfig)
    (constraints : NetworkProxyConstraints) : Checked := do
  let denied := config.network.deniedDomains.getD []
  validateNonGlobalWildcardDomainPatterns "network.denied_domains".toList denied
  validateSwitch "network.enabled".toList (constraints.enabled.getD true) config.network.enabled
  validateMode constraints.mode config.network.mode
  validateSwitch "network.allow_upstream_proxy".toList (constraints.allowUpstreamProxy.getD true)
    config.network.allowUpstreamProxy
  validateSwitch "network.dangerously_allow_non_loopback_proxy".toList
    (constraints.dangerouslyAllowNonLoopbackProxy.getD true)
    config.network.dangerouslyAllowNonLoopbackProxy
  validateSwitch "network.dangerously_allow_all_unix_sockets".toList
    (constraints.dangerouslyAllowAllUnixSockets.getD constraints.allowUnixSockets.isNone)
    config.network.dangerouslyAllowAllUnixSockets
  validateSwitch "network.allow_local_binding".toList (constraints.allowLocalBinding.getD true)
    config.network.allowLocalBinding
  validateAllowedDomains ext constraints.allowedDomains constraints.allowlistExpansionEnabled
    (config.network.allowedDomains.getD []) denied
  validateDeniedDomains constraints.deniedDomains constraints.denylistExpansionEnabled denied
  validateAllowUnixSockets constraints.allowUnixSockets config.network.allowUnixSockets

/-! ### The state of the proxy -/

structure BlockedRequest where
  host : Text
  reason : Text
  client : Option Text := none
  method : Option Text := none
  mode : Option NetworkMode := none
  protocol : Text
  decision : Option Text := none
  source : Option Text := none
  port : Option UInt16 := none
  timestamp : Int
  deriving DecidableEq, Repr

/-- The certificate authority that was loaded, by its number, and the upstream setting. -/
structure MitmState where
  authority : Nat
  allowUpstreamProxy : Bool
  deriving DecidableEq, Repr

structure ConfigState where
  config : NetworkProxyConfig
  allowSet : GlobSet
  denySet : GlobSet
  mitm : Option MitmState
  constraints : NetworkProxyConstraints
  blocked : List BlockedRequest
  blockedTotal : UInt64
  deriving DecidableEq, Repr

inductive BuildError
  | unixSocketPath (index : Nat)
  | constraint (error : NetworkProxyConstraintError)
  | compile (error : CompileError)
  | mitm
  deriving DecidableEq, Repr

/-- `authority` is what loading the certificate authority gives, if it has to be loaded. -/
def buildConfigState (ext : Externals) (authority : Option Nat) (config : NetworkProxyConfig)
    (constraints : NetworkProxyConstraints) : Except BuildError ConfigState := do
  (validateUnixSocketAllowlistPaths config).mapError .unixSocketPath
  let allowedDomains := config.network.allowedDomains.getD []
  let deniedDomains := config.network.deniedDomains.getD []
  (validateNonGlobalWildcardDomainPatterns "network.denied_domains".toList deniedDomains).mapError
    .constraint
  let denySet ← (ext.compileDenylistGlobset deniedDomains).mapError .compile
  let allowSet ← (ext.compileAllowlistGlobset allowedDomains).mapError .compile
  let mitm ←
    if config.network.mitm then
      match authority with
      | some authority => .ok (some ⟨authority, config.network.allowUpstreamProxy⟩)
      | none => .error .mitm
    else .ok none
  return {
    config, allowSet, denySet, mitm, constraints
    blocked := []
    blockedTotal := 0 }

end CodexMonitor.NetworkProxy
