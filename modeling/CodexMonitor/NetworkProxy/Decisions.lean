import CodexMonitor.Lib.Accumulate
import CodexMonitor.NetworkProxy.State

namespace CodexMonitor.NetworkProxy

open Text

/-!
# Network proxy — decisions about hosts

`runtime.rs`: the answer to a request for a host, and the change of a domain list at run time.

* `IpAddr`, `isNonPublicIp` — the addresses that are not public.
* `ProxyState` — a state whose sets are those compiled from its configuration.
* `hostBlocked` — the decision about a host.
* `updateDomainList` — `add_allowed_domain` and `add_denied_domain`, with their loop.
-/

/-! ### Addresses -/

inductive IpAddr
  | v4 (ip : BitVec 32)
  | v6 (ip : BitVec 128)
  deriving DecidableEq, Repr

/-- The address of four octets. -/
def ipv4 (a b c d : BitVec 8) : BitVec 32 := a ++ b ++ c ++ d

def ipv4InCidr (ip base : BitVec 32) (bits : Nat) : Bool :=
  let mask := if bits = 0 then 0 else BitVec.allOnes 32 <<< (32 - bits)
  ip &&& mask == base &&& mask

def isNonPublicIpv4 (ip : BitVec 32) : Bool :=
  -- loopback, private, link-local, unspecified, multicast and broadcast addresses
  ipv4InCidr ip (ipv4 127 0 0 0) 8 || ipv4InCidr ip (ipv4 10 0 0 0) 8 ||
    ipv4InCidr ip (ipv4 172 16 0 0) 12 || ipv4InCidr ip (ipv4 192 168 0 0) 16 ||
    ipv4InCidr ip (ipv4 169 254 0 0) 16 || ip == 0 || ipv4InCidr ip (ipv4 224 0 0 0) 4 ||
    ip == ipv4 255 255 255 255 || ipv4InCidr ip (ipv4 0 0 0 0) 8 ||
    ipv4InCidr ip (ipv4 100 64 0 0) 10 || ipv4InCidr ip (ipv4 192 0 0 0) 24 ||
    ipv4InCidr ip (ipv4 192 0 2 0) 24 || ipv4InCidr ip (ipv4 198 18 0 0) 15 ||
    ipv4InCidr ip (ipv4 198 51 100 0) 24 || ipv4InCidr ip (ipv4 203 0 113 0) 24 ||
    ipv4InCidr ip (ipv4 240 0 0 0) 4

/-- `Ipv6Addr::to_ipv4`: the mapped and the compatible addresses. -/
def toIpv4 (ip : BitVec 128) : Option (BitVec 32) :=
  let front := ip.extractLsb' 32 96
  if front = 0 ∨ front = 0xffff then some (ip.extractLsb' 0 32) else none

def isNonPublicIpv6 (ip : BitVec 128) : Bool :=
  match toIpv4 ip with
  | some v4 => isNonPublicIpv4 v4 || ip == 1
  | none =>
      -- loopback, unspecified, multicast, unique local and link-local addresses
      let segment := ip.extractLsb' 112 16
      ip == 1 || ip == 0 || segment &&& 0xff00 == 0xff00 || segment &&& 0xfe00 == 0xfc00 ||
        segment &&& 0xffc0 == 0xfe80

def isNonPublicIp : IpAddr → Bool
  | .v4 ip => isNonPublicIpv4 ip
  | .v6 ip => isNonPublicIpv6 ip

def IpAddr.isLoopback : IpAddr → Bool
  | .v4 ip => ipv4InCidr ip (ipv4 127 0 0 0) 8
  | .v6 ip => ip == 1

/-- How addresses are read, and how names are looked up; `none` for a lookup that fails or takes
    too long. -/
structure Resolver where
  parseIp : Text → Option IpAddr
  lookupHost : Text → UInt16 → Option (List IpAddr)

namespace Resolver

variable (resolver : Resolver)

/-- A host without the scope of its address. -/
def withoutScope (host : Text) : Text := host.takeWhile fun c => c ≠ '%'

def isLoopbackHost (host : Text) : Bool :=
  let host := withoutScope host
  host = "localhost".toList || (resolver.parseIp host).any IpAddr.isLoopback

/-- A name or an address of this machine or of a local network. -/
def isLocalLiteral (host : Text) : Bool :=
  resolver.isLoopbackHost host || (resolver.parseIp (withoutScope host)).any isNonPublicIp

def hostResolvesToNonPublicIp (host : Text) (port : UInt16) : Bool :=
  match resolver.parseIp host with
  | some ip => isNonPublicIp ip
  | none => match resolver.lookupHost host port with
    | none => true
    | some addrs => addrs.any isNonPublicIp

end Resolver

/-! ### The state -/

/-- A state of the proxy: its sets are those that were compiled from its configuration. -/
structure ProxyState (ext : Externals) extends ConfigState where
  allowCompiled : ext.compileAllowlistGlobset (config.network.allowedDomains.getD []) = .ok allowSet
  denyCompiled : ext.compileDenylistGlobset (config.network.deniedDomains.getD []) = .ok denySet

/-- What is built is such a state. -/
theorem compiled_of_build {ext : Externals} {authority : Option Nat} {config : NetworkProxyConfig}
    {constraints : NetworkProxyConstraints} {s : ConfigState}
    (h : buildConfigState ext authority config constraints = .ok s) :
    s.config = config ∧ s.constraints = constraints ∧
      ext.compileAllowlistGlobset (config.network.allowedDomains.getD []) = .ok s.allowSet ∧
      ext.compileDenylistGlobset (config.network.deniedDomains.getD []) = .ok s.denySet := by
  unfold buildConfigState at h
  obtain ⟨_, -, h⟩ := bind_eq_ok h
  obtain ⟨_, -, h⟩ := bind_eq_ok h
  obtain ⟨denySet, hdeny, h⟩ := bind_eq_ok h
  obtain ⟨allowSet, hallow, h⟩ := bind_eq_ok h
  dsimp only at h
  split at h
  · split at h
    · obtain rfl := Except.ok.inj h
      exact ⟨rfl, rfl, mapError_eq_ok hallow, mapError_eq_ok hdeny⟩
    · cases h
  · obtain rfl := Except.ok.inj h
    exact ⟨rfl, rfl, mapError_eq_ok hallow, mapError_eq_ok hdeny⟩

/-- `build_config_state`, with what is known of the state. -/
def buildProxyState (ext : Externals) (authority : Option Nat) (config : NetworkProxyConfig)
    (constraints : NetworkProxyConstraints) : Except BuildError (ProxyState ext) :=
  match h : buildConfigState ext authority config constraints with
  | .error error => .error error
  | .ok s =>
      .ok { s with
        allowCompiled := by
          rw [(compiled_of_build h).1]
          exact (compiled_of_build h).2.2.1
        denyCompiled := by
          rw [(compiled_of_build h).1]
          exact (compiled_of_build h).2.2.2 }

theorem buildProxyState_config {ext : Externals} {authority : Option Nat}
    {config : NetworkProxyConfig} {constraints : NetworkProxyConstraints} {s : ProxyState ext}
    (h : buildProxyState ext authority config constraints = .ok s) : s.config = config := by
  unfold buildProxyState at h
  split at h
  · cases h
  next built hbuilt =>
    obtain rfl := Except.ok.inj h
    exact (compiled_of_build hbuilt).1

/-! ### The decision about a host -/

inductive HostBlockReason
  | denied
  | notAllowed
  | notAllowedLocal
  deriving DecidableEq, Repr

inductive HostBlockDecision
  | allowed
  | blocked (reason : HostBlockReason)
  deriving DecidableEq, Repr

def isExplicitLocalAllowlisted (allowedDomains : List Text) (host : Text) : Bool :=
  allowedDomains.any fun pattern =>
    let pattern := pattern.trim
    if pattern = "*".toList || startsWith pattern "*.".toList ||
        startsWith pattern "**.".toList then false
    else if pattern.contains '*' || pattern.contains '?' then false
    else normalizeHost pattern = host

/-- The decision in a state: a denied host is blocked first, then local ones, then those that
    are not allowed. -/
def decideHost (ext : Externals) (resolver : Resolver) (s : ConfigState) (host : Text)
    (port : UInt16) : HostBlockDecision :=
  match Host.parse host with
  | none => .blocked .notAllowed
  | some host =>
      let allowedDomains := s.config.network.allowedDomains
      if ext.isMatch s.denySet host.asStr then .blocked .denied
      else if !s.config.network.allowLocalBinding &&
          (if resolver.isLocalLiteral host.asStr then
            !isExplicitLocalAllowlisted (allowedDomains.getD []) host.asStr
          else resolver.hostResolvesToNonPublicIp host.asStr port) then
        .blocked .notAllowedLocal
      else if allowedDomains.isNone || !ext.isMatch s.allowSet host.asStr then
        .blocked .notAllowed
      else .allowed

/-- `reload_if_needed`; the argument is what the reloader answers. -/
def reloadIfNeeded {ext : Externals} (answer : Except Text (Option (ProxyState ext)))
    (s : ProxyState ext) : Except Text (ProxyState ext) :=
  answer.map fun newState => match newState with
    | none => s
    | some newState => { newState with blocked := s.blocked, blockedTotal := s.blockedTotal }

def hostBlocked {ext : Externals} (resolver : Resolver)
    (answer : Except Text (Option (ProxyState ext))) (s : ProxyState ext) (host : Text)
    (port : UInt16) : Except Text HostBlockDecision :=
  (reloadIfNeeded answer s).map fun s => decideHost ext resolver s.toConfigState host port

/-! ### Changing a list -/

inductive DomainListKind
  | allow
  | deny
  deriving DecidableEq, Repr

namespace DomainListKind

def listName : DomainListKind → Text
  | .allow => "allowlist".toList
  | .deny => "denylist".toList

def constraintField : DomainListKind → Text
  | .allow => "network.allowed_domains".toList
  | .deny => "network.denied_domains".toList

def permission : DomainListKind → NetworkDomainPermission
  | .allow => .allow
  | .deny => .deny

def entries (network : NetworkProxySettings) : DomainListKind → List Text
  | .allow => network.allowedDomains.getD []
  | .deny => network.deniedDomains.getD []

def oppositeEntries (network : NetworkProxySettings) : DomainListKind → List Text
  | .allow => network.deniedDomains.getD []
  | .deny => network.allowedDomains.getD []

end DomainListKind

inductive UpdateError
  /-- "invalid network host" -/
  | invalidHost
  | reload (error : Text)
  /-- "… constrained by managed config" -/
  | constrained (field : Text) (error : NetworkProxyConstraintError)
  /-- "failed to compile updated network …" -/
  | build (listName : Text) (error : BuildError)
  deriving DecidableEq, Repr

/-- The configuration after the decision. -/
def updatedConfig (config : NetworkProxyConfig) (target : DomainListKind) (normalizedHost : Text) :
    NetworkProxyConfig :=
  { config with
    network := config.network.upsertDomainPermission normalizedHost target.permission
      normalizeHost }

/-- The list has the host, in some spelling, and the other list has not. -/
def alreadyDecided (config : NetworkProxyConfig) (target : DomainListKind)
    (normalizedHost : Text) : Bool :=
  (target.entries config.network).any (fun entry => normalizeHost entry = normalizedHost) &&
    !(target.oppositeEntries config.network).any fun entry => normalizeHost entry = normalizedHost

/-- One turn of the loop, up to the write; `none` if there is nothing to change. -/
def nextState {ext : Externals} (authority : Option Nat) (normalizedHost : Text)
    (target : DomainListKind) (s : ProxyState ext) :
    Except UpdateError (Option (ProxyState ext)) :=
  if alreadyDecided s.config target normalizedHost then .ok none
  else do
    let candidate := updatedConfig s.config target normalizedHost
    (validatePolicyAgainstConstraints ext candidate s.constraints).mapError
      (.constrained target.constraintField)
    let newState ← (buildProxyState ext authority candidate s.constraints).mapError
      (.build target.listName)
    return some { newState with blocked := s.blocked, blockedTotal := s.blockedTotal }

/-- What happens around a turn: the answer of the reloader, the certificate authority, and the
    state that another task stores before the write. -/
structure Turn (ext : Externals) where
  answer : Except Text (Option (ProxyState ext)) := .ok none
  authority : Option Nat := none
  meanwhile : Option (ProxyState ext) := none

/-- The states right before and right after the decision is stored. -/
structure Updated (ext : Externals) where
  before : ProxyState ext
  after : ProxyState ext

/-- The loop; `none` if it does not end within the turns. -/
def updateLoop {ext : Externals} (normalizedHost : Text) (target : DomainListKind) :
    List (Turn ext) → ProxyState ext → Option (Except UpdateError (Updated ext))
  | [], _ => none
  | turn :: turns, s =>
      match reloadIfNeeded turn.answer s with
      | .error error => some (.error (.reload error))
      | .ok s =>
          match nextState turn.authority normalizedHost target s with
          | .error error => some (.error error)
          | .ok none => some (.ok ⟨s, s⟩)
          | .ok (some newState) =>
              let guard := turn.meanwhile.getD s
              if guard.constraints ≠ s.constraints ∨ guard.config ≠ s.config then
                updateLoop normalizedHost target turns guard
              else some (.ok ⟨guard, newState⟩)

def updateDomainList {ext : Externals} (host : Text) (target : DomainListKind)
    (turns : List (Turn ext)) (s : ProxyState ext) : Option (Except UpdateError (Updated ext)) :=
  match Host.parse host with
  | none => some (.error .invalidHost)
  | some host => updateLoop host.asStr target turns s

def addAllowedDomain {ext : Externals} (host : Text) (turns : List (Turn ext))
    (s : ProxyState ext) : Option (Except UpdateError (Updated ext)) :=
  updateDomainList host .allow turns s

def addDeniedDomain {ext : Externals} (host : Text) (turns : List (Turn ext))
    (s : ProxyState ext) : Option (Except UpdateError (Updated ext)) :=
  updateDomainList host .deny turns s

end CodexMonitor.NetworkProxy
