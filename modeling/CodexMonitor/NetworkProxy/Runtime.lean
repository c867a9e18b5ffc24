import CodexMonitor.Lib.Machine
import CodexMonitor.Lib.Tasks
import CodexMonitor.NetworkProxy.Decisions

namespace CodexMonitor.NetworkProxy

open Text

/-!
# Network proxy — the operations on the shared state

`runtime.rs`: the state is behind a lock, and no operation holds the lock while it waits.  Each
one waits for the reloader first, and then reads a snapshot, or writes, or both one after the
other.  What is interleaved are these accesses.

* `Call`, `Task` — the operations, and where one of them stands.
* `proceed` — the next access of an operation.
* `machine` — any number of operations.
* `evaluateHostPolicy` — the decision about a request, with the one of a decider.
-/

/-! ### Entries that are recorded -/

def maxBlockedEvents : Nat := 200

/-- `saturating_add(1)`. -/
def countBlocked (total : UInt64) : UInt64 :=
  if total.toNat = 2 ^ 64 - 1 then total else total + 1

/-- `push_back`, and `pop_front` while there are too many entries. -/
@[irreducible] def pushBlocked (blocked : List BlockedRequest) (entry : BlockedRequest) : List BlockedRequest :=
  (blocked ++ [entry]).drop ((blocked ++ [entry]).length - maxBlockedEvents)

variable {ext : Externals}

namespace ProxyState

def record (s : ProxyState ext) (entry : BlockedRequest) : ProxyState ext :=
  { s with blocked := pushBlocked s.blocked entry, blockedTotal := countBlocked s.blockedTotal }

/-- `std::mem::take(&mut guard.blocked)`. -/
def takeBlocked (s : ProxyState ext) : ProxyState ext := { s with blocked := [] }

def setMode (s : ProxyState ext) (mode : NetworkMode) : ProxyState ext :=
  { s with
    config := { s.config with network := { s.config.network with mode } }
    allowCompiled := s.allowCompiled
    denyCompiled := s.denyCompiled }

/-- The telemetry of another state. -/
def carry (s source : ProxyState ext) : ProxyState ext :=
  { s with blocked := source.blocked, blockedTotal := source.blockedTotal }

/-- The entries of another state, without their count. -/
def carryBlocked (s source : ProxyState ext) : ProxyState ext := { s with blocked := source.blocked }

end ProxyState

/-! ### Operations -/

/-- The operations behind `reload_if_needed`; `read` stands for those that only read. -/
inductive Call (ext : Externals)
  | read
  | recordBlocked (entry : BlockedRequest)
  | drainBlocked
  | setNetworkMode (mode : NetworkMode)
  | updateDomainList (host : Host) (target : DomainListKind)
  | replaceConfigState (newState : ProxyState ext)

/-- Where an operation stands: what it waits for. -/
inductive Task (ext : Externals)
  /-- for `maybe_reload` -/
  | reloading (call : Call ext)
  /-- to read the telemetry for the state that was loaded -/
  | loaded (call : Call ext) (newState : ProxyState ext)
  /-- to write the state that was loaded -/
  | carrying (call : Call ext) (newState : ProxyState ext)
  /-- for its own first access -/
  | reloaded (call : Call ext)
  /-- for `reload_now` -/
  | forcing
  /-- to write what `reload_now` gave -/
  | forced (newState : ProxyState ext)
  /-- to patch the mode -/
  | settingMode (mode : NetworkMode) (constraints : NetworkProxyConstraints)
  /-- to write a state with a changed list -/
  | storing (host : Host) (target : DomainListKind) (previousCfg : NetworkProxyConfig)
      (constraints : NetworkProxyConstraints) (newState : ProxyState ext)
  | done

/-- The state behind the lock, the operations, and what was recorded and drained so far. -/
structure Runtime (ext : Externals) where
  state : ProxyState ext
  tasks : Tasks (Task ext) := Tasks.idle
  recorded : List BlockedRequest := []
  drained : List (List BlockedRequest) := []

namespace Runtime

variable (s : Runtime ext)

def setTask (i : Nat) (task : Task ext) : Runtime ext := { s with tasks := s.tasks.set i task }

def setState (state : ProxyState ext) : Runtime ext := { s with state }

/-- The first access of an operation, once `reload_if_needed` has returned. -/
def access (i : Nat) (authority : Option Nat) : Call ext → Runtime ext
  | .read => s.setTask i .done
  | .recordBlocked entry =>
      { s.setState (s.state.record entry) with recorded := s.recorded ++ [entry] }.setTask i .done
  | .drainBlocked =>
      { s.setState s.state.takeBlocked with drained := s.drained ++ [s.state.blocked] }.setTask i
        .done
  | .setNetworkMode mode =>
      let candidate := (s.state.setMode mode).config
      match validatePolicyAgainstConstraints ext candidate s.state.constraints with
      | .error _ => s.setTask i .done
      | .ok () => s.setTask i (.settingMode mode s.state.constraints)
  | .updateDomainList host target =>
      match nextState authority host.asStr target s.state with
      | .error _ => s.setTask i .done
      | .ok none => s.setTask i .done
      | .ok (some newState) =>
          s.setTask i (.storing host target s.state.config s.state.constraints newState)
  | .replaceConfigState newState => (s.setState (newState.carry s.state)).setTask i .done

/-- The next access of an operation that waits for the lock. -/
def proceed (i : Nat) (authority : Option Nat) : Task ext → Option (Runtime ext)
  | .loaded call newState => some (s.setTask i (.carrying call (newState.carry s.state)))
  | .carrying call newState => some ((s.setState newState).setTask i (.reloaded call))
  | .reloaded call => some (s.access i authority call)
  | .forced newState => some ((s.setState (newState.carryBlocked s.state)).setTask i .done)
  | .settingMode mode constraints =>
      if s.state.constraints ≠ constraints then
        some (s.setTask i (.reloading (.setNetworkMode mode)))
      else some ((s.setState (s.state.setMode mode)).setTask i .done)
  | .storing host target previousCfg constraints newState =>
      if s.state.constraints ≠ constraints ∨ s.state.config ≠ previousCfg then
        some (s.setTask i (.reloading (.updateDomainList host target)))
      else some ((s.setState newState).setTask i .done)
  | _ => none

/-- What the reloader answers an operation that waits for it. -/
def answer (i : Nat) (result : Except Text (Option (ProxyState ext))) :
    Task ext → Option (Runtime ext)
  | .reloading call =>
      match result with
      | .error _ => some (s.setTask i .done)
      | .ok none => some (s.setTask i (.reloaded call))
      | .ok (some newState) => some (s.setTask i (.loaded call newState))
  | .forcing =>
      match result with
      | .error _ => some (s.setTask i .done)
      | .ok none => none
      | .ok (some newState) => some (s.setTask i (.forced newState))
  | _ => none

end Runtime

/-- An operation begins, gets an answer, makes its next access, or is dropped. -/
inductive Action (ext : Externals)
  | call (i : Nat) (call : Call ext)
  | addDomain (i : Nat) (host : Text) (target : DomainListKind)
  | forceReload (i : Nat)
  | answer (i : Nat) (result : Except Text (Option (ProxyState ext)))
  | proceed (i : Nat) (authority : Option Nat)
  | drop (i : Nat)

/-- A number that no operation has yet. -/
def Runtime.begin (s : Runtime ext) (i : Nat) (task : Task ext) : Option (Runtime ext) :=
  if (s.tasks i).isNone then some (s.setTask i task) else none

def step (s : Runtime ext) : Action ext → Option (Runtime ext)
  | .call i call => s.begin i (.reloading call)
  | .addDomain i host target =>
      match Host.parse host with
      | none => s.begin i .done
      | some host => s.begin i (.reloading (.updateDomainList host target))
  | .forceReload i => s.begin i .forcing
  | .answer i result => (s.tasks i).bind (s.answer i result)
  | .proceed i authority => (s.tasks i).bind (s.proceed i authority)
  | .drop i => (s.tasks i).map fun _ => s.setTask i .done

def machine (state : ProxyState ext) : Machine (Runtime ext) (Action ext) := ⟨{ state }, step⟩

/-! ### The decision about a request -/

inductive NetworkProtocol
  | http
  | httpsConnect
  | socks5Tcp
  | socks5Udp
  deriving DecidableEq, Repr

inductive NetworkPolicyDecision
  | deny
  | ask
  deriving DecidableEq, Repr

inductive NetworkDecisionSource
  | baselinePolicy
  | modeGuard
  | proxyState
  | decider
  deriving DecidableEq, Repr

structure NetworkPolicyRequest where
  protocol : NetworkProtocol
  host : Text
  port : UInt16
  clientAddr : Option Text := none
  method : Option Text := none
  command : Option Text := none
  execPolicyHint : Option Text := none
  deriving DecidableEq, Repr

inductive NetworkDecision
  | allow
  | deny (reason : Text) (source : NetworkDecisionSource) (decision : NetworkPolicyDecision)
  deriving DecidableEq, Repr

def HostBlockReason.asStr : HostBlockReason → Text
  | .denied => "denied".toList
  | .notAllowed => "not_allowed".toList
  | .notAllowedLocal => "not_allowed_local".toList

namespace NetworkDecision

def denyWithSource (reason : Text) (source : NetworkDecisionSource) : NetworkDecision :=
  .deny (if reason.isEmpty then "policy_denied".toList else reason) source .deny

def mapDeciderDecision : NetworkDecision → NetworkDecision
  | .allow => .allow
  | .deny reason _ decision => .deny reason .decider decision

end NetworkDecision

/-- `evaluate_host_policy`, from the decision about the host; whether the decider overrode it is
    what the audit event tells. -/
def evaluateHostPolicy (hostDecision : HostBlockDecision)
    (decider : Option (NetworkPolicyRequest → NetworkDecision)) (request : NetworkPolicyRequest) :
    NetworkDecision × Bool :=
  match hostDecision with
  | .allowed => (.allow, false)
  | .blocked .notAllowed =>
      match decider with
      | some decide =>
          let decision := (decide request).mapDeciderDecision
          (decision, decision = .allow)
      | none => (.denyWithSource HostBlockReason.notAllowed.asStr .baselinePolicy, false)
  | .blocked reason => (.denyWithSource reason.asStr .baselinePolicy, false)

end CodexMonitor.NetworkProxy
