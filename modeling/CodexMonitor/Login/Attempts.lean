import CodexMonitor.Lib.Machine
import CodexMonitor.Lib.Tasks
import CodexMonitor.Remote.Protocol

namespace CodexMonitor.Login

open Text Approvals Remote

/-!
# Login — the login attempts of a workspace

`codex_login_core` and `codex_login_cancel_core` for one workspace, interleaved at their
await points.  The attempts share one entry of the map of cancel states: it holds the sender
that cancels the attempt whose start is pending, or the id of a started login.

* `CancelState` — the entry.
* `Stage`, `CancelStage` — where an attempt and a cancel stand; a stage ends with one locked
  access to the entry, with the outcome of a request, or at the head of the waiting loop.
* `Event` — the history the results speak of: an attempt starts when it registers its
  sender, a cancel is issued when it takes the entry.
* `loginMachine` — the interleavings.
-/

/-- The workspace's entry; a sender is given by the attempt that holds the receiver. -/
inductive CancelState
  | pendingStart (attempt : Nat)
  | loginId (id : Text)
  deriving DecidableEq, Repr

/-- How an attempt ends. -/
inductive Outcome
  | notConnected
  | canceled
  | timedOut
  /-- The request failed, or its response lacks the login id or the URL. -/
  | failed (error : Text)
  | started (loginId authUrl : Text) (raw : Json)

/-- What the caller gets. -/
def Outcome.result : Outcome → Except Text Json
  | .notConnected => .error "workspace not connected".toList
  | .canceled => .error "Codex login canceled.".toList
  | .timedOut => .error "Codex login start timed out.".toList
  | .failed error => .error error
  | .started loginId authUrl raw => .ok (.object [("loginId".toList, .string loginId),
      ("authUrl".toList, .string authUrl), ("raw".toList, raw)])

/-- Where an attempt stands. -/
inductive Stage
  /-- Looks up the session. -/
  | connecting
  /-- Waits for the map to register its sender. -/
  | registering
  /-- At the head of the loop. -/
  | checking
  /-- Waits for the response, for one tick. -/
  | requesting
  /-- Has seen that it is cancelled, and waits for the map to remove the entry. -/
  | canceling
  /-- Has seen that its time is over, and waits for the map to remove the entry. -/
  | expiring
  /-- Has its response, and waits for the map to store the login id. -/
  | storing (loginId authUrl : Text) (raw : Json)
  | returned (outcome : Outcome)

/-- Where a cancel stands. -/
inductive CancelStage
  /-- Waits for the map to take the entry. -/
  | taking
  /-- Has taken a login id, and asks the app server to cancel it. -/
  | asking (loginId : Text)
  | returned (result : Except Text Json)

/-- What happened, in the order of the accesses to the map. -/
inductive Event
  | login (attempt : Nat)
  | cancel
  deriving DecidableEq, Repr

/-- The state of a workspace's logins. -/
structure Logins where
  entry : Option CancelState := none
  /-- The attempts whose sender was used. -/
  signalled : Nat → Bool := fun _ => false
  attempts : Tasks Stage := Tasks.idle
  cancels : Tasks CancelStage := Tasks.idle
  history : List Event := []

/-! ### The responses -/

/-- `response.get("result").unwrap_or(&response)` -/
def payload (response : Json) : Json := (get "result".toList response).getD response

/-- `payload.get(key).or_else(|| payload.get(other)).and_then(Value::as_str)` -/
def field (key other : Text) (value : Json) : Option Text :=
  ((get key value).or (get other value)).bind asStr

/-- The login id and the URL of a response to `account/login/start`. -/
def readStart (response : Json) : Except Text (Text × Text) :=
  match field "loginId".toList "login_id".toList (payload response) with
  | none => .error "missing login id in account/login/start response".toList
  | some loginId =>
      match field "authUrl".toList "auth_url".toList (payload response) with
      | none => .error "missing auth url in account/login/start response".toList
      | some authUrl => .ok (loginId, authUrl)

/-- What a cancel returns for the response to `account/login/cancel`. -/
def readCancel (response : Json) : Json :=
  let status := ((get "status".toList (payload response)).bind asStr).getD []
  .object [("canceled".toList, .bool (eqIgnoreAsciiCase status "canceled".toList)),
    ("status".toList, .string status), ("raw".toList, response)]

/-! ### Steps -/

/-- The steps of an attempt. -/
inductive LoginStep
  | start
  | connect (connected : Bool)
  | register
  /-- The head of the loop, with the test of the time passed since the start. -/
  | check (elapsed : Bool)
  | tick
  | respond (response : Except Text Json)
  /-- Removes the entry of the map and returns. -/
  | unregister
  | store

inductive CancelStep
  | start
  | take
  /-- The session is gone, the request fails, or the app server answers. -/
  | answer (response : Except Text Json)

inductive Action
  | login (i : Nat) (step : LoginStep)
  | cancel (j : Nat) (step : CancelStep)

namespace Logins

def moveAttempt (s : Logins) (i : Nat) (stage : Stage) : Logins :=
  { s with attempts := s.attempts.set i stage }

def moveCancel (s : Logins) (j : Nat) (stage : CancelStage) : Logins :=
  { s with cancels := s.cancels.set j stage }

/-- A sender in the removed entry is used. -/
def signal (s : Logins) : Logins :=
  match s.entry with
  | some (.pendingStart i) => { s with signalled := Function.update s.signalled i true }
  | _ => s

/-- `cancel_rx.try_recv()` is not `Empty`: the sender was used, or dropped with the entry. -/
def cancelSeen (s : Logins) (i : Nat) : Bool :=
  s.signalled i || s.entry != some (.pendingStart i)

/-- A step of the attempt `i`. -/
def stepLogin (s : Logins) (i : Nat) (step : LoginStep) : Option Logins :=
  match s.attempts i, step with
  | none, .start => some (s.moveAttempt i .connecting)
  | some .connecting, .connect true => some (s.moveAttempt i .registering)
  | some .connecting, .connect false => some (s.moveAttempt i (.returned .notConnected))
  | some .registering, .register =>
      some ({ s.signal with
        entry := some (.pendingStart i), history := s.history ++ [Event.login i] }.moveAttempt i
          .checking)
  | some .checking, .check elapsed =>
      if s.cancelSeen i then some (s.moveAttempt i .canceling)
      else if elapsed then some (s.moveAttempt i .expiring)
      else some (s.moveAttempt i .requesting)
  | some .requesting, .tick => some (s.moveAttempt i .checking)
  | some .requesting, .respond (.error error) =>
      some (s.moveAttempt i (.returned (.failed error)))
  | some .requesting, .respond (.ok response) =>
      match readStart response with
      | .error error => some (s.moveAttempt i (.returned (.failed error)))
      | .ok (loginId, authUrl) => some (s.moveAttempt i (.storing loginId authUrl response))
  -- the entry is removed whatever it holds by now
  | some .canceling, .unregister =>
      some ({ s with entry := none }.moveAttempt i (.returned .canceled))
  | some .expiring, .unregister =>
      some ({ s with entry := none }.moveAttempt i (.returned .timedOut))
  | some (.storing loginId authUrl raw), .store =>
      some ({ s with entry := some (.loginId loginId) }.moveAttempt i
        (.returned (.started loginId authUrl raw)))
  | _, _ => none

/-- A step of the cancel `j`. -/
def stepCancel (s : Logins) (j : Nat) (step : CancelStep) : Option Logins :=
  match s.cancels j, step with
  | none, .start => some (s.moveCancel j .taking)
  | some .taking, .take =>
      let taken := { s.signal with entry := none, history := s.history ++ [Event.cancel] }
      match s.entry with
      | none =>
          some (taken.moveCancel j
            (.returned (.ok (.object [("canceled".toList, .bool false)]))))
      | some (.pendingStart _) =>
          some (taken.moveCancel j (.returned (.ok (.object [("canceled".toList, .bool true),
            ("status".toList, .string "canceled".toList)]))))
      | some (.loginId id) => some (taken.moveCancel j (.asking id))
  | some (.asking _), .answer (.error error) =>
      some (s.moveCancel j (.returned (.error error)))
  | some (.asking _), .answer (.ok response) =>
      some (s.moveCancel j (.returned (.ok (readCancel response))))
  | _, _ => none

end Logins

/-- The logins of a workspace, from an empty map. -/
def loginMachine : Machine Logins Action where
  init := {}
  step s
    | .login i step => s.stepLogin i step
    | .cancel j step => s.stepCancel j step

end CodexMonitor.Login
