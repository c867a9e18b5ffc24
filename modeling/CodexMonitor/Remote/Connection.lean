import CodexMonitor.Lib.Machine
import CodexMonitor.Lib.Tasks
import CodexMonitor.Remote.Protocol

namespace CodexMonitor.Remote

open Text Approvals

/-!
# Remote — calls over one connection

`RemoteBackend::call` with the reader and the writer task of `transport.rs`.  A call tests
that the connection is up, registers the sending half of a channel under the number of its
request, sends the request and waits.  The reader hands each response to the call registered
under its number; when one of the two tasks fails it takes the connection down and hands the
disconnect error to every registered call.

* `Stage` — where a call stands; each stage ends at one await point.
* `Io` — where the reader and the writer stand.
* `Conn` — the shared state.
* `connection` — the interleavings.
-/

/-- What the channel of a call holds: the payload of a response, with the number of the
    request it answers, or the disconnect error. -/
inductive Delivery
  | response (id : Nat) (payload : Except Text Json)
  | disconnected

/-- What the call receives. -/
def Delivery.result : Delivery → Except Text Json
  | .response _ payload => payload
  | .disconnected => .error disconnectedMessage

/-- Where a call stands. -/
inductive Stage
  /-- Has found the connection up, and waits for the pending map to register its channel. -/
  | tested (id : Nat) (method : Text) (params : Json)
  /-- Has registered, and sends the request. -/
  | sending (id : Nat) (message : Json)
  /-- Could not send: takes its registration back and returns the error. -/
  | withdrawing (id : Nat) (error : Text)
  /-- Waits for its response. -/
  | waiting (id : Nat)
  /-- Has waited for 300 seconds: takes its registration back. -/
  | expiring (id : Nat)
  | returned (result : Except Text Json)

/-- The call is between its test of the connection and its final wait. -/
def Stage.BeforeWait : Stage → Prop
  | .tested .. | .sending .. | .withdrawing .. => True
  | .waiting _ | .expiring _ | .returned _ => False

/-- Where the reader or the writer task stands: at work, inside `mark_disconnected` with
    the flag stored, behind it, or ended. -/
inductive Io
  | running
  | marking
  | marked
  | stopped
  deriving DecidableEq, Repr

/-- The state of a connection. -/
structure Conn where
  connected : Bool := true
  nextId : Nat := 1
  /-- The registered senders, each given by the call that holds the receiver. -/
  pending : Registry Nat Nat := ∅
  /-- What was sent into each call's channel. -/
  inbox : Nat → Option Delivery := fun _ => none
  /-- The messages accepted by the outbound queue and not yet written. -/
  outbound : List Json := []
  /-- The events passed on to the app. -/
  emitted : List (Text × Json) := []
  calls : Tasks Stage := Tasks.idle
  reader : Io := .running
  writer : Io := .running

def outboundQueueCapacity : Nat := 512

def dispatchTimedOut : Text :=
  "remote backend request dispatch timed out after 15 seconds".toList

def requestTimedOut : Text := "remote backend request timed out after 300 seconds".toList

/-- How waiting to put the request into the outbound queue ends. -/
inductive SendOutcome
  | accepted
  | closed
  | timedOut
  deriving DecidableEq, Repr

/-- The steps of a call. -/
inductive CallStep
  | start (method : Text) (params : Json)
  | register
  | send (outcome : SendOutcome)
  | withdraw
  /-- The wait ends with what is in the channel. -/
  | receive
  /-- The wait ends without a result, since the sender was dropped. -/
  | senderDropped
  | expire
  | forget

/-- The steps of the reader and of the writer. -/
inductive IoStep
  /-- The reader gets a line, given as the JSON value it parses to. -/
  | line (value : Option Json)
  /-- The reader gets the end of input or a read error. -/
  | readerFails
  | readerDrains
  /-- The writer writes the next message. -/
  | write
  | writerFails
  | writerDrains
  /-- The writer task ends, and with it the receiving half of the outbound queue. -/
  | writerStops

inductive Action
  | call (c : Nat) (step : CallStep)
  | io (step : IoStep)

namespace Conn

def moveCall (s : Conn) (c : Nat) (stage : Stage) : Conn :=
  { s with calls := s.calls.set c stage }

/-- The channel of `c` gets a delivery. -/
def deliver (s : Conn) (c : Nat) (d : Delivery) : Conn :=
  { s with inbox := Function.update s.inbox c (some d) }

/-- The events the app knows. -/
def eventNames : List Text :=
  ["app-server-event".toList, "terminal-output".toList, "terminal-exit".toList]

def dispatchIncomingLine (s : Conn) (line : Option Json) : Conn :=
  match parseIncomingLine line with
  | none => s
  | some (.response id payload) =>
      match s.pending.lookup id with
      | some c => { s with pending := s.pending.erase id }.deliver c (.response id payload)
      | none => s
  | some (.notification method params) =>
      if method ∈ eventNames then { s with emitted := s.emitted ++ [(method, params)] } else s

/-- The second half of `mark_disconnected`, behind storing the flag: every registered call
    gets the disconnect error. -/
def drain (s : Conn) : Conn :=
  { s with
    pending := ∅
    inbox := fun c =>
      if s.pending.entries.any (·.2 = c) then some .disconnected else s.inbox c }

/-- A step of the call `c`. -/
def stepCall (s : Conn) (c : Nat) (step : CallStep) : Option Conn :=
  match s.calls c, step with
  | none, .start method params =>
      if s.connected then
        some ({ s with nextId := s.nextId + 1 }.moveCall c (.tested s.nextId method params))
      else some (s.moveCall c (.returned (.error disconnectedMessage)))
  | some (.tested id method params), .register =>
      some ({ s with pending := s.pending.insert id c }.moveCall c
        (.sending id (buildRequestLine id method params)))
  | some (.sending id message), .send .accepted =>
      -- the queue takes messages until the writer task ends, also with the connection down
      if s.writer ≠ .stopped ∧ s.outbound.length < outboundQueueCapacity then
        some ({ s with outbound := s.outbound ++ [message] }.moveCall c (.waiting id))
      else none
  | some (.sending id _), .send .closed =>
      if s.writer = .stopped then some (s.moveCall c (.withdrawing id disconnectedMessage))
      else none
  | some (.sending id _), .send .timedOut =>
      some (s.moveCall c (.withdrawing id dispatchTimedOut))
  | some (.withdrawing id error), .withdraw =>
      some ({ s with pending := s.pending.erase id }.moveCall c (.returned (.error error)))
  | some (.waiting _), .receive => (s.inbox c).map fun d => s.moveCall c (.returned d.result)
  | some (.waiting id), .senderDropped =>
      if s.pending.lookup id ≠ some c ∧ (s.inbox c).isNone then
        some (s.moveCall c (.returned (.error disconnectedMessage)))
      else none
  | some (.waiting id), .expire => some (s.moveCall c (.expiring id))
  | some (.expiring id), .forget =>
      some ({ s with pending := s.pending.erase id }.moveCall c
        (.returned (.error requestTimedOut)))
  | _, _ => none

/-- A step of the reader or of the writer. -/
def stepIo (s : Conn) : IoStep → Option Conn
  | .line value => if s.reader = .running then some (s.dispatchIncomingLine value) else none
  | .readerFails =>
      if s.reader = .running then some { s with connected := false, reader := .marking }
      else none
  | .readerDrains =>
      if s.reader = .marking then some { s.drain with reader := .stopped } else none
  | .write =>
      if s.writer = .running ∧ s.outbound ≠ [] then some { s with outbound := s.outbound.tail }
      else none
  | .writerFails =>
      if s.writer = .running ∧ s.outbound ≠ [] then
        some { s with outbound := s.outbound.tail, connected := false, writer := .marking }
      else none
  | .writerDrains =>
      if s.writer = .marking then some { s.drain with writer := .marked } else none
  | .writerStops => if s.writer = .marked then some { s with writer := .stopped } else none

end Conn

/-- One connection, from the moment it is up. -/
def connection : Machine Conn Action where
  init := {}
  step s
    | .call c step => s.stepCall c step
    | .io step => s.stepIo step

end CodexMonitor.Remote
