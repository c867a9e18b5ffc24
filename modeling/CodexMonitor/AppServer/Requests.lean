import CodexMonitor.AppServer.Messages
import CodexMonitor.Lib.Machine
import CodexMonitor.Lib.Tasks

namespace CodexMonitor.AppServer

open Text Approvals Remote

/-!
# AppServer — requests to the app server and their responses

`WorkspaceSession::send_request_for_workspace` and the reader loop.  A call registers its
channel and its context under the number of its request, in two maps with a lock each; the
reader removes the context and then the channel of the request that a line answers.  A
caller may drop its call at any await point.

* `Stage` — where a call stands; each stage ends at one await point.
* `Reader` — where the reader loop stands.
* `Session` — the shared state.
* `requestMachine` — the interleavings.
-/

structure RequestContext where
  workspaceId : Text
  method : Text
  deriving DecidableEq, Repr

/-- A line of the app server, with its place in the output. -/
structure Message where
  index : Nat
  value : Json

/-- What a call was made for. -/
structure Request where
  context : RequestContext
  params : Json

/-- Where a call stands; `id` is the number of its request. -/
inductive Stage
  /-- Has drawn its number, and waits for the map of channels. -/
  | drawn (id : Nat) (request : Request)
  /-- Has registered its channel, and waits for the map of contexts. -/
  | registered (id : Nat) (request : Request)
  /-- Has registered its context: records the thread's workspace and writes the request. -/
  | writing (id : Nat)
  /-- Could not write: removes its channel, then its context. -/
  | failing (id : Nat) (error : Text)
  | failed (id : Nat) (error : Text)
  /-- Waits for the response. -/
  | waiting (id : Nat)
  /-- Has waited for 300 seconds: removes its channel, then its context. -/
  | expiring (id : Nat)
  | expired (id : Nat)
  | returned (id : Nat) (result : Except Text Message)
  /-- The caller has dropped the call. -/
  | dropped (id : Nat)

/-- The number of the call's request. -/
def Stage.id : Stage → Nat
  | .drawn id _ | .registered id _ | .writing id | .failing id _ | .failed id _ | .waiting id
  | .expiring id | .expired id | .returned id _ | .dropped id => id

/-- The call has neither returned nor been dropped. -/
def Stage.outstanding : Stage → Bool
  | .returned .. | .dropped _ => false
  | _ => true

/-- Where the reader loop stands. -/
inductive Reader
  | idle
  /-- Has read a line, and waits for the map of contexts if the line is a response. -/
  | parsed (m : Message)
  /-- Has taken the context of the request, and goes on to dispatch the line. -/
  | looked (m : Message) (context : Option RequestContext)
  /-- The output has ended: clears the map of channels, then the map of contexts. -/
  | clearing
  | cleared
  | stopped

/-- The state of a session. -/
structure Session where
  nextId : Nat := 1
  /-- The registered channels, each given by the call that holds the receiver. -/
  pending : Registry Nat Nat := ∅
  requestContext : Registry Nat RequestContext := ∅
  hiddenThreadIds : List Text := []
  /-- What was sent into each call's channel. -/
  inbox : Nat → Option Message := fun _ => none
  calls : Tasks Stage := Tasks.idle
  reader : Reader := .idle
  /-- The number of lines read. -/
  lines : Nat := 0

def requestTimedOut : Text := "request timed out after 300 seconds".toList

def requestCanceled : Text := "request canceled".toList

inductive CallStep
  | start (request : Request)
  | register
  | registerContext
  | write (result : Except Text Unit)
  | removePending
  | removeContext
  /-- The wait ends with what is in the channel. -/
  | receive
  /-- The wait ends since the sender was dropped. -/
  | senderDropped
  | expire
  /-- The caller drops the call. -/
  | drop

inductive ReaderStep
  /-- A line, given as the JSON value it parses to. -/
  | line (value : Option Json)
  | lookup
  | dispatch
  | endOfOutput
  | clearPending
  | clearContext

inductive Action
  | call (c : Nat) (step : CallStep)
  | reader (step : ReaderStep)

namespace Session

def moveCall (s : Session) (c : Nat) (stage : Stage) : Session :=
  { s with calls := s.calls.set c stage }

/-- A step of the call `c`. -/
def stepCall (s : Session) (c : Nat) (step : CallStep) : Option Session :=
  match s.calls c, step with
  | none, .start request =>
      some ({ s with nextId := s.nextId + 1 }.moveCall c (.drawn s.nextId request))
  | some (.drawn id request), .register =>
      some ({ s with pending := s.pending.insert id c }.moveCall c (.registered id request))
  | some (.registered id request), .registerContext =>
      some ({ s with requestContext := s.requestContext.insert id request.context }.moveCall c
        (.writing id))
  | some (.writing id), .write (.ok _) => some (s.moveCall c (.waiting id))
  | some (.writing id), .write (.error error) => some (s.moveCall c (.failing id error))
  | some (.failing id error), .removePending =>
      some ({ s with pending := s.pending.erase id }.moveCall c (.failed id error))
  | some (.failed id error), .removeContext =>
      some ({ s with requestContext := s.requestContext.erase id }.moveCall c
        (.returned id (.error error)))
  | some (.waiting id), .receive =>
      (s.inbox c).map fun m => s.moveCall c (.returned id (.ok m))
  | some (.waiting id), .senderDropped =>
      if s.pending.lookup id ≠ some c ∧ (s.inbox c).isNone then
        some (s.moveCall c (.returned id (.error requestCanceled)))
      else none
  | some (.waiting id), .expire => some (s.moveCall c (.expiring id))
  | some (.expiring id), .removePending =>
      some ({ s with pending := s.pending.erase id }.moveCall c (.expired id))
  | some (.expired id), .removeContext =>
      some ({ s with requestContext := s.requestContext.erase id }.moveCall c
        (.returned id (.error requestTimedOut)))
  | some stage, .drop =>
      if stage.outstanding then some (s.moveCall c (.dropped stage.id)) else none
  | _, _ => none

/-- The context of the request that a response answers is removed. -/
def lookupContext (s : Session) (m : Message) : Session :=
  match (summarize m.value).maybeId with
  | some id =>
      if (summarize m.value).hasResultOrError then
        { s with
          requestContext := s.requestContext.erase id
          reader := .looked m (s.requestContext.lookup id) }
      else { s with reader := .looked m none }
  | none => { s with reader := .looked m none }

/-- The call that the line is handed to: the one registered under its number, unless the line
    is a request of the server. -/
def target (s : Session) (value : Json) : Option (Nat × Nat) :=
  if (summarize value).isRequest then none
  else (summarize value).maybeId.bind fun id => (s.pending.lookup id).map fun c => (id, c)

/-- The reader goes on with the next line. -/
def dispatch (s : Session) (m : Message) (context : Option RequestContext) : Session :=
  let hidden := hiddenAfter s.hiddenThreadIds (context.map RequestContext.method) m.value
  if droppedBeforeDispatch hidden m.value then
    { s with reader := .idle, hiddenThreadIds := hidden }
  else
    let s := { s with reader := .idle, hiddenThreadIds := unhideArchived hidden m.value }
    match s.target m.value with
    | some (id, c) =>
        { s with
          pending := s.pending.erase id
          inbox := Function.update s.inbox c (some m) }
    | none => s

/-- A step of the reader loop. -/
def stepReader (s : Session) (step : ReaderStep) : Option Session :=
  match s.reader, step with
  | .idle, .line none => some { s with lines := s.lines + 1 }
  | .idle, .line (some value) =>
      some { s with lines := s.lines + 1, reader := .parsed ⟨s.lines, value⟩ }
  | .parsed m, .lookup => some (s.lookupContext m)
  | .looked m context, .dispatch => some (s.dispatch m context)
  | .idle, .endOfOutput => some { s with reader := .clearing }
  | .clearing, .clearPending => some { s with reader := .cleared, pending := ∅ }
  | .cleared, .clearContext => some { s with reader := .stopped, requestContext := ∅ }
  | _, _ => none

end Session

/-- The calls of one session and its reader. -/
def requestMachine : Machine Session Action where
  init := {}
  step s
    | .call c step => s.stepCall c step
    | .reader step => s.stepReader step

end CodexMonitor.AppServer
