import CodexMonitor.Lib.Machine
import CodexMonitor.Lib.Text
import Mathlib.Logic.Function.Basic

namespace CodexMonitor.Workspaces

/-!
# Workspaces — the operations on the shared app-server session

`shared/workspaces_core`: connecting and adding workspaces, replacing the session to change
its arguments, and the killing done by the remove operations, interleaved at their await
points.  A global lock is held by the operations that may spawn; killing does without it.

* `Child` — what became of a child process.
* `Op`, `Stage` — the operations, and where a running one stands: each stage ends with one
  locked access to the sessions map or to a child, or with the outcome of a spawn or of
  writing the list of workspaces.
* `advance` — the end of a stage.
* `sessionMachine` — the interleavings, with children exiting at any point.
-/

abbrev SessionId := Nat

abbrev OpId := Nat

/-- A child process: it exits by itself or is killed by the app. -/
inductive Child
  | unspawned
  | alive
  | exited
  | killed
  deriving DecidableEq, Repr

/-- The operations, with their workspace and the arguments their session is to have. -/
inductive Op
  | connectWorkspace (workspaceId : Text) (codexArgs : Option Text)
  | addWorkspace (workspaceId : Text) (codexArgs : Option Text)
  | addWorktree (workspaceId : Text) (codexArgs : Option Text)
  | setWorkspaceRuntimeCodexArgs (workspaceId : Text) (targetArgs : Option Text)
  | killSessionById (workspaceId : Text)
  deriving DecidableEq, Repr

def Op.workspaceId : Op → Text
  | .connectWorkspace workspaceId _ | .addWorkspace workspaceId _ | .addWorktree workspaceId _
  | .setWorkspaceRuntimeCodexArgs workspaceId _ | .killSessionById workspaceId => workspaceId

def Op.codexArgs : Op → Option Text
  | .connectWorkspace _ args | .addWorkspace _ args | .addWorktree _ args
  | .setWorkspaceRuntimeCodexArgs _ args => args
  | .killSessionById _ => none

/-- Where a running operation stands.  A session in hand was found in the map, or is `fresh`:
    spawned by this operation. -/
inductive Stage
  /-- Waits for the spawn lock. -/
  | waiting
  /-- Connecting: looks for the workspace's own entry, checks its child, drops a dead one. -/
  | readEntry
  | checkEntry (session : SessionId)
  | dropEntry (session : SessionId)
  /-- `take_live_shared_session`: takes any entry, checks its child, drops a dead one. -/
  | readAny
  | checkAny (session : SessionId)
  | dropAny (session : SessionId)
  | spawning
  /-- Writes the list of workspaces; kills the session it spawned if that fails. -/
  | persisting (session : SessionId) (fresh : Bool)
  | discarding (session : SessionId)
  /-- Registers the workspace and inserts its entry. -/
  | inserting (session : SessionId) (fresh : Bool)
  /-- Changing the arguments: reads the map, spawns, replaces every entry, kills the old. -/
  | readArgs
  | respawning (current : SessionId)
  | replacing (current new : SessionId)
  | retiring (current : SessionId)
  /-- Killing: removes the entry, unregisters the workspace, kills an unreferenced child. -/
  | removing
  | unregistering (session : SessionId) (stillReferenced : Bool)
  | killing (session : SessionId)
  deriving DecidableEq, Repr

/-- The sessions map, the children with the arguments they were spawned with, the holder of
    the spawn lock and the running operations. -/
structure Sys where
  sessions : List (Text × SessionId) := []
  child : SessionId → Child := fun _ => .unspawned
  codexArgs : SessionId → Option Text := fun _ => none
  lock : Option OpId := none
  ops : OpId → Option (Op × Stage) := fun _ => none

namespace Sys

variable (sys : Sys)

/-- The sessions that entries refer to. -/
def values : List SessionId := sys.sessions.map Prod.snd

def get (workspaceId : Text) : Option SessionId :=
  (sys.sessions.find? fun e => e.1 = workspaceId).map Prod.snd

def insert (workspaceId : Text) (session : SessionId) : Sys :=
  { sys with
    sessions := (workspaceId, session) :: sys.sessions.filter fun e => e.1 ≠ workspaceId }

def remove (workspaceId : Text) : Sys :=
  { sys with sessions := sys.sessions.filter fun e => e.1 ≠ workspaceId }

/-- `remove_session_references`. -/
def removeSessionReferences (session : SessionId) : Sys :=
  { sys with sessions := sys.sessions.filter fun e => e.2 ≠ session }

/-- Every key is bound to the new session. -/
def replaceAll (new : SessionId) : Sys :=
  { sys with sessions := sys.sessions.map fun e => (e.1, new) }

/-- `session_process_is_alive`. -/
def isAlive (session : SessionId) : Bool := sys.child session = .alive

/-- `kill_child_process_tree`; a child that has exited is not killed any more. -/
def killChild (session : SessionId) : Sys :=
  if sys.isAlive session then { sys with child := Function.update sys.child session .killed }
  else sys

/-- A new child. -/
def spawn (session : SessionId) (args : Option Text) : Sys :=
  { sys with
    child := Function.update sys.child session .alive
    codexArgs := Function.update sys.codexArgs session args }

/-- The operation goes on to a stage. -/
def goto (id : OpId) (op : Op) (stage : Stage) : Sys :=
  { sys with ops := Function.update sys.ops id (some (op, stage)) }

/-- The operation returns; the guard of the spawn lock is dropped. -/
def finish (id : OpId) : Sys :=
  { sys with
    ops := Function.update sys.ops id none
    lock := if sys.lock = some id then none else sys.lock }

end Sys

/-! ### The stages -/

/-- How the end of a stage turns out, where the code does not determine it: which entry
    `values().next()` yields, the child that was spawned, or that something failed. -/
inductive Outcome
  | ok
  | fail
  | pick (choice : Option SessionId)
  | fresh (session : SessionId)
  /-- The spawn fails and leaves its child running: `initialize` was answered with an error. -/
  | abandoned (session : SessionId)
  deriving DecidableEq, Repr

/-- The first stage of an operation. -/
def Op.firstStage : Op → Stage
  | .killSessionById _ => .removing
  | _ => .waiting

/-- The stage of an operation that has just got the spawn lock. -/
def Op.lockedStage : Op → Stage
  | .connectWorkspace _ _ => .readEntry
  | .setWorkspaceRuntimeCodexArgs _ _ => .readArgs
  | _ => .readAny

/-- What is done with a session once there is one: connecting inserts it, adding first writes
    the list of workspaces. -/
def Op.useSession (op : Op) (session : SessionId) (fresh : Bool) : Stage :=
  match op with
  | .connectWorkspace _ _ => .inserting session fresh
  | _ => .persisting session fresh

/-- `values().next()` can yield this. -/
def validPick (sys : Sys) : Option SessionId → Bool
  | none => sys.sessions.isEmpty
  | some session => sys.values.contains session

/-- **The end of a stage** of the operation `id`. -/
def advance (sys : Sys) (id : OpId) (op : Op) : Stage → Outcome → Option Sys
  | .readEntry, .ok =>
      match sys.get op.workspaceId with
      | some session => some (sys.goto id op (.checkEntry session))
      | none => some (sys.goto id op .readAny)
  | .checkEntry session, .ok =>
      if sys.isAlive session then some (sys.finish id)
      else some (sys.goto id op (.dropEntry session))
  | .dropEntry session, .ok => some ((sys.removeSessionReferences session).goto id op .readAny)
  | .readAny, .pick choice =>
      if validPick sys choice then
        match choice with
        | some session => some (sys.goto id op (.checkAny session))
        | none => some (sys.goto id op .spawning)
      else none
  | .checkAny session, .ok =>
      if sys.isAlive session then some (sys.goto id op (op.useSession session false))
      else some (sys.goto id op (.dropAny session))
  | .dropAny session, .ok => some ((sys.removeSessionReferences session).goto id op .readAny)
  | .spawning, .fresh session =>
      if sys.child session = .unspawned then
        some ((sys.spawn session op.codexArgs).goto id op (op.useSession session true))
      else none
  | .spawning, .fail => some (sys.finish id)
  | .spawning, .abandoned session =>
      if sys.child session = .unspawned then some ((sys.spawn session op.codexArgs).finish id)
      else none
  | .persisting session fresh, .ok => some (sys.goto id op (.inserting session fresh))
  -- a worktree that cannot be saved returns with `?`, past the clean-up of the others
  | .persisting session fresh, .fail =>
      match op with
      | .addWorktree _ _ => some (sys.finish id)
      | _ => if fresh then some (sys.goto id op (.discarding session)) else some (sys.finish id)
  | .discarding session, .ok => some ((sys.killChild session).finish id)
  | .inserting session _, .ok => some ((sys.insert op.workspaceId session).finish id)
  | .readArgs, .pick choice =>
      if validPick sys choice then
        -- not connected: nothing to respawn
        if (sys.get op.workspaceId).isNone then some (sys.finish id)
        else
          match choice with
          | none => some (sys.finish id)
          | some current =>
              if sys.codexArgs current = op.codexArgs then some (sys.finish id)
              else some (sys.goto id op (.respawning current))
      else none
  | .respawning current, .fresh new =>
      if sys.child new = .unspawned then
        some ((sys.spawn new op.codexArgs).goto id op (.replacing current new))
      else none
  | .respawning _, .fail => some (sys.finish id)
  | .respawning _, .abandoned session =>
      if sys.child session = .unspawned then some ((sys.spawn session op.codexArgs).finish id)
      else none
  | .replacing current new, .ok => some ((sys.replaceAll new).goto id op (.retiring current))
  | .retiring current, .ok => some ((sys.killChild current).finish id)
  | .removing, .ok =>
      match sys.get op.workspaceId with
      | none => some (sys.finish id)
      | some session =>
          -- `still_referenced` is computed under the same guard as the removal
          let removed := sys.remove op.workspaceId
          some (removed.goto id op (.unregistering session (removed.values.contains session)))
  | .unregistering session stillReferenced, .ok =>
      if stillReferenced then some (sys.finish id) else some (sys.goto id op (.killing session))
  | .killing session, .ok => some ((sys.killChild session).finish id)
  | _, _ => none

/-! ### The interleavings -/

/-- What can happen: an operation is called, gets the spawn lock or ends a stage; a child
    exits. -/
inductive Action
  | call (id : OpId) (op : Op)
  | acquire (id : OpId)
  | advance (id : OpId) (outcome : Outcome)
  | exit (session : SessionId)
  deriving DecidableEq, Repr

def step (sys : Sys) : Action → Option Sys
  | .call id op =>
      match sys.ops id with
      | none => some (sys.goto id op op.firstStage)
      | some _ => none
  | .acquire id =>
      match sys.ops id, sys.lock with
      | some (op, .waiting), none =>
          some { sys.goto id op op.lockedStage with lock := some id }
      | _, _ => none
  | .advance id outcome =>
      match sys.ops id with
      | some (op, stage) => advance sys id op stage outcome
      | none => none
  | .exit session =>
      if sys.isAlive session then
        some { sys with child := Function.update sys.child session .exited }
      else none

/-- The app from its start: no session, nothing running. -/
def sessionMachine : Machine Sys Action := { init := {}, step := step }

end CodexMonitor.Workspaces
