import CodexMonitor.Lib.Counts
import CodexMonitor.Lib.Machine
import CodexMonitor.Lib.Text

namespace CodexMonitor.AgentControl

/-!
# Agent control — the registry of agents

`AgentRegistry` of `core/src/agent/registry.rs` limits the number of agents of a session.  An
attempt to spawn or to resume an agent reserves a slot first, may reserve a path, and then commits
the agent's metadata or drops the reservation.  The slots are counted by an atomic, the agents are
in a map behind a mutex; what is interleaved are the accesses to the two.

* `AgentMetadata`, `SlotState` — the entries of the map, and everything shared.
* `Attempt` — where an attempt stands.
* `Action`, `machine` — the accesses.
-/

/-! ### Agents -/

/-- The path of an agent; only that it is absolute matters here. -/
structure AgentPath where
  text : Text
  absolute : text.head? = some '/'
  deriving DecidableEq

/-- The identifier of a thread, as it is displayed. -/
structure ThreadId where
  text : Text
  deriving DecidableEq, Repr

namespace AgentPath

def root : AgentPath := ⟨"/root".toList, rfl⟩

def isRoot (path : AgentPath) : Bool := path.text = root.text

end AgentPath

/-- An agent; what has no thread yet holds the place of one that is being spawned. -/
structure AgentMetadata where
  agentId : Option ThreadId
  agentPath : Option AgentPath
  agentNickname : Option Text
  deriving DecidableEq

namespace AgentMetadata

/-- The agent takes up a slot. -/
def counted (metadata : AgentMetadata) : Bool :=
  metadata.agentId.isSome && !metadata.agentPath.any AgentPath.isRoot

/-- The key under which an agent is registered. -/
def key (threadId : ThreadId) (agentPath : Option AgentPath) : Text :=
  match agentPath with
  | some path => path.text
  | none => "thread:".toList ++ threadId.text

end AgentMetadata

/-! ### Attempts -/

/-- Where an attempt stands: it has read the count, was refused, holds a slot and perhaps a path,
    has given up the path but not yet the slot, or is over. -/
inductive Attempt where
  | comparing (current : Nat)
  | refused
  | reserved (path : Option AgentPath)
  | dropping
  | ended
  deriving DecidableEq

/-- The attempt holds a slot. -/
def Attempt.isOpen : Attempt → Bool
  | .reserved _ => true
  | .dropping => true
  | _ => false

/-- The registry, the attempts, and the number of releases that have removed an agent and not yet
    given back its slot. -/
structure SlotState where
  agentTree : Registry Text AgentMetadata
  usedAgentNicknames : List Text
  totalCount : Nat
  attempts : Registry Nat Attempt
  releasing : Nat

namespace SlotState

def initial : SlotState := ⟨∅, [], 0, ∅, 0⟩

/-- The agents that take up a slot. -/
def liveAgents (s : SlotState) : Nat := Registry.count AgentMetadata.counted s.agentTree

def openReservations (s : SlotState) : Nat := Registry.count Attempt.isOpen s.attempts

def setAttempt (s : SlotState) (i : Nat) (attempt : Attempt) : SlotState :=
  { s with attempts := s.attempts.insert i attempt }

def setCount (s : SlotState) (totalCount : Nat) : SlotState := { s with totalCount }

/-- `fetch_sub(1)` of a `usize`. -/
def fetchSub (count : Nat) : Nat := if count = 0 then 2 ^ 64 - 1 else count - 1

/-! ### The accesses -/

/-- `reserve_spawn_slot`, up to the first access: without a limit the slot is taken at once. -/
def reserve (maxThreads : Option Nat) (s : SlotState) (i : Nat) : SlotState :=
  match maxThreads with
  | none => (s.setCount (s.totalCount + 1)).setAttempt i (.reserved none)
  | some _ => s.setAttempt i (.comparing s.totalCount)

/-- One round of `try_increment_spawned`; the exchange may fail for no reason. -/
def exchange (maxThreads current : Nat) (spurious : Bool) (s : SlotState) (i : Nat) : SlotState :=
  if maxThreads ≤ current then s.setAttempt i .refused
  else if s.totalCount = current ∧ spurious = false then
    (s.setCount (s.totalCount + 1)).setAttempt i (.reserved none)
  else s.setAttempt i (.comparing s.totalCount)

/-- `reserve_agent_path`: a path that is taken is an error, and the reservation stays as it is. -/
def reserveAgentPath (s : SlotState) (i : Nat) (path : AgentPath) : SlotState :=
  match s.agentTree.lookup path.text with
  | some _ => s
  | none =>
      { s with agentTree := s.agentTree.insert path.text ⟨none, some path, none⟩ }.setAttempt i
        (.reserved (some path))

/-- `register_spawned_thread`. -/
def registerSpawnedThread (s : SlotState) (metadata : AgentMetadata) : SlotState :=
  match metadata.agentId with
  | none => s
  | some threadId =>
      { s with
        usedAgentNicknames := metadata.agentNickname.toList ++ s.usedAgentNicknames
        agentTree := s.agentTree.insert (AgentMetadata.key threadId metadata.agentPath) metadata }

/-- `commit`: the reservation is not dropped after it. -/
def commit (s : SlotState) (i : Nat) (metadata : AgentMetadata) : SlotState :=
  (s.registerSpawnedThread metadata).setAttempt i .ended

/-- `release_reserved_agent_path`. -/
def releaseReservedAgentPath (s : SlotState) (path : AgentPath) : SlotState :=
  match s.agentTree.lookup path.text with
  | some metadata =>
      if metadata.agentId = none then { s with agentTree := s.agentTree.erase path.text } else s
  | none => s

/-- A reservation is dropped: the path first. -/
def dropPath (s : SlotState) (i : Nat) (path : Option AgentPath) : SlotState :=
  (match path with
    | some path => s.releaseReservedAgentPath path
    | none => s).setAttempt i .dropping

/-- Then the slot. -/
def dropSlot (s : SlotState) (i : Nat) : SlotState :=
  (s.setCount (fetchSub s.totalCount)).setAttempt i .ended

/-- `release_spawned_thread`, the map: the entry, if any, is one of those with the thread. -/
def removeAgent (s : SlotState) (key : Text) (metadata : AgentMetadata) : SlotState :=
  { s with
    agentTree := s.agentTree.erase key
    releasing := if metadata.agentPath.any AgentPath.isRoot then s.releasing
      else s.releasing + 1 }

/-- `release_spawned_thread`, the count. -/
def finishRelease (s : SlotState) : SlotState :=
  { s with totalCount := fetchSub s.totalCount, releasing := s.releasing - 1 }

/-- `register_root_thread`. -/
def registerRootThread (s : SlotState) (threadId : ThreadId) : SlotState :=
  match s.agentTree.lookup AgentPath.root.text with
  | some _ => s
  | none =>
      { s with
        agentTree :=
          s.agentTree.insert AgentPath.root.text ⟨some threadId, some AgentPath.root, none⟩ }

end SlotState

/-! ### The machine -/

/-- One access, by one of the attempts or by a call that is none. -/
inductive Action where
  | reserve (i : Nat)
  | exchange (i : Nat) (spurious : Bool)
  | reserveAgentPath (i : Nat) (path : AgentPath)
  | commit (i : Nat) (threadId : ThreadId) (agentNickname : Option Text)
  | dropPath (i : Nat)
  | dropSlot (i : Nat)
  | release (threadId : ThreadId) (key : Option Text)
  | finishRelease
  | registerRootThread (threadId : ThreadId)
  deriving DecidableEq

/-- Which accesses are possible: an attempt goes its way, reserves at most one path and commits a
    thread with that path; a release takes any entry that has the thread. -/
def step (maxThreads : Option Nat) (s : SlotState) : Action → Option SlotState
  | .reserve i =>
      match s.attempts.lookup i with
      | none => some (s.reserve maxThreads i)
      | some _ => none
  | .exchange i spurious =>
      match s.attempts.lookup i, maxThreads with
      | some (.comparing current), some maxThreads =>
          some (s.exchange maxThreads current spurious i)
      | _, _ => none
  | .reserveAgentPath i path =>
      match s.attempts.lookup i with
      | some (.reserved none) => some (s.reserveAgentPath i path)
      | _ => none
  | .commit i threadId agentNickname =>
      match s.attempts.lookup i with
      | some (.reserved path) => some (s.commit i ⟨some threadId, path, agentNickname⟩)
      | _ => none
  | .dropPath i =>
      match s.attempts.lookup i with
      | some (.reserved path) => some (s.dropPath i path)
      | _ => none
  | .dropSlot i =>
      match s.attempts.lookup i with
      | some .dropping => some (s.dropSlot i)
      | _ => none
  | .release threadId (some key) =>
      match s.agentTree.lookup key with
      | some metadata =>
          if metadata.agentId = some threadId then some (s.removeAgent key metadata) else none
      | none => none
  | .release threadId none =>
      if s.agentTree.entries.all fun entry => entry.2.agentId ≠ some threadId then some s else none
  | .finishRelease => if s.releasing = 0 then none else some s.finishRelease
  | .registerRootThread threadId => some (s.registerRootThread threadId)

def machine (maxThreads : Option Nat) : Machine SlotState Action :=
  ⟨SlotState.initial, step maxThreads⟩

end CodexMonitor.AgentControl
