import CodexMonitor.Remote.Protocol

namespace CodexMonitor.AppServer

open Text Approvals Remote

/-!
# AppServer — reading the lines of the app server

The helpers of `backend/app_server.rs` that decide what the reader loop does with a line: is
it the response to a request, a request of the server, a notification, or an event of a
thread that is hidden.

* `extractThreadId`, `sourceSubagentKind` — what is looked up in a message.
* `hiddenByList` — the threads that a `thread/list` response makes hidden.
* `Incoming` — the reader's summary of a line.
* `droppedBeforeDispatch` — the lines that the reader leaves before dispatching.
-/

/-- `container.get(key).or_else(|| container.get(other))` -/
def getEither (key other : Text) (container : Json) : Option Json :=
  (get key container).or (get other container)

def extractFromContainer (container : Json) : Option Text :=
  ((getEither "threadId".toList "thread_id".toList container).bind asStr).or
    (((get "thread".toList container).bind (get "id".toList)).bind asStr)

def extractThreadId (value : Json) : Option Text :=
  ((get "params".toList value).bind extractFromContainer).or
    ((get "result".toList value).bind extractFromContainer)

/-! ### Memory consolidation -/

def normalizeSubagentKind (value : Text) : Text :=
  let normalized := (value.trim.map asciiLower).map fun c => if c = ' ' ∨ c = '-' then '_' else c
  match stripStart normalized "subagent_".toList with
  | some stripped => stripped
  | none => (stripStart normalized "sub_agent_".toList).getD normalized

/-- A kind that is not empty. -/
def namedKind (raw : Text) : Option Text :=
  let normalized := normalizeSubagentKind raw
  if normalized.isEmpty then none else some normalized

/-- The kind named by the value of `subAgent`. -/
def subAgentKind : Json → Option Text
  | .string raw => namedKind raw
  | .object entries =>
      let explicit := (entry "kind".toList entries).or <| (entry "type".toList entries).or <|
        (entry "name".toList entries).or (entry "id".toList entries)
      match explicit.bind asStr with
      | some raw => namedKind raw
      | none =>
          match (entries.map Prod.fst).filter
              fun key => key ≠ "thread_spawn".toList ∧ key ≠ "threadSpawn".toList with
          | [key] => namedKind key
          | _ => none
  | _ => none

def sourceSubagentKind : Json → Option Text
  | .string raw => namedKind raw
  | .object entries =>
      ((entry "subAgent".toList entries).or <| (entry "sub_agent".toList entries).or
        (entry "subagent".toList entries)).bind subAgentKind
  | _ => none

def isMemoryConsolidation (source : Option Json) : Bool :=
  source.bind sourceSubagentKind = some "memory_consolidation".toList

def threadStartedIsMemoryConsolidation (value : Json) : Bool :=
  isMemoryConsolidation <| (get "params".toList value).bind fun params =>
    ((get "thread".toList params).bind (get "source".toList)).or (get "source".toList params)

/-! ### The result of `thread/list` -/

/-- A thread of the list; the working directory only serves the routing of events. -/
structure ThreadListEntry where
  threadId : Text
  isMemoryConsolidation : Bool
  deriving DecidableEq, Repr

/-- The entry that an object of the list stands for. -/
def listEntry (entries : List (Text × Json)) : List ThreadListEntry :=
  let id := (((entry "threadId".toList entries).or <| (entry "thread_id".toList entries).or
    (entry "id".toList entries)).bind asStr).or
      (((entry "thread".toList entries).bind (get "id".toList)).bind asStr)
  let source := (entry "source".toList entries).or
    ((entry "thread".toList entries).bind (get "source".toList))
  match id with
  | some threadId => [⟨threadId, AppServer.isMemoryConsolidation source⟩]
  | none => []

/-- The keys under which nested lists are looked for. -/
def listKeys : List Text := ["threads".toList, "items".toList, "results".toList, "data".toList]

mutual

/-- `collect_entries` -/
def collectEntries : Json → List ThreadListEntry
  | .array items => collectItems items
  | .object entries =>
      let nested := collectFields entries
      listEntry entries ++ listKeys.flatMap fun key => (entry key nested).getD []
  | _ => []

/-- The items of a list. -/
def collectItems : List Json → List ThreadListEntry
  | [] => []
  | item :: items => collectEntries item ++ collectItems items

/-- The fields of an object with the entries of those that are lists. -/
def collectFields : List (Text × Json) → List (Text × List ThreadListEntry)
  | [] => []
  | (key, .array items) :: rest => (key, collectItems items) :: collectFields rest
  | (key, _) :: rest => (key, []) :: collectFields rest

end

def extractThreadEntriesFromThreadListResult (value : Json) : List ThreadListEntry :=
  ((get "result".toList value).map collectEntries).getD []

/-- The threads that the response makes hidden. -/
def hiddenByList (value : Json) : List Text :=
  ((extractThreadEntriesFromThreadListResult value).filter
    ThreadListEntry.isMemoryConsolidation).map ThreadListEntry.threadId

/-! ### A line -/

/-- `should_suppress_hidden_thread_event` -/
def shouldSuppressHiddenThreadEvent (methodName : Option Text) (hasResultOrError : Bool) : Bool :=
  !hasResultOrError && !(methodName == some "thread/archived".toList ||
    methodName == some "codex/backgroundThread".toList)

/-- The reader's summary of a line. -/
structure Incoming where
  maybeId : Option Nat
  hasMethod : Bool
  hasResultOrError : Bool
  methodName : Option Text
  threadId : Option Text
  deriving DecidableEq, Repr

def summarize (value : Json) : Incoming where
  maybeId := (get "id".toList value).bind asU64
  hasMethod := (get "method".toList value).isSome
  hasResultOrError := (get "result".toList value).isSome || (get "error".toList value).isSome
  methodName := (get "method".toList value).bind asStr
  threadId := extractThreadId value

/-- A request of the server: it carries a number, but neither a result nor an error. -/
def Incoming.isRequest (m : Incoming) : Bool := m.hasMethod && !m.hasResultOrError

/-- The hidden threads behind the reader's bookkeeping for a line, before the test whether the
    line is suppressed; `requestMethod` is the method of the request it answers. -/
def hiddenAfter (hidden : List Text) (requestMethod : Option Text) (value : Json) : List Text :=
  let hidden := if requestMethod = some "thread/list".toList then hidden ++ hiddenByList value
    else hidden
  match (summarize value).threadId with
  | none => hidden
  | some tid =>
      if (summarize value).methodName = some "codex/backgroundThread".toList then
        let action := (((get "params".toList value).bind (get "action".toList)).bind asStr).getD
          "hide".toList
        if eqIgnoreAsciiCase action "hide".toList then hidden ++ [tid] else hidden
      else if (summarize value).methodName = some "thread/started".toList ∧
          threadStartedIsMemoryConsolidation value then hidden ++ [tid]
      else hidden

/-- The line is left before it is dispatched: it starts a memory consolidation, or is an event
    of a hidden thread. -/
def droppedBeforeDispatch (hidden : List Text) (value : Json) : Bool :=
  match (summarize value).threadId with
  | none => false
  | some tid =>
      ((summarize value).methodName = some "thread/started".toList &&
        threadStartedIsMemoryConsolidation value) ||
      (hidden.contains tid &&
        shouldSuppressHiddenThreadEvent (summarize value).methodName
          (summarize value).hasResultOrError)

/-- `thread/archived` makes a thread visible again. -/
def unhideArchived (hidden : List Text) (value : Json) : List Text :=
  if (summarize value).methodName = some "thread/archived".toList then
    match (summarize value).threadId with
    | some tid => hidden.filter (· ≠ tid)
    | none => hidden
  else hidden

end CodexMonitor.AppServer
