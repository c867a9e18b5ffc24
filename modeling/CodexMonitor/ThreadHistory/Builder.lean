import CodexMonitor.History.Context

namespace CodexMonitor.ThreadHistory

open CodexMonitor.History

/-!
# Thread history — the turns that a client is shown

`app-server-protocol/src/protocol/thread_history.rs`: a reducer that folds the lines of a rollout
into turns with their items.

* `ThreadItem`, `Turn`, `PendingTurn` — the result and the turn that is being filled.
* `EventMsg`, `RolloutItem` — the input.  Events that only store an item of their own are one
  constructor with the item and the route it takes.
* `ThreadHistoryBuilder` — the state; `handleRolloutItem` is its step.
* `buildTurnsFromRolloutItems` — the whole function.
-/

variable (ext : Externals)

/-! ### Items and turns -/

structure TextElement where
  start : Nat
  stop : Nat
  placeholder : Option Text
  deriving DecidableEq, Repr

inductive UserInput where
  | text (text : Text) (textElements : List TextElement)
  | image (url : Text)
  | localImage (path : Text)
  deriving DecidableEq, Repr

/-- The kinds of items that come with an id of their own. -/
inductive ToolKind where
  | plan
  | commandExecution
  | fileChange
  | mcpToolCall
  | dynamicToolCall
  | collabAgentToolCall
  | webSearch
  | imageView
  | imageGeneration
  deriving DecidableEq, Repr

/-- An item built from the payload of one event; its other fields are only stored. -/
structure ToolItem where
  kind : ToolKind
  id : Text
  fields : Text
  deriving DecidableEq, Repr

inductive ThreadItem where
  | userMessage (id : Text) (content : List UserInput)
  | hookPrompt (id : Option Text) (fragments : List (Text × Text))
  | agentMessage (id text : Text) (phase : Option MessagePhase) (memoryCitation : Option Text)
  | reasoning (id : Text) (summary content : List Text)
  | enteredReviewMode (id review : Text)
  | exitedReviewMode (id review : Text)
  | contextCompaction (id : Text)
  | tool (item : ToolItem)
  deriving DecidableEq, Repr

/-- `ThreadItem::id`; a hook prompt without an id gets a fresh one, which equals no other. -/
def ThreadItem.id : ThreadItem → Option Text
  | .userMessage id _ => some id
  | .hookPrompt id _ => id
  | .agentMessage id _ _ _ => some id
  | .reasoning id _ _ => some id
  | .enteredReviewMode id _ => some id
  | .exitedReviewMode id _ => some id
  | .contextCompaction id => some id
  | .tool item => some item.id

inductive TurnStatus where
  | completed
  | interrupted
  | failed
  | inProgress
  deriving DecidableEq, Repr

/-- A turn as it is returned. -/
structure Turn where
  id : Text
  items : List ThreadItem
  error : Option Text
  status : TurnStatus
  startedAt : Option Int
  completedAt : Option Int
  durationMs : Option Int
  deriving DecidableEq, Repr

def Turn.abort (turn : Turn) (completedAt durationMs : Option Int) : Turn :=
  { turn with status := .interrupted, completedAt := completedAt, durationMs := durationMs }

/-- A turn that failed or was interrupted keeps its status. -/
def Turn.complete (turn : Turn) (completedAt durationMs : Option Int) : Turn :=
  { turn with
    status :=
      if turn.status = .completed ∨ turn.status = .inProgress then .completed else turn.status
    completedAt := completedAt
    durationMs := durationMs }

/-- The turn that is being filled. -/
structure PendingTurn extends Turn where
  openedExplicitly : Bool
  sawCompaction : Bool
  rolloutStartIndex : Nat
  deriving DecidableEq, Repr

/-! ### The input -/

structure UserMessageEvent where
  message : Text
  images : Option (List Text)
  localImages : List Text
  textElements : List TextElement
  deriving DecidableEq, Repr

/-- Where an item goes: to the current turn, to the turn of the event, or to that turn unless
    the event leaves it empty. -/
inductive ItemRoute where
  | currentTurn
  | turnId (turnId : Text)
  | turnIdOrCurrent (turnId : Text)
  deriving DecidableEq, Repr

inductive TurnItem where
  | plan (id text : Text)
  | other
  deriving DecidableEq, Repr

inductive EventMsg where
  | userMessage (payload : UserMessageEvent)
  | agentMessage (message : Text) (phase : Option MessagePhase) (memoryCitation : Option Text)
  | agentReasoning (text : Text)
  | agentReasoningRawContent (text : Text)
  | toolItem (route : ItemRoute) (item : ToolItem)
  | itemStarted (turnId : Text) (item : TurnItem)
  | itemCompleted (turnId : Text) (item : TurnItem)
  | contextCompacted
  | enteredReviewMode (userFacingHint : Option Text)
  | exitedReviewMode (overallExplanation : Option Text)
  | error (message : Text) (affectsTurnStatus : Bool)
  | threadRolledBack (numTurns : UInt32)
  | turnAborted (turnId : Option Text) (completedAt durationMs : Option Int)
  | turnStarted (turnId : Text) (startedAt : Option Int)
  | turnComplete (turnId : Text) (completedAt durationMs : Option Int)
  | other
  deriving DecidableEq, Repr

inductive RolloutItem where
  | sessionMeta
  | responseItem (item : ResponseItem)
  | compacted (item : CompactedItem)
  | turnContext (item : TurnContextItem)
  | eventMsg (msg : EventMsg)
  deriving DecidableEq, Repr

/-! ### The state of the reducer -/

structure ThreadHistoryBuilder where
  turns : List Turn
  currentTurn : Option PendingTurn
  nextItemIndex : Nat
  currentRolloutIndex : Nat
  nextRolloutIndex : Nat
  deriving DecidableEq, Repr

namespace ThreadHistoryBuilder

def new : ThreadHistoryBuilder :=
  { turns := []
    currentTurn := none
    nextItemIndex := 1
    currentRolloutIndex := 0
    nextRolloutIndex := 0 }

variable (b : ThreadHistoryBuilder)

/-- A turn without content that nobody opened is dropped. -/
def finishCurrentTurn : ThreadHistoryBuilder :=
  match b.currentTurn with
  | some turn =>
      if turn.items.isEmpty && !turn.openedExplicitly && !turn.sawCompaction then
        { b with currentTurn := none }
      else { b with currentTurn := none, turns := b.turns ++ [turn.toTurn] }
  | none => b

def finish : List Turn := b.finishCurrentTurn.turns

/-- A turn without an id is named after the rollout line that opens it. -/
def newTurn (id : Option Text) : PendingTurn :=
  { id := id.getD ("rollout-".toList ++ Nat.toDigits 10 b.currentRolloutIndex)
    items := []
    error := none
    status := .completed
    startedAt := none
    completedAt := none
    durationMs := none
    openedExplicitly := false
    sawCompaction := false
    rolloutStartIndex := b.currentRolloutIndex }

def ensureTurn : PendingTurn := b.currentTurn.getD (b.newTurn none)

/-- Writes the items of the current turn, which is opened if there is none. -/
def withItems (update : List ThreadItem → List ThreadItem) : ThreadHistoryBuilder :=
  { b with currentTurn := some { b.ensureTurn with items := update b.ensureTurn.items } }

/-- The ids that `next_item_id` hands out. -/
def itemId (index : Nat) : Text := "item-".toList ++ Nat.toDigits 10 index

/-- `next_item_id`, and the item with that id at the end of the current turn. -/
def pushItem (item : Text → ThreadItem) : ThreadHistoryBuilder :=
  { b.withItems (· ++ [item (itemId b.nextItemIndex)]) with nextItemIndex := b.nextItemIndex + 1 }

/-! ### Items with an id of their own -/

/-- Updates the first match in place, if there is one. -/
def modifyFirst {α : Type} (p : α → Bool) (f : α → α) : List α → Option (List α)
  | [] => none
  | x :: xs => if p x then some (f x :: xs) else (modifyFirst p f xs).map (x :: ·)

def upsertTurnItem (items : List ThreadItem) (item : ThreadItem) : List ThreadItem :=
  (modifyFirst (fun existing => existing.id == item.id) (fun _ => item) items).getD
    (items ++ [item])

def upsertItemInCurrentTurn (item : ThreadItem) : ThreadHistoryBuilder :=
  b.withItems (upsertTurnItem · item)

/-- The current turn if it has the id, else the first finished one; an item for an unknown turn
    is dropped. -/
def upsertItemInTurnId (turnId : Text) (item : ThreadItem) : ThreadHistoryBuilder :=
  if b.currentTurn.any (·.id == turnId) then b.upsertItemInCurrentTurn item
  else
    match modifyFirst (fun turn : Turn => turn.id == turnId)
        (fun turn => { turn with items := upsertTurnItem turn.items item }) b.turns with
    | some turns => { b with turns := turns }
    | none => b

def upsertItem (route : ItemRoute) (item : ThreadItem) : ThreadHistoryBuilder :=
  match route with
  | .currentTurn => b.upsertItemInCurrentTurn item
  | .turnId turnId => b.upsertItemInTurnId turnId item
  | .turnIdOrCurrent turnId =>
      if turnId.isEmpty then b.upsertItemInCurrentTurn item else b.upsertItemInTurnId turnId item

/-- `handle_item_started` and `handle_item_completed`: only a plan with a text is kept. -/
def handleTurnItem (turnId : Text) : TurnItem → ThreadHistoryBuilder
  | .plan id text =>
      if text.isEmpty then b
      else b.upsertItemInTurnId turnId (.tool { kind := .plan, id := id, fields := text })
  | .other => b

/-! ### Messages -/

def buildUserInputs (payload : UserMessageEvent) : List UserInput :=
  (if payload.message.trim.isEmpty then []
    else [UserInput.text payload.message payload.textElements]) ++
    (payload.images.getD []).map .image ++ payload.localImages.map .localImage

/-- An implicit turn ends at the next user message, unless it only holds a compaction. -/
def handleUserMessage (payload : UserMessageEvent) : ThreadHistoryBuilder :=
  let b :=
    if b.currentTurn.any fun turn =>
        !turn.openedExplicitly && !(turn.sawCompaction && turn.items.isEmpty) then
      b.finishCurrentTurn
    else b
  b.pushItem fun id => .userMessage id (buildUserInputs payload)

def handleAgentMessage (text : Text) (phase : Option MessagePhase)
    (memoryCitation : Option Text) : ThreadHistoryBuilder :=
  if text.isEmpty then b else b.pushItem fun id => .agentMessage id text phase memoryCitation

def handleAgentReasoning (text : Text) : ThreadHistoryBuilder :=
  if text.isEmpty then b
  else
    match b.ensureTurn.items.getLast? with
    | some (.reasoning id summary content) =>
        b.withItems (·.dropLast ++ [.reasoning id (summary ++ [text]) content])
    | _ => b.pushItem fun id => .reasoning id [text] []

def handleAgentReasoningRawContent (text : Text) : ThreadHistoryBuilder :=
  if text.isEmpty then b
  else
    match b.ensureTurn.items.getLast? with
    | some (.reasoning id summary content) =>
        b.withItems (·.dropLast ++ [.reasoning id summary (content ++ [text])])
    | _ => b.pushItem fun id => .reasoning id [] [text]

def reviewFallbackMessage : Text := "Reviewer failed to output a response.".toList

def renderReviewOutputText (overallExplanation : Text) : Text :=
  if overallExplanation.trim.isEmpty then reviewFallbackMessage else overallExplanation.trim

def handleEnteredReviewMode (userFacingHint : Option Text) : ThreadHistoryBuilder :=
  b.pushItem fun id => .enteredReviewMode id (userFacingHint.getD "Review requested.".toList)

def handleExitedReviewMode (overallExplanation : Option Text) : ThreadHistoryBuilder :=
  b.pushItem fun id => .exitedReviewMode id
    ((overallExplanation.map renderReviewOutputText).getD reviewFallbackMessage)

/-- `parse_hook_prompt_message`, as its fragments. -/
def parseHookPromptMessage (content : List ContentItem) : Option (List (Text × Text)) :=
  match content.mapM fun item => match item with
    | .inputText text => parseHookPromptFragment ext text
    | _ => none with
  | some [] => none
  | fragments => fragments

/-- Of the response items only hook prompts are shown. -/
def handleResponseItem : ResponseItem → ThreadHistoryBuilder
  | .message id role content _ =>
      if role == "user".toList then
        match parseHookPromptMessage ext content with
        | some fragments => b.withItems (· ++ [.hookPrompt id fragments])
        | none => b
      else b
  | _ => b

/-! ### The boundaries of turns -/

def handleError (message : Text) (affectsTurnStatus : Bool) : ThreadHistoryBuilder :=
  if affectsTurnStatus then
    { b with currentTurn := b.currentTurn.map fun turn =>
        { turn with status := .failed, error := some message } }
  else b

def updateCurrent (f : Turn → Turn) : ThreadHistoryBuilder :=
  { b with currentTurn := b.currentTurn.map fun turn => { turn with toTurn := f turn.toTurn } }

/-- The turn with the id, or else the current one. -/
def handleTurnAborted (turnId : Option Text) (completedAt durationMs : Option Int) :
    ThreadHistoryBuilder :=
  let abort := fun turn : Turn => Turn.abort turn completedAt durationMs
  match turnId with
  | none => b.updateCurrent abort
  | some turnId =>
      if b.currentTurn.any (·.id == turnId) then b.updateCurrent abort
      else
        match modifyFirst (fun turn : Turn => turn.id == turnId) abort b.turns with
        | some turns => { b with turns := turns }
        | none => b.updateCurrent abort

def handleTurnStarted (turnId : Text) (startedAt : Option Int) : ThreadHistoryBuilder :=
  let b := b.finishCurrentTurn
  { b with
    currentTurn := some { b.newTurn (some turnId) with
      status := .inProgress
      startedAt := startedAt
      openedExplicitly := true } }

/-- The current turn is closed, unless the event belongs to an older one. -/
def handleTurnComplete (turnId : Text) (completedAt durationMs : Option Int) :
    ThreadHistoryBuilder :=
  let complete := fun turn : Turn => Turn.complete turn completedAt durationMs
  if b.currentTurn.any (·.id == turnId) then (b.updateCurrent complete).finishCurrentTurn
  else
    match modifyFirst (fun turn : Turn => turn.id == turnId) complete b.turns with
    | some turns => { b with turns := turns }
    | none => (b.updateCurrent complete).finishCurrentTurn

/-- Marks the current turn, so that it is kept even without items. -/
def handleCompacted : ThreadHistoryBuilder :=
  { b with currentTurn := some { b.ensureTurn with sawCompaction := true } }

def i64Max : Nat := 2 ^ 63 - 1

/-- **A rollback** cuts the list of turns and starts the item ids after the items that are left. -/
def handleThreadRollback (numTurns : UInt32) : ThreadHistoryBuilder :=
  let b := b.finishCurrentTurn
  let turns := b.turns.take (b.turns.length - numTurns.toNat)
  let itemCount := (turns.map (·.items.length)).sum
  { b with turns := turns, nextItemIndex := min (itemCount + 1) i64Max }

/-! ### The reducer -/

def handleEvent : EventMsg → ThreadHistoryBuilder
  | .userMessage payload => b.handleUserMessage payload
  | .agentMessage message phase memoryCitation => b.handleAgentMessage message phase memoryCitation
  | .agentReasoning text => b.handleAgentReasoning text
  | .agentReasoningRawContent text => b.handleAgentReasoningRawContent text
  | .toolItem route item => b.upsertItem route (.tool item)
  | .itemStarted turnId item => b.handleTurnItem turnId item
  | .itemCompleted turnId item => b.handleTurnItem turnId item
  | .contextCompacted => b.pushItem .contextCompaction
  | .enteredReviewMode userFacingHint => b.handleEnteredReviewMode userFacingHint
  | .exitedReviewMode overallExplanation => b.handleExitedReviewMode overallExplanation
  | .error message affectsTurnStatus => b.handleError message affectsTurnStatus
  | .threadRolledBack numTurns => b.handleThreadRollback numTurns
  | .turnAborted turnId completedAt durationMs => b.handleTurnAborted turnId completedAt durationMs
  | .turnStarted turnId startedAt => b.handleTurnStarted turnId startedAt
  | .turnComplete turnId completedAt durationMs =>
      b.handleTurnComplete turnId completedAt durationMs
  | .other => b

def handleRolloutItem (item : RolloutItem) : ThreadHistoryBuilder :=
  let b := { b with
    currentRolloutIndex := b.nextRolloutIndex
    nextRolloutIndex := b.nextRolloutIndex + 1 }
  match item with
  | .eventMsg msg => b.handleEvent msg
  | .compacted _ => b.handleCompacted
  | .responseItem item => b.handleResponseItem ext item
  | .turnContext _ => b
  | .sessionMeta => b

end ThreadHistoryBuilder

/-- `build_turns_from_rollout_items`. -/
def buildTurnsFromRolloutItems (items : List RolloutItem) : List Turn :=
  (items.foldl (ThreadHistoryBuilder.handleRolloutItem ext) ThreadHistoryBuilder.new).finish

end CodexMonitor.ThreadHistory
