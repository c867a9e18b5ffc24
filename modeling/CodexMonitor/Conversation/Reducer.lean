import CodexMonitor.Lib.Anchors
import CodexMonitor.Lib.Machine
import CodexMonitor.Lib.Tasks
import CodexMonitor.Conversation.ListOps
import CodexMonitor.Conversation.Naming
import Mathlib.Data.Rat.Floor

namespace CodexMonitor.Conversation

open Text

/-!
# Conversation — the thread reducer

`useThreadsReducer.ts` and its slices: the state of all threads under the actions that list
refreshes, live events and the user cause.

* `ThreadState` — the threads listed for each workspace, those hidden, and the items of each
  thread.  The records of the source are maps; fields that none of these actions reads are left
  out.
* `reduceThreadLifecycle`, `reduceThreadConfig`, `reduceThreadItems`, `reduceThreadSnapshots` —
  the slices, each on its own actions.
* `threadMachine` — sequences of actions.
-/

/-! ### State -/

structure ThreadSummary where
  id : Text
  name : Text
  updatedAt : Int
  createdAt : Option Int := none
  modelId : Option Text := none
  effort : Option Text := none
  isSubagent : Option Bool := none
  subagentNickname : Option Text := none
  subagentRole : Option Text := none
  deriving DecidableEq, Repr

/-- The ids of a list of threads. -/
def threadIds (threads : List ThreadSummary) : List Text := threads.map ThreadSummary.id

structure ThreadStatus where
  isProcessing : Bool := false
  hasUnread : Bool := false
  isReviewing : Bool := false
  processingStartedAt : Option Int := none
  lastDurationMs : Option Int := none
  deriving DecidableEq, Repr

inductive ThreadListSortKey
  | createdAt
  | updatedAt
  deriving DecidableEq, Repr

structure ThreadState where
  activeThreadIdByWorkspace : Text → Option Text := fun _ => none
  itemsByThread : Text → List ConversationItem := fun _ => []
  maxItemsPerThread : Option Nat := some chatScrollbackDefault
  threadsByWorkspace : Text → List ThreadSummary := fun _ => []
  hiddenThreadIdsByWorkspace : Text → List Text := fun _ => []
  threadParentById : Registry Text Text := ∅
  threadStatusById : Text → Option ThreadStatus := fun _ => none
  threadSortKeyByWorkspace : Text → Option ThreadListSortKey := fun _ => none
  lastAgentMessageByThread : Text → Option (Text × Int) := fun _ => none

def initialState : ThreadState := {}

/-! ### Actions -/

/-- A number as an action may carry it. -/
inductive Number
  | finite (value : ℚ)
  | notFinite
  deriving DecidableEq

/-- The fields of a summary that are patched; a field may be patched to be absent. -/
structure SummaryPatch where
  isSubagent : Option Bool := none
  subagentNickname : Option (Option Text) := none
  subagentRole : Option (Option Text) := none
  createdAt : Option Int := none
  deriving DecidableEq, Repr

/-- Actions that change only fields which nothing here reads. -/
inductive OtherAction
  | setActiveTurnId
  | setThreadListLoading
  | setThreadResumeLoading
  | setThreadListPaging
  | setThreadListCursor
  | addApproval
  | removeApproval
  | addUserInputRequest
  | removeUserInputRequest
  | setThreadTokenUsage
  | setRateLimits
  | setAccountInfo
  | setThreadTurnDiff
  | setThreadPlan
  | clearThreadPlan
  deriving DecidableEq, Repr

inductive ThreadAction
  | setActiveThreadId (workspaceId : Text) (threadId : Option Text)
  | ensureThread (workspaceId threadId : Text)
  | hideThread (workspaceId threadId : Text)
  | removeThread (workspaceId threadId : Text)
  | setThreadParent (threadId parentId : Text)
  | markProcessing (threadId : Text) (isProcessing : Bool) (timestamp : Int)
  | markReviewing (threadId : Text) (isReviewing : Bool)
  | markUnread (threadId : Text) (hasUnread : Bool)
  | setThreadName (workspaceId threadId name : Text)
  | mergeThreadSummary (workspaceId threadId : Text) (patch : SummaryPatch)
  | setThreadTimestamp (workspaceId threadId : Text) (timestamp : Int)
  | setThreads (workspaceId : Text) (threads : List ThreadSummary) (sortKey : ThreadListSortKey)
      (preserveAnchors : Bool)
  | setMaxItemsPerThread (maxItemsPerThread : Option Number)
  /-- `now` is the clock. -/
  | addAssistantMessage (threadId text : Text) (now : Nat)
  | appendAgentDelta (workspaceId threadId itemId delta : Text) (hasCustomName : Bool)
  | completeAgentMessage (workspaceId threadId itemId text : Text) (hasCustomName : Bool)
  | upsertItem (workspaceId threadId : Text) (item : ConversationItem) (hasCustomName : Bool)
  | setThreadItems (threadId : Text) (items : List ConversationItem)
  | appendReasoningSummary (threadId itemId delta : Text)
  | appendReasoningSummaryBoundary (threadId itemId : Text)
  | appendReasoningContent (threadId itemId delta : Text)
  | appendPlanDelta (threadId itemId delta : Text)
  | appendToolOutput (threadId itemId delta : Text)
  | setLastAgentMessage (threadId text : Text) (timestamp : Int)
  | other (action : OtherAction)

namespace ThreadState

variable (s : ThreadState)

def setThreadsOf (workspaceId : Text) (threads : List ThreadSummary) : ThreadState :=
  { s with threadsByWorkspace := Function.update s.threadsByWorkspace workspaceId threads }

def setActive (workspaceId : Text) (threadId : Option Text) : ThreadState :=
  { s with
    activeThreadIdByWorkspace := Function.update s.activeThreadIdByWorkspace workspaceId threadId }

def setStatus (threadId : Text) (status : ThreadStatus) : ThreadState :=
  { s with threadStatusById := Function.update s.threadStatusById threadId (some status) }

def setItems (threadId : Text) (items : List ConversationItem) : ThreadState :=
  { s with itemsByThread := Function.update s.itemsByThread threadId items }

/-- The list that the reducer stores for a thread. -/
def storeItems (threadId : Text) (items : List ConversationItem) : ThreadState :=
  s.setItems threadId (prepareThreadItems s.maxItemsPerThread items)

def isHidden (workspaceId threadId : Text) : Bool :=
  (s.hiddenThreadIdsByWorkspace workspaceId).contains threadId

def status (threadId : Text) : ThreadStatus := (s.threadStatusById threadId).getD {}

/-- `prefersUpdatedSort` -/
def prefersUpdatedSort (workspaceId : Text) : Bool :=
  (s.threadSortKeyByWorkspace workspaceId).getD .updatedAt = .updatedAt

end ThreadState

/-- The thread first, then the others. -/
def bumpThread (threadId : Text) (threads : List ThreadSummary) : List ThreadSummary :=
  threads.filter (fun thread => thread.id = threadId) ++
    threads.filter (fun thread => thread.id ≠ threadId)

/-- One thread of a list is changed. -/
def mapThread (threadId : Text) (f : ThreadSummary → ThreadSummary)
    (threads : List ThreadSummary) : List ThreadSummary :=
  threads.map fun thread => if thread.id = threadId then f thread else thread

/-! ### The lifecycle slice -/

/-- The active thread once `threadId` has left the list. -/
def ThreadState.activeWithout (s : ThreadState) (workspaceId threadId : Text)
    (filtered : List ThreadSummary) : Option Text :=
  if s.activeThreadIdByWorkspace workspaceId = some threadId then filtered.head?.map ThreadSummary.id
  else s.activeThreadIdByWorkspace workspaceId

def SummaryPatch.apply (patch : SummaryPatch) (thread : ThreadSummary) : ThreadSummary :=
  { thread with
    isSubagent := patch.isSubagent.or thread.isSubagent
    subagentNickname := patch.subagentNickname.getD thread.subagentNickname
    subagentRole := patch.subagentRole.getD thread.subagentRole
    createdAt := patch.createdAt.or thread.createdAt }

def ThreadState.markProcessing (s : ThreadState) (threadId : Text) (isProcessing : Bool)
    (timestamp : Int) : ThreadState :=
  let previous := s.status threadId
  -- a start at 0 counts as none
  let startedAt := previous.processingStartedAt.filter fun at_ => previous.isProcessing && at_ ≠ 0
  if isProcessing then
    s.setStatus threadId
      { previous with isProcessing := true, processingStartedAt := some (startedAt.getD timestamp) }
  else
    let lastDurationMs := match startedAt with
      | some at_ => some (max 0 (timestamp - at_))
      | none => previous.lastDurationMs
    s.setStatus threadId
      { previous with
        isProcessing := false, processingStartedAt := none, lastDurationMs := lastDurationMs }

/-- The summary of a thread that stays in a refreshed list, with the time of its last activity. -/
def ThreadState.freshenAnchorSummary (s : ThreadState) (summary : ThreadSummary) : ThreadSummary :=
  let lastMessageTimestamp := ((s.lastAgentMessageByThread summary.id).map Prod.snd).getD 0
  let processingStartedAt := (s.status summary.id).processingStartedAt.getD 0
  let nextUpdatedAt := max (max summary.updatedAt lastMessageTimestamp) processingStartedAt
  if nextUpdatedAt ≤ summary.updatedAt then summary else { summary with updatedAt := nextUpdatedAt }

/-- A thread of the old list is added to the refreshed one. -/
def ThreadState.appendExistingAnchor (s : ThreadState) (workspaceId : Text)
    (reconciled : List ThreadSummary) (threadId : Text) : List ThreadSummary :=
  if threadId.isEmpty || s.isHidden workspaceId threadId || (threadIds reconciled).contains threadId
  then reconciled
  else match (s.threadsByWorkspace workspaceId).reverse.find? fun thread => thread.id = threadId with
    | some summary => reconciled ++ [s.freshenAnchorSummary summary]
    | none => reconciled

/-- The parents of a thread are added, up to one that was visited. -/
def ThreadState.appendParents (s : ThreadState) (workspaceId : Text) (visited : List Text)
    (threadId : Text) (reconciled : List ThreadSummary) : List ThreadSummary :=
  match _hparent : s.threadParentById.lookup threadId with
  | none => reconciled
  | some parentId =>
      if _hvisited : parentId.isEmpty = true ∨ parentId ∈ visited then reconciled
      else s.appendParents workspaceId (parentId :: visited) parentId
        (s.appendExistingAnchor workspaceId reconciled parentId)
termination_by ((s.threadParentById.entries.map Sigma.snd).filter (· ∉ visited)).length
decreasing_by
  have hmem : parentId ∈ s.threadParentById.entries.map Sigma.snd :=
    List.mem_map.mpr ⟨_, Registry.mem_of_lookup _hparent, rfl⟩
  exact Ancestry.length_unvisited_lt hmem fun h => _hvisited (.inr h)

def ThreadState.setThreads (s : ThreadState) (workspaceId : Text) (threads : List ThreadSummary)
    (sortKey : ThreadListSortKey) (preserveAnchors : Bool) : ThreadState :=
  let visibleThreads := threads.filter fun thread => !s.isHidden workspaceId thread.id
  let active := s.activeThreadIdByWorkspace workspaceId
  let sorted := { s with
    threadSortKeyByWorkspace :=
      Function.update s.threadSortKeyByWorkspace workspaceId (some sortKey) }
  if preserveAnchors then
    let withActive := match active with
      | some threadId => s.appendExistingAnchor workspaceId visibleThreads threadId
      | none => visibleThreads
    let processing := (s.threadsByWorkspace workspaceId).filter fun thread =>
      (s.status thread.id).isProcessing
    let withProcessing := (threadIds processing).foldl (s.appendExistingAnchor workspaceId) withActive
    let reconciled := (threadIds withProcessing).foldl (fun reconciled threadId =>
      s.appendParents workspaceId [threadId] threadId reconciled) withProcessing
    sorted.setThreadsOf workspaceId reconciled
  else
    let stillVisible := active.any fun threadId =>
      !threadId.isEmpty && (threadIds visibleThreads).contains threadId
    let nextActive := if stillVisible then active else visibleThreads.head?.map ThreadSummary.id
    (sorted.setThreadsOf workspaceId visibleThreads).setActive workspaceId nextActive

/-- The slice of the lists of threads. -/
def reduceThreadLifecycle (s : ThreadState) : ThreadAction → ThreadState
  | .setActiveThreadId workspaceId threadId =>
      let active := s.setActive workspaceId threadId
      match threadId.filter fun id => !id.isEmpty with
      | some id => active.setStatus id { s.status id with hasUnread := false }
      | none => active
  | .ensureThread workspaceId threadId =>
      let list := s.threadsByWorkspace workspaceId
      if s.isHidden workspaceId threadId || (threadIds list).contains threadId then s
      else
        let thread := { id := threadId, name := "New Agent".toList, updatedAt := 0 }
        ((s.setThreadsOf workspaceId (thread :: list)).setStatus threadId {}).setActive workspaceId
          ((s.activeThreadIdByWorkspace workspaceId).or (some threadId))
  | .hideThread workspaceId threadId =>
      if s.isHidden workspaceId threadId then s
      else
        let filtered := (s.threadsByWorkspace workspaceId).filter fun thread => thread.id ≠ threadId
        let hidden := threadId :: s.hiddenThreadIdsByWorkspace workspaceId
        ({ s with
          hiddenThreadIdsByWorkspace :=
            Function.update s.hiddenThreadIdsByWorkspace workspaceId hidden }.setThreadsOf workspaceId
          filtered).setActive workspaceId (s.activeWithout workspaceId threadId filtered)
  | .removeThread workspaceId threadId =>
      let filtered := (s.threadsByWorkspace workspaceId).filter fun thread => thread.id ≠ threadId
      ({ s with
        itemsByThread := Function.update s.itemsByThread threadId []
        threadStatusById := Function.update s.threadStatusById threadId none
        threadParentById := s.threadParentById.erase threadId }.setThreadsOf workspaceId
        filtered).setActive workspaceId (s.activeWithout workspaceId threadId filtered)
  | .setThreadParent threadId parentId =>
      if parentId.isEmpty || parentId = threadId then s
      else { s with threadParentById := s.threadParentById.insert threadId parentId }
  | .markProcessing threadId isProcessing timestamp =>
      s.markProcessing threadId isProcessing timestamp
  | .markReviewing threadId isReviewing =>
      s.setStatus threadId { s.status threadId with isReviewing := isReviewing }
  | .markUnread threadId hasUnread =>
      s.setStatus threadId { s.status threadId with hasUnread := hasUnread }
  | .setThreadName workspaceId threadId name =>
      s.setThreadsOf workspaceId (mapThread threadId (fun thread => { thread with name := name })
        (s.threadsByWorkspace workspaceId))
  | .mergeThreadSummary workspaceId threadId patch =>
      s.setThreadsOf workspaceId (mapThread threadId patch.apply (s.threadsByWorkspace workspaceId))
  | .setThreadTimestamp workspaceId threadId timestamp =>
      let list := s.threadsByWorkspace workspaceId
      if list.any fun thread => thread.id = threadId && thread.updatedAt < timestamp then
        let next := mapThread threadId (fun thread =>
          { thread with updatedAt := max thread.updatedAt timestamp }) list
        s.setThreadsOf workspaceId
          (if s.prefersUpdatedSort workspaceId then bumpThread threadId next else next)
      else s
  | .setThreads workspaceId threads sortKey preserveAnchors =>
      s.setThreads workspaceId threads sortKey preserveAnchors
  | _ => s

/-! ### The configuration slice -/

/-- `normalizeMaxItemsPerThread` -/
def normalizeMaxItemsPerThread : Option Number → Option Nat
  | none => none
  | some (.finite value) =>
      if 0 < value then some ⌊value⌋.toNat else some chatScrollbackDefault
  | some .notFinite => some chatScrollbackDefault

/-- `items.slice(-n)` for a list longer than `n`; `slice(-0)` is the whole list. -/
def trimItems (n : Nat) (items : List ConversationItem) : List ConversationItem :=
  if n = 0 then items else lastItems n items

def reduceThreadConfig (s : ThreadState) : ThreadAction → ThreadState
  | .setMaxItemsPerThread maxItemsPerThread =>
      let normalized := normalizeMaxItemsPerThread maxItemsPerThread
      if s.maxItemsPerThread = normalized then s
      else
        { s with
          maxItemsPerThread := normalized
          itemsByThread := match normalized with
            | some n => fun threadId => trimItems n (s.itemsByThread threadId)
            | none => s.itemsByThread }
  | _ => s

/-! ### The items slice -/

/-- The text with a piece that a stream delivers, which may repeat what is there. -/
def mergeStreamingText (existing delta : Text) : Text :=
  if delta.isEmpty then existing
  else if existing.isEmpty then delta
  else if startsWith delta existing then delta
  else if startsWith existing delta then existing
  else
    let lengths := (List.range' 1 (min existing.length delta.length)).reverse
    match lengths.find? fun length => endsWith existing (delta.take length) with
    | some length => existing ++ delta.drop length
    | none => existing ++ delta

def addSummaryBoundary (existing : Text) : Text :=
  if existing.isEmpty || endsWith existing "\n\n".toList then existing
  else if endsWith existing "\n".toList then existing ++ "\n".toList
  else existing ++ "\n\n".toList

/-- The item with the id is replaced, in its place, or added at the end. -/
def putItem (itemId : Text) (f : Option Body → Body) :
    List ConversationItem → List ConversationItem
  | [] => [⟨itemId, f none⟩]
  | existing :: rest =>
      if existing.id = itemId then ⟨itemId, f (some existing.body)⟩ :: rest
      else existing :: putItem itemId f rest

/-- The message with the id is changed.  If there is no item with the id, or one of another
    kind, a message is added at the end. -/
def putMessage (itemId : Text) (f : Message → Message) (added : Text) :
    List ConversationItem → List ConversationItem
  | [] => [⟨itemId, .message { role := .assistant, text := added }⟩]
  | existing :: rest =>
      if existing.id = itemId then
        match existing.body with
        | .message m => ⟨existing.id, .message (f m)⟩ :: rest
        | _ => existing :: rest ++ [⟨itemId, .message { role := .assistant, text := added }⟩]
      else existing :: putMessage itemId f added rest

/-- The tool with the id is changed, if the first item with the id is one. -/
def updateTool (itemId : Text) (f : Tool → Tool) :
    List ConversationItem → List ConversationItem
  | [] => []
  | existing :: rest =>
      if existing.id = itemId then
        match existing.body with
        | .tool t => ⟨existing.id, .tool (f t)⟩ :: rest
        | _ => existing :: rest
      else existing :: updateTool itemId f rest

def ConversationItem.isMessageOf (role : Role) (item : ConversationItem) : Bool :=
  match item.body with
  | .message m => m.role = role
  | _ => false

def ConversationItem.messageText (item : ConversationItem) : Text :=
  match item.body with
  | .message m => m.text
  | _ => []

def getAssistantTextForRename (items : List ConversationItem) (itemId : Text) : Text :=
  let byId := if itemId.isEmpty then none
    else items.find? fun item => item.isMessageOf .assistant && item.id = itemId
  ((byId.or (items.reverse.find? (·.isMessageOf .assistant))).map
    ConversationItem.messageText).getD []

def ThreadState.maybeRenameThreadFromAgent (s : ThreadState) (workspaceId threadId : Text)
    (items : List ConversationItem) (itemId : Text) (hasCustomName : Bool) : ThreadState :=
  if items.any (·.isMessageOf .user) || hasCustomName then s
  else match clampThreadName (getAssistantTextForRename items itemId) with
    | none => s
    | some nextName =>
        s.setThreadsOf workspaceId (mapThread threadId (fun thread =>
          if looksAutoGeneratedThreadName thread.name then { thread with name := nextName }
          else thread) (s.threadsByWorkspace workspaceId))

def isLocalReviewStart (item : ConversationItem) : Bool :=
  match item.body with
  | .review r => r.state = .started && startsWith item.id "review-start-".toList
  | _ => false

/-- The list without its last local review start. -/
def dropLatestLocalReviewStart (list : List ConversationItem) : List ConversationItem :=
  (list.reverse.eraseP isLocalReviewStart).reverse

/-- A review of the same state and text, up to blanks. -/
def isSameReview (review : Review) (item : ConversationItem) : Bool :=
  match item.body with
  | .review r => r.state = review.state && r.text.jsTrim = review.text.jsTrim
  | _ => false

/-- `${id}-${suffix}` -/
def suffixedId (id : Text) (suffix : Nat) : Text := id ++ "-".toList ++ (toString suffix).toList

/-- The first suffix from `suffix` on that gives a new id; one of the next `turns` does. -/
def uniqueSuffix (existingIds : List Text) (id : Text) : Nat → Nat → Nat
  | 0, suffix => suffix
  | turns + 1, suffix =>
      if suffixedId id suffix ∈ existingIds then uniqueSuffix existingIds id turns (suffix + 1)
      else suffix

/-- `ensureUniqueReviewId`, for a review. -/
def ensureUniqueReviewId (list : List ConversationItem) (item : ConversationItem) :
    ConversationItem :=
  if item.id ∈ ids list then
    { item with id := suffixedId item.id (uniqueSuffix (ids list) item.id list.length 1) }
  else item

/-- The list and the item that an upsert works on, unless the item is a review that is there
    already. -/
def reviewUpsert (list : List ConversationItem) (item : ConversationItem) :
    Option (List ConversationItem × ConversationItem) :=
  match item.body with
  | .review review =>
      let list :=
        if review.state = .started && !startsWith item.id "review-start-".toList then
          dropLatestLocalReviewStart list
        else list
      if list.any fun entry => isSameReview review entry && entry.id = item.id then none
      else if (list.find? (isSameReview review)).any fun entry => entry.id ≠ item.id then none
      else some (list, ensureUniqueReviewId list item)
  | _ => some (list, item)

/-- The list of threads after a message of the user: its first message names the thread, and
    the thread comes first if the list is sorted by updates. -/
def ThreadState.threadsAfterUserMessage (s : ThreadState) (workspaceId threadId : Text)
    (text : Text) (hadUserMessage hasCustomName : Bool) : List ThreadSummary :=
  let renameText := extractRenameText text
  let updated := mapThread threadId (fun thread =>
    if !hadUserMessage && !renameText.isEmpty && looksAutoGeneratedThreadName thread.name &&
        !hasCustomName then
      { thread with name := cutName renameText }
    else thread) (s.threadsByWorkspace workspaceId)
  if s.prefersUpdatedSort workspaceId then bumpThread threadId updated else updated

def ThreadState.upsert (s : ThreadState) (workspaceId threadId : Text) (item : ConversationItem)
    (hasCustomName : Bool) : ThreadState :=
  let item := normalizeItem item
  let list := s.itemsByThread threadId
  match reviewUpsert list item with
  | none => s
  | some (list, nextItem) =>
      let stored := s.storeItems threadId (Conversation.upsertItem list nextItem)
      if item.isMessageOf .user then
        stored.setThreadsOf workspaceId (s.threadsAfterUserMessage workspaceId threadId
          item.messageText (list.any (·.isMessageOf .user)) hasCustomName)
      else stored

/-- A piece of an agent message, or the whole of it. -/
def ThreadState.putAgentMessage (s : ThreadState) (workspaceId threadId itemId text : Text)
    (f : Message → Message) (hasCustomName : Bool) : ThreadState :=
  let updated :=
    prepareThreadItems s.maxItemsPerThread (putMessage itemId f text (s.itemsByThread threadId))
  (s.setItems threadId updated).maybeRenameThreadFromAgent workspaceId threadId updated itemId
    hasCustomName

/-- The reasoning with the id, or a new one. -/
def putReasoning (itemId : Text) (f : Reasoning → Reasoning) :
    List ConversationItem → List ConversationItem :=
  putItem itemId fun existing => match existing with
    | some (.reasoning r) => .reasoning (f r)
    | _ => .reasoning (f ⟨[], []⟩)

/-- The plan with the id, which any tool item is turned into. -/
def putPlan (itemId delta : Text) : List ConversationItem → List ConversationItem :=
  putItem itemId fun existing =>
    let base : Tool := match existing with
      | some (.tool t) => t
      | _ => { toolType := "plan".toList, title := "Plan".toList, detail := [] }
    .tool { base with
      toolType := "plan".toList
      title := "Plan".toList
      detail := "Generating plan...".toList
      status := some "in_progress".toList
      output := some (mergeStreamingText (base.output.getD []) delta) }

/-- The slice of the items. -/
def reduceThreadItems (s : ThreadState) : ThreadAction → ThreadState
  | .addAssistantMessage threadId text now =>
      let id := (toString now).toList ++ "-assistant".toList
      s.storeItems threadId
        (s.itemsByThread threadId ++ [⟨id, .message { role := .assistant, text := text }⟩])
  | .appendAgentDelta workspaceId threadId itemId delta hasCustomName =>
      s.putAgentMessage workspaceId threadId itemId delta
        (fun m => { m with text := mergeStreamingText m.text delta }) hasCustomName
  | .completeAgentMessage workspaceId threadId itemId text hasCustomName =>
      s.putAgentMessage workspaceId threadId itemId text
        (fun m => { m with text := if text.isEmpty then m.text else text }) hasCustomName
  | .upsertItem workspaceId threadId item hasCustomName =>
      s.upsert workspaceId threadId item hasCustomName
  | .setThreadItems threadId items => s.storeItems threadId items
  | .appendReasoningSummary threadId itemId delta =>
      s.storeItems threadId (putReasoning itemId (fun r =>
        { r with summary := mergeStreamingText r.summary delta }) (s.itemsByThread threadId))
  | .appendReasoningSummaryBoundary threadId itemId =>
      s.storeItems threadId (putReasoning itemId (fun r =>
        { r with summary := addSummaryBoundary r.summary }) (s.itemsByThread threadId))
  | .appendReasoningContent threadId itemId delta =>
      s.storeItems threadId (putReasoning itemId (fun r =>
        { r with content := mergeStreamingText r.content delta }) (s.itemsByThread threadId))
  | .appendPlanDelta threadId itemId delta =>
      s.storeItems threadId (putPlan itemId delta (s.itemsByThread threadId))
  | .appendToolOutput threadId itemId delta =>
      match (s.itemsByThread threadId).find? fun item => item.id = itemId with
      | some ⟨_, .tool _⟩ =>
          s.storeItems threadId (updateTool itemId (fun t =>
            { t with output := some (mergeStreamingText (t.output.getD []) delta) })
            (s.itemsByThread threadId))
      | _ => s
  | _ => s

/-! ### The snapshots slice and the reducer -/

def reduceThreadSnapshots (s : ThreadState) : ThreadAction → ThreadState
  | .setLastAgentMessage threadId text timestamp =>
      if (s.lastAgentMessageByThread threadId).any fun message => timestamp ≤ message.2 then s
      else
        { s with
          lastAgentMessageByThread :=
            Function.update s.lastAgentMessageByThread threadId (some (text, timestamp)) }
  | _ => s

/-- **The reducer.** Each action belongs to one slice, and the others leave the state as it is. -/
def threadReducer (s : ThreadState) (action : ThreadAction) : ThreadState :=
  reduceThreadSnapshots
    (reduceThreadItems (reduceThreadConfig (reduceThreadLifecycle s action) action) action) action

/-- Sequences of actions. -/
def threadMachine : Machine ThreadState ThreadAction where
  init := initialState
  step := fun s action => some (threadReducer s action)

end CodexMonitor.Conversation
