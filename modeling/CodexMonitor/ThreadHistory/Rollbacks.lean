import Mathlib.Data.List.Induction
import CodexMonitor.ThreadHistory.Builder
import CodexMonitor.Rollout.Reconstruct

namespace CodexMonitor.ThreadHistory

open CodexMonitor.History CodexMonitor.Rollout

/-!
# Thread history — rollbacks by turn and rollbacks by message

A rollback marker is read twice: the shown turns lose their newest turns, and the model's history
loses its newest user messages.  On rollouts of explicitly opened turns the two are compared.

* `Line`, `TurnBlock`, `Block` — the rollouts; a user message comes as an event and as the
  response item that reads as the same message.
* `Agrees` — both implementations end with the same user messages.
* `shownStep`, `keptStep` — what a block does to the messages, grouped by turn and not.
* `Between`, `Inside` — the invariants of the reducer between two blocks and inside a turn.
* `turns_userMessages` — the shown turns follow `shownStep`.
-/

variable (ext : Externals)

/-! ### Rollouts of explicitly opened turns -/

open ThreadHistoryBuilder in
/-- Events that neither open or close a turn nor hold a user message; the ids of their items are
    not among the generated ones. -/
def IsQuiet : EventMsg → Prop
  | .agentMessage _ _ _ => True
  | .agentReasoning _ => True
  | .agentReasoningRawContent _ => True
  | .toolItem _ item => ∀ index, item.id ≠ itemId index
  | .itemStarted _ (.plan id _) => ∀ index, id ≠ itemId index
  | .itemStarted _ .other => True
  | .itemCompleted _ (.plan id _) => ∀ index, id ≠ itemId index
  | .itemCompleted _ .other => True
  | .enteredReviewMode _ => True
  | .exitedReviewMode _ => True
  | .error _ _ => True
  | .other => True
  | _ => False

/-- What stands between the start and the end of a turn. -/
inductive Line where
  | user (payload : UserMessageEvent) (item : ResponseItem) (eventFirst : Bool)
      (paired : parseTurnItemUserMessage ext item = some payload.message)
  | responseItem (item : ResponseItem) (notUser : isUserTurnBoundary ext item = false)
  | turnContext (item : TurnContextItem)
  | event (msg : EventMsg) (quiet : IsQuiet msg)

variable {ext} in
def Line.items : Line ext → List RolloutItem
  | .user payload item eventFirst _ =>
      if eventFirst then [.eventMsg (.userMessage payload), .responseItem item]
      else [.responseItem item, .eventMsg (.userMessage payload)]
  | .responseItem item _ => [.responseItem item]
  | .turnContext item => [.turnContext item]
  | .event msg _ => [.eventMsg msg]

/-- A turn from its start to its completion. -/
structure TurnBlock where
  turnId : Text
  startedAt : Option Int
  lines : List (Line ext)
  completedAt : Option Int
  durationMs : Option Int

inductive Block where
  | turn (turn : TurnBlock ext)
  | rollback (numTurns : UInt32)

variable {ext}

def TurnBlock.items (turn : TurnBlock ext) : List RolloutItem :=
  .eventMsg (.turnStarted turn.turnId turn.startedAt) :: (turn.lines.flatMap Line.items ++
    [.eventMsg (.turnComplete turn.turnId turn.completedAt turn.durationMs)])

def Block.items : Block ext → List RolloutItem
  | .turn t => t.items
  | .rollback numTurns => [.eventMsg (.threadRolledBack numTurns)]

def rollout (blocks : List (Block ext)) : List RolloutItem := blocks.flatMap Block.items

/-! ### The two readings of a rollout -/

/-- The lines as the history reads them. -/
def EventMsg.toHistory : EventMsg → History.EventMsg
  | .userMessage payload => .userMessage payload.message
  | .threadRolledBack numTurns => .threadRolledBack numTurns
  | .turnAborted turnId _ _ => .turnAborted turnId
  | .turnStarted turnId _ => .turnStarted turnId
  | .turnComplete turnId _ _ => .turnComplete turnId
  | _ => .other

def RolloutItem.toHistory : RolloutItem → History.RolloutItem
  | .sessionMeta => .sessionMeta
  | .responseItem item => .responseItem item
  | .compacted item => .compacted item
  | .turnContext item => .turnContext item
  | .eventMsg msg => .eventMsg msg.toHistory

/-- The text of an input of a user message. -/
def UserInput.shownText : UserInput → Text
  | .text inputText _ => inputText
  | _ => []

/-- The text of a user message among the items of a turn. -/
def ThreadItem.userMessage? : ThreadItem → Option Text
  | .userMessage _ content => some (content.flatMap UserInput.shownText)
  | _ => none

def userMessagesOf (items : List ThreadItem) : List Text := items.filterMap ThreadItem.userMessage?

def Turn.userMessages (turn : Turn) : List Text := userMessagesOf turn.items

/-- A blank message is shown without its text. -/
def shown (message : Text) : Text := if message.trim.isEmpty then [] else message

/-- The user messages of a history, which are those that are not injected context. -/
def historyMessages (ext : Externals) (items : List ResponseItem) : List Text :=
  items.filterMap (parseTurnItemUserMessage ext)

/-- **The two implementations agree** on the user messages of a rollout. -/
def Agrees (policy : TruncationPolicy) (blocks : List (Block ext)) : Prop :=
  (buildTurnsFromRolloutItems ext (rollout blocks)).flatMap Turn.userMessages =
    (historyMessages ext (reconstructHistoryFromRollout ext policy
      ((rollout blocks).map RolloutItem.toHistory)).history).map shown

/-! ### The messages of the blocks -/

def Line.messages : Line ext → List Text
  | .user payload _ _ _ => [payload.message]
  | _ => []

def TurnBlock.messages (turn : TurnBlock ext) : List Text := turn.lines.flatMap Line.messages

/-- A rollback by turns, on the messages of the turns. -/
def shownStep (turns : List (List Text)) : Block ext → List (List Text)
  | .turn t => turns ++ [t.messages]
  | .rollback numTurns => turns.take (turns.length - numTurns.toNat)

/-- The messages of the turns that are shown. -/
def shownTurns (blocks : List (Block ext)) : List (List Text) := blocks.foldl shownStep []

/-- A rollback by messages. -/
def keptStep (messages : List Text) : Block ext → List Text
  | .turn t => messages ++ t.messages
  | .rollback numTurns => messages.take (messages.length - numTurns.toNat)

/-- The messages that are kept in the history. -/
def keptMessages (blocks : List (Block ext)) : List Text := blocks.foldl keptStep []

/-! ### The shown turns -/

open ThreadHistoryBuilder

/-- The ids of the user messages are generated ones. -/
def GeneratedIds (items : List ThreadItem) : Prop :=
  ∀ id content, ThreadItem.userMessage id content ∈ items → ∃ index, id = itemId index

/-- Items that are rewritten without touching the user messages. -/
def SameMessages (items items' : List ThreadItem) : Prop :=
  userMessagesOf items' = userMessagesOf items ∧ (GeneratedIds items → GeneratedIds items')

/-- Between two blocks: no turn is open, and the finished turns hold the messages. -/
structure Between (b : ThreadHistoryBuilder) (groups : List (List Text)) : Prop where
  current : b.currentTurn = none
  messages : b.turns.map Turn.userMessages = groups
  generated : ∀ turn ∈ b.turns, GeneratedIds turn.items

/-- Inside a turn that was opened explicitly. -/
structure Inside (b : ThreadHistoryBuilder) (turnId : Text) (groups : List (List Text))
    (messages : List Text) : Prop where
  current : ∃ turn, b.currentTurn = some turn ∧ turn.id = turnId ∧
    turn.openedExplicitly = true ∧ userMessagesOf turn.items = messages ∧ GeneratedIds turn.items
  before : b.turns.map Turn.userMessages = groups
  generated : ∀ turn ∈ b.turns, GeneratedIds turn.items

variable {b : ThreadHistoryBuilder} {turnId : Text} {groups : List (List Text)}
  {messages : List Text} {items : List ThreadItem} {item : ThreadItem}

theorem sameMessages_append (hitem : item.userMessage? = none) :
    SameMessages items (items ++ [item]) := by
  refine ⟨?_, ?_⟩
  · unfold userMessagesOf
    rw [List.filterMap_append, List.filterMap_cons, hitem, List.filterMap_nil, List.append_nil]
  · intro hgenerated id content hmem
    rcases List.mem_append.mp hmem with hold | hnew
    · exact hgenerated id content hold
    · rw [List.mem_singleton] at hnew
      rw [← hnew] at hitem
      cases hitem

theorem sameMessages_dropLast {last : ThreadItem} (hlast : items.getLast? = some last)
    (hnone : last.userMessage? = none) (hitem : item.userMessage? = none) :
    SameMessages items (items.dropLast ++ [item]) := by
  have hsplit : items = items.dropLast ++ [last] :=
    (List.dropLast_append_getLast? last hlast).symm
  have hold : SameMessages items.dropLast (items.dropLast ++ [last]) :=
    sameMessages_append hnone
  have hnew : SameMessages items.dropLast (items.dropLast ++ [item]) :=
    sameMessages_append hitem
  rw [← hsplit] at hold
  refine ⟨hnew.1.trans hold.1.symm, ?_⟩
  intro hgenerated
  refine hnew.2 ?_
  intro id content hmem
  exact hgenerated id content ((List.dropLast_sublist items).subset hmem)

/-- An update in place that touches no user message. -/
theorem sameMessages_modifyFirst {p : ThreadItem → Bool} {items' : List ThreadItem}
    (hmodify : modifyFirst p (fun _ => item) items = some items')
    (hitem : item.userMessage? = none)
    (hp : ∀ id content, ThreadItem.userMessage id content ∈ items →
      p (.userMessage id content) = false) : SameMessages items items' := by
  induction items generalizing items' with
  | nil => cases hmodify
  | cons x xs ih =>
    rw [modifyFirst] at hmodify
    by_cases hx : p x = true
    · rw [if_pos hx] at hmodify
      have hnone : x.userMessage? = none := by
        cases x with
        | userMessage id content =>
          rw [hp id content List.mem_cons_self] at hx
          cases hx
        | _ => rfl
      obtain rfl := Option.some.inj hmodify
      refine ⟨?_, ?_⟩
      · unfold userMessagesOf
        rw [List.filterMap_cons, List.filterMap_cons, hnone, hitem]
      · intro hgenerated id content hmem
        rcases List.mem_cons.mp hmem with heq | hold
        · rw [← heq] at hitem
          cases hitem
        · exact hgenerated id content (List.mem_cons_of_mem _ hold)
    · rw [if_neg hx] at hmodify
      obtain ⟨rest, hrest, rfl⟩ := Option.map_eq_some_iff.mp hmodify
      obtain ⟨hsame, hkeeps⟩ := ih hrest fun id content hmem =>
        hp id content (List.mem_cons_of_mem _ hmem)
      refine ⟨?_, ?_⟩
      · unfold userMessagesOf at hsame ⊢
        rw [List.filterMap_cons, List.filterMap_cons, hsame]
      · intro hgenerated id content hmem
        rcases List.mem_cons.mp hmem with heq | hold
        · exact hgenerated id content (heq ▸ List.mem_cons_self)
        · exact hkeeps (fun id content hmem =>
            hgenerated id content (List.mem_cons_of_mem _ hmem)) id content hold

/-- An item with an id of its own replaces no user message. -/
theorem sameMessages_upsert {toolItem : ToolItem} (hgenerated : GeneratedIds items)
    (hid : ∀ index, toolItem.id ≠ itemId index) :
    SameMessages items (upsertTurnItem items (.tool toolItem)) := by
  unfold upsertTurnItem
  cases hmodify : modifyFirst (fun existing => existing.id == (ThreadItem.tool toolItem).id)
      (fun _ => .tool toolItem) items with
  | none => exact sameMessages_append rfl
  | some items' =>
    refine sameMessages_modifyFirst hmodify rfl ?_
    intro id content hmem
    obtain ⟨index, rfl⟩ := hgenerated id content hmem
    exact beq_eq_false_iff_ne.mpr fun heq => hid index (Option.some.inj heq).symm

/-- **Writing the items of an open turn.** -/
theorem Inside.withItems {update : List ThreadItem → List ThreadItem} {messages' : List Text}
    (h : Inside b turnId groups messages)
    (hupdate : ∀ items, b.ensureTurn.items = items → GeneratedIds items →
      userMessagesOf items = messages →
      GeneratedIds (update items) ∧ userMessagesOf (update items) = messages') :
    Inside (b.withItems update) turnId groups messages' := by
  obtain ⟨⟨turn, hcurrent, hid, hexplicit, hmessages, hgenerated⟩, hbefore, hall⟩ := h
  have hensure : b.ensureTurn = turn := by
    unfold ensureTurn
    rw [hcurrent, Option.getD_some]
  obtain ⟨hgenerated', hmessages'⟩ :=
    hupdate turn.items (by rw [hensure]) hgenerated hmessages
  refine ⟨⟨_, rfl, ?_, ?_, ?_, ?_⟩, hbefore, hall⟩
  · show b.ensureTurn.id = turnId
    rw [hensure, hid]
  · show b.ensureTurn.openedExplicitly = true
    rw [hensure, hexplicit]
  · show userMessagesOf (update b.ensureTurn.items) = messages'
    rw [hensure, hmessages']
  · show GeneratedIds (update b.ensureTurn.items)
    rw [hensure]
    exact hgenerated'

theorem Inside.withItems_same {update : List ThreadItem → List ThreadItem}
    (h : Inside b turnId groups messages)
    (hsame : ∀ items, b.ensureTurn.items = items → GeneratedIds items →
      SameMessages items (update items)) :
    Inside (b.withItems update) turnId groups messages := by
  refine h.withItems ?_
  intro items hitems hgenerated hmessages
  obtain ⟨heq, hkeeps⟩ := hsame items hitems hgenerated
  exact ⟨hkeeps hgenerated, heq.trans hmessages⟩

theorem Inside.pushItem {mk : Text → ThreadItem} (h : Inside b turnId groups messages)
    (hmk : ∀ id, (mk id).userMessage? = none) : Inside (b.pushItem mk) turnId groups messages := by
  have hpushed : Inside (b.withItems (· ++ [mk (itemId b.nextItemIndex)])) turnId groups messages :=
    h.withItems_same fun items _ _ => sameMessages_append (hmk _)
  obtain ⟨hcurrent, hbefore, hall⟩ := hpushed
  exact ⟨hcurrent, hbefore, hall⟩

theorem modifyFirst_turns {p : Turn → Bool} {f : Turn → Turn} {turns turns' : List Turn}
    (hmodify : modifyFirst p f turns = some turns')
    (hf : ∀ turn ∈ turns, (f turn).userMessages = turn.userMessages ∧
      GeneratedIds (f turn).items) (hall : ∀ turn ∈ turns, GeneratedIds turn.items) :
    turns'.map Turn.userMessages = turns.map Turn.userMessages ∧
      ∀ turn ∈ turns', GeneratedIds turn.items := by
  induction turns generalizing turns' with
  | nil => cases hmodify
  | cons x xs ih =>
    rw [modifyFirst] at hmodify
    obtain ⟨hx, hxs⟩ := List.forall_mem_cons.mp hall
    obtain ⟨hfx, hfxs⟩ := List.forall_mem_cons.mp hf
    split at hmodify
    · obtain rfl := Option.some.inj hmodify
      refine ⟨?_, List.forall_mem_cons.mpr ⟨hfx.2, hxs⟩⟩
      rw [List.map_cons, List.map_cons, hfx.1]
    · obtain ⟨rest, hrest, rfl⟩ := Option.map_eq_some_iff.mp hmodify
      obtain ⟨hmap, hgenerated⟩ := ih hrest hfxs hxs
      refine ⟨?_, List.forall_mem_cons.mpr ⟨hx, hgenerated⟩⟩
      rw [List.map_cons, List.map_cons, hmap]

theorem Inside.upsertItemInCurrentTurn {toolItem : ToolItem}
    (h : Inside b turnId groups messages) (hid : ∀ index, toolItem.id ≠ itemId index) :
    Inside (b.upsertItemInCurrentTurn (.tool toolItem)) turnId groups messages :=
  h.withItems_same fun _ _ hgenerated => sameMessages_upsert hgenerated hid

theorem Inside.upsertItemInTurnId {toolItem : ToolItem} (itemTurnId : Text)
    (h : Inside b turnId groups messages) (hid : ∀ index, toolItem.id ≠ itemId index) :
    Inside (b.upsertItemInTurnId itemTurnId (.tool toolItem)) turnId groups messages := by
  unfold ThreadHistoryBuilder.upsertItemInTurnId
  split
  · exact h.upsertItemInCurrentTurn hid
  · split
    next turns hmodify =>
      obtain ⟨hcurrent, hbefore, hall⟩ := h
      obtain ⟨hmap, hgenerated⟩ := modifyFirst_turns hmodify (fun turn hturn => by
        obtain ⟨hsame, hkeeps⟩ := sameMessages_upsert (hall turn hturn) hid
        exact ⟨hsame, hkeeps (hall turn hturn)⟩) hall
      exact ⟨hcurrent, hmap.trans hbefore, hgenerated⟩
    · exact h

theorem Inside.upsertItem {toolItem : ToolItem} (route : ItemRoute)
    (h : Inside b turnId groups messages) (hid : ∀ index, toolItem.id ≠ itemId index) :
    Inside (b.upsertItem route (.tool toolItem)) turnId groups messages := by
  cases route with
  | currentTurn => exact h.upsertItemInCurrentTurn hid
  | turnId itemTurnId => exact h.upsertItemInTurnId itemTurnId hid
  | turnIdOrCurrent itemTurnId =>
    show Inside (if itemTurnId.isEmpty then _ else _) turnId groups messages
    split
    · exact h.upsertItemInCurrentTurn hid
    · exact h.upsertItemInTurnId itemTurnId hid

theorem Inside.handleTurnItem {turnItem : TurnItem} (itemTurnId : Text)
    (h : Inside b turnId groups messages)
    (hid : ∀ id text, turnItem = .plan id text → ∀ index, id ≠ itemId index) :
    Inside (b.handleTurnItem itemTurnId turnItem) turnId groups messages := by
  cases turnItem with
  | other => exact h
  | plan id text =>
    show Inside (if text.isEmpty then b else _) turnId groups messages
    split
    · exact h
    · exact h.upsertItemInTurnId itemTurnId (hid id text rfl)

theorem Inside.handleError (message : Text) (affectsTurnStatus : Bool)
    (h : Inside b turnId groups messages) :
    Inside (b.handleError message affectsTurnStatus) turnId groups messages := by
  unfold ThreadHistoryBuilder.handleError
  split
  · obtain ⟨⟨turn, hcurrent, hrest⟩, hbefore, hall⟩ := h
    refine ⟨⟨{ turn with status := .failed, error := some message }, ?_, hrest⟩, hbefore, hall⟩
    show b.currentTurn.map _ = _
    rw [hcurrent]
    rfl
  · exact h

/-- **Quiet events** leave the user messages alone. -/
theorem Inside.handleEvent {msg : EventMsg} (h : Inside b turnId groups messages)
    (hquiet : IsQuiet msg) : Inside (b.handleEvent msg) turnId groups messages := by
  cases msg with
  | agentMessage message phase memoryCitation =>
    show Inside (if message.isEmpty then b else _) turnId groups messages
    split
    · exact h
    · exact h.pushItem fun _ => rfl
  | agentReasoning text =>
    show Inside (b.handleAgentReasoning text) turnId groups messages
    unfold handleAgentReasoning
    split
    · exact h
    · split
      next id summary content hlast =>
        refine h.withItems_same ?_
        intro items hitems _
        rw [hitems] at hlast
        exact sameMessages_dropLast hlast rfl rfl
      · exact h.pushItem fun _ => rfl
  | agentReasoningRawContent text =>
    show Inside (b.handleAgentReasoningRawContent text) turnId groups messages
    unfold handleAgentReasoningRawContent
    split
    · exact h
    · split
      next id summary content hlast =>
        refine h.withItems_same ?_
        intro items hitems _
        rw [hitems] at hlast
        exact sameMessages_dropLast hlast rfl rfl
      · exact h.pushItem fun _ => rfl
  | toolItem route item => exact h.upsertItem route hquiet
  | itemStarted itemTurnId item =>
    refine h.handleTurnItem itemTurnId ?_
    rintro id text rfl
    exact hquiet
  | itemCompleted itemTurnId item =>
    refine h.handleTurnItem itemTurnId ?_
    rintro id text rfl
    exact hquiet
  | enteredReviewMode userFacingHint =>
    show Inside (b.handleEnteredReviewMode userFacingHint) turnId groups messages
    unfold handleEnteredReviewMode
    exact h.pushItem fun _ => rfl
  | exitedReviewMode overallExplanation =>
    show Inside (b.handleExitedReviewMode overallExplanation) turnId groups messages
    unfold handleExitedReviewMode
    exact h.pushItem fun _ => rfl
  | error message affectsTurnStatus => exact h.handleError message affectsTurnStatus
  | other => exact h
  | _ => exact hquiet.elim

theorem Inside.handleResponseItem (ext : Externals) (item : ResponseItem)
    (h : Inside b turnId groups messages) :
    Inside (b.handleResponseItem ext item) turnId groups messages := by
  cases item with
  | message id role content phase =>
    show Inside (if _ then _ else b) turnId groups messages
    split
    · split
      · exact h.withItems_same fun _ _ _ => sameMessages_append rfl
      · exact h
    · exact h
  | _ => exact h

theorem shown_buildUserInputs (payload : UserMessageEvent) :
    (buildUserInputs payload).flatMap UserInput.shownText = shown payload.message := by
  have himages : ∀ urls : List Text,
      (urls.map UserInput.image).flatMap UserInput.shownText = [] := by
    intro urls
    rw [List.flatMap_map]
    exact List.flatMap_eq_nil_iff.mpr fun _ _ => rfl
  have hlocal : ∀ paths : List Text,
      (paths.map UserInput.localImage).flatMap UserInput.shownText = [] := by
    intro paths
    rw [List.flatMap_map]
    exact List.flatMap_eq_nil_iff.mpr fun _ _ => rfl
  unfold buildUserInputs shown
  rw [List.flatMap_append, List.flatMap_append, himages, hlocal, List.append_nil, List.append_nil]
  split
  · rfl
  · simp [UserInput.shownText]

/-- A user message goes to the open turn. -/
theorem Inside.handleUserMessage (payload : UserMessageEvent)
    (h : Inside b turnId groups messages) :
    Inside (b.handleUserMessage payload) turnId groups (messages ++ [shown payload.message]) := by
  obtain ⟨turn, hcurrent, -, hexplicit, -⟩ := h.current
  have hstays : (b.currentTurn.any fun turn =>
      !turn.openedExplicitly && !(turn.sawCompaction && turn.items.isEmpty)) = false := by
    rw [hcurrent, Option.any_some, hexplicit]
    rfl
  have hpushed : Inside (b.withItems
      (· ++ [.userMessage (itemId b.nextItemIndex) (buildUserInputs payload)])) turnId groups
      (messages ++ [shown payload.message]) := h.withItems (by
      intro items _ hgenerated hmessages
      refine ⟨?_, ?_⟩
      · intro id content hmem
        rcases List.mem_append.mp hmem with hold | hnew
        · exact hgenerated id content hold
        · obtain ⟨rfl, -⟩ := ThreadItem.userMessage.inj (List.mem_singleton.mp hnew)
          exact ⟨_, rfl⟩
      · show userMessagesOf (items ++ [_]) = _
        unfold userMessagesOf at hmessages ⊢
        rw [List.filterMap_append, hmessages]
        show messages ++ [(buildUserInputs payload).flatMap UserInput.shownText] = _
        rw [shown_buildUserInputs])
  unfold ThreadHistoryBuilder.handleUserMessage
  rw [hstays]
  obtain ⟨hcurrent', hbefore, hall⟩ := hpushed
  exact ⟨hcurrent', hbefore, hall⟩

/-- The indices of the rollout play no part. -/
theorem Inside.atIndex (current next : Nat) (h : Inside b turnId groups messages) :
    Inside { b with currentRolloutIndex := current, nextRolloutIndex := next } turnId groups
      messages := by
  obtain ⟨hcurrent, hbefore, hall⟩ := h
  exact ⟨hcurrent, hbefore, hall⟩

/-- **One line of a turn.** -/
theorem Inside.line (line : Line ext) (h : Inside b turnId groups messages) :
    Inside (line.items.foldl (handleRolloutItem ext) b) turnId groups
      (messages ++ line.messages.map shown) := by
  cases line with
  | user payload item eventFirst paired =>
    cases eventFirst with
    | true =>
      have hevent := (h.atIndex b.nextRolloutIndex (b.nextRolloutIndex + 1)).handleUserMessage
        payload
      exact (hevent.atIndex _ _).handleResponseItem ext item
    | false =>
      have hitem := (h.atIndex b.nextRolloutIndex (b.nextRolloutIndex + 1)).handleResponseItem ext
        item
      exact (hitem.atIndex _ _).handleUserMessage payload
  | responseItem item notUser =>
    rw [show (Line.responseItem item notUser).messages.map shown = [] from rfl, List.append_nil]
    exact (h.atIndex _ _).handleResponseItem ext item
  | turnContext item =>
    rw [show (Line.turnContext item : Line ext).messages.map shown = [] from rfl,
      List.append_nil]
    exact h.atIndex _ _
  | event msg quiet =>
    rw [show (Line.event msg quiet : Line ext).messages.map shown = [] from rfl,
      List.append_nil]
    exact (h.atIndex _ _).handleEvent quiet

theorem Inside.lines (lines : List (Line ext)) (h : Inside b turnId groups messages) :
    Inside ((lines.flatMap Line.items).foldl (handleRolloutItem ext) b) turnId groups
      (messages ++ (lines.flatMap Line.messages).map shown) := by
  induction lines generalizing b messages with
  | nil =>
    rw [List.flatMap_nil, List.flatMap_nil, List.map_nil, List.append_nil]
    exact h
  | cons line lines ih =>
    rw [List.flatMap_cons, List.foldl_append, List.flatMap_cons, List.map_append,
      ← List.append_assoc]
    exact ih (h.line line)

/-- The start of a turn, between two blocks. -/
theorem Between.turnStarted (ext : Externals) (turnId : Text) (startedAt : Option Int) (h : Between b groups) :
    Inside (b.handleRolloutItem ext (.eventMsg (.turnStarted turnId startedAt))) turnId groups
      [] := by
  obtain ⟨hnone, hmessages, hgenerated⟩ := h
  have hclosed : ({ b with
      currentRolloutIndex := b.nextRolloutIndex
      nextRolloutIndex := b.nextRolloutIndex + 1 } : ThreadHistoryBuilder).finishCurrentTurn =
      { b with
        currentRolloutIndex := b.nextRolloutIndex
        nextRolloutIndex := b.nextRolloutIndex + 1 } := by
    unfold finishCurrentTurn
    simp only [hnone]
  show Inside (ThreadHistoryBuilder.handleTurnStarted _ turnId startedAt) turnId groups []
  unfold handleTurnStarted
  rw [hclosed]
  exact ⟨⟨_, rfl, rfl, rfl, rfl, fun id content hmem => by cases hmem⟩, hmessages, hgenerated⟩

/-- The completion of the turn that is open. -/
theorem Inside.turnComplete (completedAt durationMs : Option Int)
    (h : Inside b turnId groups messages) :
    Between (b.handleRolloutItem ext (.eventMsg (.turnComplete turnId completedAt durationMs)))
      (groups ++ [messages]) := by
  obtain ⟨⟨turn, hcurrent, hid, hexplicit, hmessages, hgenerated⟩, hbefore, hall⟩ := h
  have hmatch : b.currentTurn.any (·.id == turnId) = true := by
    rw [hcurrent, Option.any_some, hid, beq_self_eq_true]
  show Between (ThreadHistoryBuilder.handleTurnComplete _ turnId completedAt durationMs) _
  unfold handleTurnComplete
  simp only [hmatch, if_true]
  unfold finishCurrentTurn updateCurrent
  simp only [hcurrent, Option.map_some, hexplicit, Bool.not_true, Bool.and_false, Bool.false_and]
  refine ⟨rfl, ?_, ?_⟩
  · show (b.turns ++ [_]).map Turn.userMessages = groups ++ [messages]
    rw [List.map_append, hbefore]
    exact congrArg (groups ++ [·]) hmessages
  · intro t ht
    rcases List.mem_append.mp ht with hold | hnew
    · exact hall t hold
    · rw [List.mem_singleton] at hnew
      rw [hnew]
      exact hgenerated

/-- **A whole turn** adds its messages as a group. -/
theorem Between.turn (turn : TurnBlock ext) (h : Between b groups) :
    Between (turn.items.foldl (handleRolloutItem ext) b)
      (groups ++ [turn.messages.map shown]) := by
  have hstarted := h.turnStarted ext turn.turnId turn.startedAt
  have hlines := hstarted.lines turn.lines
  rw [List.nil_append] at hlines
  unfold TurnBlock.items
  rw [List.foldl_cons, List.foldl_append, List.foldl_cons, List.foldl_nil]
  exact hlines.turnComplete turn.completedAt turn.durationMs

theorem Between.rollback (ext : Externals) (numTurns : UInt32) (h : Between b groups) :
    Between (b.handleRolloutItem ext (.eventMsg (.threadRolledBack numTurns)))
      (groups.take (groups.length - numTurns.toNat)) := by
  obtain ⟨hnone, hmessages, hgenerated⟩ := h
  show Between (ThreadHistoryBuilder.handleThreadRollback _ numTurns) _
  unfold handleThreadRollback finishCurrentTurn
  simp only [hnone]
  refine ⟨rfl, ?_, ?_⟩
  · show (b.turns.take _).map Turn.userMessages = _
    rw [List.map_take, hmessages, ← hmessages, List.length_map]
  · intro turn hturn
    exact hgenerated turn (List.mem_of_mem_take hturn)

/-- **The shown turns** are those of the rollbacks by turn. -/
theorem turns_userMessages (blocks : List (Block ext)) :
    (buildTurnsFromRolloutItems ext (rollout blocks)).map Turn.userMessages =
      (shownTurns blocks).map (List.map shown) := by
  have hbetween : Between ((rollout blocks).foldl (handleRolloutItem ext) .new)
      ((shownTurns blocks).map (List.map shown)) := by
    induction blocks using List.reverseRecOn with
    | nil => exact ⟨rfl, rfl, fun _ hmem => by cases hmem⟩
    | append_singleton blocks block ih =>
      unfold rollout shownTurns at ih ⊢
      rw [List.flatMap_append, List.flatMap_singleton, List.foldl_append, List.foldl_concat]
      cases block with
      | turn t =>
        have hturn := ih.turn t
        rw [shownStep, List.map_append]
        exact hturn
      | rollback numTurns =>
        have hrollback := ih.rollback ext numTurns
        rw [List.length_map, ← List.map_take] at hrollback
        exact hrollback
  obtain ⟨hnone, hmessages, -⟩ := hbetween
  unfold buildTurnsFromRolloutItems finish finishCurrentTurn
  simp only [hnone]
  exact hmessages

end CodexMonitor.ThreadHistory
