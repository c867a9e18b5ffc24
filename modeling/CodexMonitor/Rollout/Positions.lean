import CodexMonitor.History.Rollbacks
import CodexMonitor.Lib.Ends
import CodexMonitor.Lib.Prefixes
import CodexMonitor.Rollout.Replay

namespace CodexMonitor.Rollout

open CodexMonitor.History

/-!
# Rollout — the positions of the user messages

`core/src/thread_rollout_truncation.rs`: a rollout is cut before its n-th user message.  The
positions of the user messages follow the rollback markers by dropping as many positions as turns
are rolled back; the history also counts the instructions of other agents as turns.

* `userMessagePositionsInRollout`, `truncateRolloutBeforeNthUserMessageFromStart` — the functions.
* `Agrees` — the positions are those of the user messages that the model sees.
* `agrees_iff` — they agree all along a rollout exactly if no rollback counts the instruction of
  an agent while there are older user messages.
-/

variable (ext : Externals) (policy : TruncationPolicy)

/-! ### Positions -/

/-- `parse_turn_item` reads the item as a user message. -/
def isRealUserMessage (item : ResponseItem) : Bool := (parseTurnItemUserMessage ext item).isSome

/-- One line, with its index. -/
def positionsStep (userPositions : List Nat) : RolloutItem × Nat → List Nat
  | (.responseItem item, idx) =>
      if isRealUserMessage ext item then userPositions ++ [idx] else userPositions
  | (.eventMsg (.threadRolledBack numTurns), _) =>
      userPositions.take (userPositions.length - numTurns.toNat)
  | _ => userPositions

/-- `user_message_positions_in_rollout`. -/
def userMessagePositionsInRollout (items : List RolloutItem) : List Nat :=
  items.zipIdx.foldl (positionsStep ext) []

/-- `truncate_rollout_before_nth_user_message_from_start`. -/
def truncateRolloutBeforeNthUserMessageFromStart (items : List RolloutItem) (nFromStart : Nat) :
    List RolloutItem :=
  if nFromStart = usizeMax then items
  else
    match (userMessagePositionsInRollout ext items)[nFromStart]? with
    | none => items
    | some cutIdx => items.take cutIdx

/-! ### Agreement with the history -/

/-- The response item of a line. -/
def responseItem? : RolloutItem → Option ResponseItem
  | .responseItem item => some item
  | _ => none

/-- The response items at the positions. -/
def responseItemsAt (items : List RolloutItem) (positions : List Nat) : List ResponseItem :=
  positions.filterMap fun idx => items[idx]?.bind responseItem?

/-- The user messages of the history that the rollout is replayed to. -/
def visibleUserMessages (items : List RolloutItem) : List ResponseItem :=
  (replay ext policy ⟨[], 0, none⟩ items).items.filter (isRealUserMessage ext)

/-- **The positions are those of the user messages the model sees**, and the rollout is cut before
    the n-th of them. -/
structure Agrees (items : List RolloutItem) : Prop where
  messages : responseItemsAt items (userMessagePositionsInRollout ext items) =
    visibleUserMessages ext policy items
  cuts : ∀ n message, n ≠ usizeMax → (visibleUserMessages ext policy items)[n]? = some message →
    ∃ front rest, items = front ++ .responseItem message :: rest ∧
      truncateRolloutBeforeNthUserMessageFromStart ext items n = front

/-- The rollback of `n` turns of the history drops only user messages, or all there are. -/
def DropsUserMessages (history : List ResponseItem) (n : Nat) : Prop :=
  (∀ item ∈ (history.filter (isUserTurnBoundary ext)).rtake n, isRealUserMessage ext item = true) ∨
    ∀ item ∈ (history.filter (isUserTurnBoundary ext)).rdrop n, ¬ isRealUserMessage ext item = true

variable {ext policy} {items : List RolloutItem} {item : RolloutItem} {history : List ResponseItem}

/-! ### The user messages at the positions -/

/-- The user messages that the positions follow. -/
def followStep (ext : Externals) (messages : List ResponseItem) : RolloutItem → List ResponseItem
  | .responseItem item => messages ++ [item].filter (isRealUserMessage ext)
  | .eventMsg (.threadRolledBack numTurns) => messages.rdrop numTurns.toNat
  | _ => messages

theorem userMessagePositionsInRollout_concat (items : List RolloutItem) (item : RolloutItem) :
    userMessagePositionsInRollout ext (items ++ [item]) =
      positionsStep ext (userMessagePositionsInRollout ext items) (item, items.length) := by
  unfold userMessagePositionsInRollout
  rw [List.zipIdx_append, List.foldl_append, Nat.zero_add]
  rfl

/-- Every position is that of a response item. -/
def Points (items : List RolloutItem) (positions : List Nat) : Prop :=
  ∀ idx ∈ positions, ∃ item, items[idx]? = some (.responseItem item)

theorem Points.concat {positions : List Nat} (h : Points items positions) (item : RolloutItem) :
    Points (items ++ [item]) positions := by
  intro idx hidx
  obtain ⟨kept, hkept⟩ := h idx hidx
  refine ⟨kept, ?_⟩
  rw [List.getElem?_append_left (List.getElem?_eq_some_iff.mp hkept).1]
  exact hkept

theorem responseItemsAt_concat {positions : List Nat} (h : Points items positions)
    (item : RolloutItem) :
    responseItemsAt (items ++ [item]) positions = responseItemsAt items positions := by
  unfold responseItemsAt
  refine List.filterMap_congr fun idx hidx => ?_
  obtain ⟨kept, hkept⟩ := h idx hidx
  rw [List.getElem?_append_left (List.getElem?_eq_some_iff.mp hkept).1]

theorem Points.length {positions : List Nat} (h : Points items positions) :
    (responseItemsAt items positions).length = positions.length := by
  unfold responseItemsAt
  rw [List.length_filterMap_eq_countP, List.countP_eq_length]
  intro idx hidx
  obtain ⟨kept, hkept⟩ := h idx hidx
  rw [hkept]
  rfl

theorem Points.rdrop {positions : List Nat} (h : Points items positions) (n : Nat) :
    responseItemsAt items (positions.rdrop n) = (responseItemsAt items positions).rdrop n := by
  have hfront : Points items (positions.rdrop n) := fun idx hidx => h idx (List.mem_of_mem_take hidx)
  have hsplit : responseItemsAt items positions =
      responseItemsAt items (positions.rdrop n) ++ responseItemsAt items (positions.rtake n) := by
    unfold responseItemsAt
    rw [← List.filterMap_append]
    exact congrArg _ (List.take_append_drop _ positions).symm
  have hlength : (responseItemsAt items (positions.rdrop n)).length =
      (responseItemsAt items positions).length - n := by
    rw [hfront.length, h.length]
    exact List.length_take_of_le (Nat.sub_le _ _)
  show _ = (responseItemsAt items positions).take ((responseItemsAt items positions).length - n)
  rw [← hlength, hsplit, List.take_left]

theorem Points.getElem? {positions : List Nat} (h : Points items positions) {n : Nat}
    {message : ResponseItem} (hmessage : (responseItemsAt items positions)[n]? = some message) :
    ∃ idx, positions[n]? = some idx ∧ items[idx]? = some (.responseItem message) := by
  induction positions generalizing n with
  | nil => simp [responseItemsAt] at hmessage
  | cons idx positions ih =>
    obtain ⟨hidx, hrest⟩ := List.forall_mem_cons.mp h
    obtain ⟨kept, hkept⟩ := hidx
    have hcons : responseItemsAt items (idx :: positions) =
        kept :: responseItemsAt items positions := by
      unfold responseItemsAt
      rw [List.filterMap_cons, hkept]
      rfl
    rw [hcons] at hmessage
    cases n with
    | zero =>
      obtain rfl : kept = message := Option.some.inj hmessage
      exact ⟨idx, rfl, hkept⟩
    | succ n => exact ih hrest hmessage

/-- The positions point, and the items there are the messages that are followed. -/
structure Follows (ext : Externals) (items : List RolloutItem) : Prop where
  points : Points items (userMessagePositionsInRollout ext items)
  messages : responseItemsAt items (userMessagePositionsInRollout ext items) =
    items.foldl (followStep ext) []

theorem follows (ext : Externals) (items : List RolloutItem) : Follows ext items := by
  induction items using List.reverseRecOn with
  | nil =>
    refine ⟨?_, rfl⟩
    intro idx hidx
    cases hidx
  | append_singleton items item ih =>
    obtain ⟨hpoints, hmessages⟩ := ih
    have hold := responseItemsAt_concat hpoints item
    have hkept := hpoints.concat item
    have hquiet : positionsStep ext (userMessagePositionsInRollout ext items)
        (item, items.length) = userMessagePositionsInRollout ext items →
        followStep ext (items.foldl (followStep ext) []) item =
          items.foldl (followStep ext) [] → Follows ext (items ++ [item]) := by
      intro hstep hfollow
      refine ⟨?_, ?_⟩
      · rw [userMessagePositionsInRollout_concat, hstep]
        exact hkept
      · rw [userMessagePositionsInRollout_concat, hstep, List.foldl_concat, hfollow, hold,
          hmessages]
    cases item with
    | responseItem item =>
      by_cases huser : isRealUserMessage ext item = true
      · have hlast : (items ++ [RolloutItem.responseItem item])[items.length]? =
            some (.responseItem item) := List.getElem?_concat_length
        have hstep : positionsStep ext (userMessagePositionsInRollout ext items)
            (.responseItem item, items.length) =
              userMessagePositionsInRollout ext items ++ [items.length] := if_pos huser
        refine ⟨?_, ?_⟩
        · rw [userMessagePositionsInRollout_concat, hstep]
          intro idx hidx
          rcases List.mem_append.mp hidx with hmem | hmem
          · exact hkept idx hmem
          · rw [List.mem_singleton.mp hmem]
            exact ⟨item, hlast⟩
        · rw [userMessagePositionsInRollout_concat, hstep, List.foldl_concat]
          unfold responseItemsAt at hold hmessages ⊢
          rw [List.filterMap_append, hold, hmessages, followStep, List.filter_singleton, huser]
          simp [responseItem?]
      · refine hquiet (if_neg huser) ?_
        rw [followStep, List.filter_singleton, eq_false_of_ne_true huser]
        exact List.append_nil _
    | eventMsg msg =>
      cases msg with
      | threadRolledBack numTurns =>
        have hstep : positionsStep ext (userMessagePositionsInRollout ext items)
            (.eventMsg (.threadRolledBack numTurns), items.length) =
              (userMessagePositionsInRollout ext items).rdrop numTurns.toNat := rfl
        refine ⟨?_, ?_⟩
        · rw [userMessagePositionsInRollout_concat, hstep]
          exact fun idx hidx => hkept idx (List.mem_of_mem_take hidx)
        · rw [userMessagePositionsInRollout_concat, hstep, List.foldl_concat, followStep,
            ← hmessages, ← hold]
          exact hkept.rdrop _
      | _ => exact hquiet rfl rfl
    | _ => exact hquiet rfl rfl

/-! ### The user messages of the history -/

theorem isUserTurnBoundary_of_real {item : ResponseItem} (h : isRealUserMessage ext item = true) :
    isUserTurnBoundary ext item = true := by
  obtain ⟨message, hparse⟩ := Option.isSome_iff_exists.mp h
  exact isUserTurnBoundary_of_parse hparse

/-- The boundaries among the items, from which the user messages are taken. -/
theorem filter_real (history : List ResponseItem) :
    history.filter (isRealUserMessage ext) =
      (history.filter (isUserTurnBoundary ext)).filter (isRealUserMessage ext) := by
  rw [List.filter_filter]
  refine List.filter_congr fun item _ => ?_
  by_cases hreal : isRealUserMessage ext item = true
  · rw [hreal, isUserTurnBoundary_of_real hreal]
    rfl
  · rw [eq_false_of_ne_true hreal]
    rfl

/-- **A rollback of the history** drops as many turn boundaries. -/
theorem boundaries_survivingItems (ext : Externals) (history : List ResponseItem) (n : Nat) :
    (survivingItems ext history n).filter (isUserTurnBoundary ext) =
      (history.filter (isUserTurnBoundary ext)).rdrop n := by
  rcases Nat.eq_zero_or_pos n with rfl | hn
  · rw [List.rdrop_zero]
    rfl
  · obtain ⟨rest, hsplit, hcount⟩ := survivingItems_split ext history hn
    rw [List.countP_eq_length_filter, List.countP_eq_length_filter] at hcount
    have hboundaries : history.filter (isUserTurnBoundary ext) =
        (survivingItems ext history n).filter (isUserTurnBoundary ext) ++
          rest.filter (isUserTurnBoundary ext) := by
      rw [← List.filter_append, ← hsplit]
    show _ = (history.filter (isUserTurnBoundary ext)).take
      ((history.filter (isUserTurnBoundary ext)).length - n)
    rw [← hcount]
    conv_rhs => rw [hboundaries, List.take_left]

/-- Recording an item keeps the user messages. -/
theorem real_recordedItem (item : ResponseItem) :
    (recordedItem ext policy item).filter (isRealUserMessage ext) =
      [item].filter (isRealUserMessage ext) := by
  unfold recordedItem
  by_cases hapi : isApiMessage item = true
  · rw [if_pos hapi]
    cases item with
    | functionCallOutput callId output => rfl
    | customToolCallOutput callId name output => rfl
    | _ => rfl
  · rw [if_neg hapi]
    cases item with
    | message id role content phase =>
      have hrole : role = "system".toList := by simpa [isApiMessage] using hapi
      rw [hrole]
      rfl
    | other => rfl
    | _ => exact absurd rfl hapi

/-- **One more line**: the history keeps the user messages that the positions follow. -/
theorem real_itemsStep_iff (history : List ResponseItem)
    (hplain : ∀ compaction, item ≠ .compacted compaction) :
    (itemsStep ext policy history item).filter (isRealUserMessage ext) =
        followStep ext (history.filter (isRealUserMessage ext)) item ↔
      ∀ numTurns, item = .eventMsg (.threadRolledBack numTurns) →
        DropsUserMessages ext history numTurns.toNat := by
  have hquiet : (itemsStep ext policy history item).filter (isRealUserMessage ext) =
      followStep ext (history.filter (isRealUserMessage ext)) item →
      (∀ numTurns, item ≠ .eventMsg (.threadRolledBack numTurns)) →
      ((itemsStep ext policy history item).filter (isRealUserMessage ext) =
        followStep ext (history.filter (isRealUserMessage ext)) item ↔
      ∀ numTurns, item = .eventMsg (.threadRolledBack numTurns) →
        DropsUserMessages ext history numTurns.toNat) := by
    intro heq hnot
    exact iff_of_true heq fun numTurns h => absurd h (hnot numTurns)
  cases item with
  | responseItem item =>
    refine hquiet ?_ fun _ h => by cases h
    show (history ++ recordedItem ext policy item).filter _ = _
    rw [List.filter_append, real_recordedItem]
    rfl
  | compacted compaction => exact absurd rfl (hplain compaction)
  | eventMsg msg =>
    cases msg with
    | threadRolledBack numTurns =>
      show (survivingItems ext history numTurns.toNat).filter _ =
        (history.filter _).rdrop numTurns.toNat ↔ _
      rw [filter_real, boundaries_survivingItems, filter_real history, filter_rdrop_eq_iff]
      constructor
      · intro h n heq
        obtain rfl := EventMsg.threadRolledBack.inj (RolloutItem.eventMsg.inj heq)
        exact h
      · exact fun h => h numTurns rfl
    | _ => exact hquiet rfl fun _ h => by cases h
  | _ => exact hquiet rfl fun _ h => by cases h

/-! ### Agreement all along a rollout -/

theorem visibleUserMessages_eq (items : List RolloutItem) :
    visibleUserMessages ext policy items =
      (itemsAfter ext policy [] items).filter (isRealUserMessage ext) := by
  unfold visibleUserMessages
  rw [replay_items]

/-- The rollout is cut before the n-th message that the positions follow. -/
theorem truncate_eq {n : Nat} {message : ResponseItem} (hn : n ≠ usizeMax)
    (hmessage : (responseItemsAt items (userMessagePositionsInRollout ext items))[n]? =
      some message) :
    ∃ front rest, items = front ++ .responseItem message :: rest ∧
      truncateRolloutBeforeNthUserMessageFromStart ext items n = front := by
  obtain ⟨idx, hidx, hitem⟩ := (follows ext items).points.getElem? hmessage
  obtain ⟨hlt, hget⟩ := List.getElem?_eq_some_iff.mp hitem
  refine ⟨items.take idx, items.drop (idx + 1), ?_, ?_⟩
  · rw [← hget, List.cons_getElem_drop_succ, List.take_append_drop]
  · unfold truncateRolloutBeforeNthUserMessageFromStart
    rw [if_neg hn, hidx]

theorem agrees_iff_messages : Agrees ext policy items ↔
    items.foldl (followStep ext) [] =
      (itemsAfter ext policy [] items).filter (isRealUserMessage ext) := by
  rw [← (follows ext items).messages, ← visibleUserMessages_eq]
  constructor
  · exact Agrees.messages
  · intro h
    refine ⟨h, ?_⟩
    intro n message hn hmessage
    rw [← h] at hmessage
    exact truncate_eq hn hmessage

/-- **The positions agree with the history after every line** of a rollout without compactions
    exactly if, at each rollback of `n` turns, the newest `n` turns of the history were opened by
    users, or all turns that users opened are among them. -/
theorem positions_agree_iff (policy : TruncationPolicy)
    (hplain : ∀ compaction, RolloutItem.compacted compaction ∉ items) :
    (∀ front, front <+: items → Agrees ext policy front) ↔
      ∀ front numTurns rest, items = front ++ .eventMsg (.threadRolledBack numTurns) :: rest →
        DropsUserMessages ext (itemsAfter ext policy [] front) numTurns.toNat := by
  have hnil : Agrees ext policy [] := agrees_iff_messages.mpr rfl
  have hstep : ∀ front item, front ++ [item] <+: items → Agrees ext policy front →
      (Agrees ext policy (front ++ [item]) ↔
        ∀ numTurns, item = .eventMsg (.threadRolledBack numTurns) →
          DropsUserMessages ext (itemsAfter ext policy [] front) numTurns.toNat) := by
    intro front item hbegins hfront
    rw [agrees_iff_messages] at hfront
    rw [agrees_iff_messages, List.foldl_concat, itemsAfter_append, hfront, eq_comm]
    refine real_itemsStep_iff _ ?_
    rintro compaction rfl
    exact hplain compaction (hbegins.subset (by simp))
  rw [prefixes_iff hnil hstep]
  constructor
  · intro h front numTurns rest heq
    exact h front _ rest heq numTurns rfl
  · rintro h front _ rest heq numTurns rfl
    exact h front numTurns rest heq

/-! ### Two rollouts -/

/-- No text is the message of an agent but `to-agent`. -/
def oneInstruction : Externals :=
  ⟨fun text => text == "to-agent".toList, fun _ => none, id⟩

/-- The instruction of an agent. -/
def agentInstruction : ResponseItem :=
  .message none "assistant".toList [.outputText "to-agent".toList] none

/-- Two user messages, of which one is rolled back. -/
theorem positions_agree_twoMessages :
    (∀ front, front <+: [.responseItem (userMessage "a".toList),
        .responseItem (userMessage "b".toList), .eventMsg (.threadRolledBack 1)] →
      Agrees oneInstruction (.bytes 10000) front) ↔
    ∀ front numTurns rest, [.responseItem (userMessage "a".toList),
        .responseItem (userMessage "b".toList), .eventMsg (.threadRolledBack 1)] =
          front ++ .eventMsg (.threadRolledBack numTurns) :: rest →
      DropsUserMessages oneInstruction (itemsAfter oneInstruction (.bytes 10000) [] front)
        numTurns.toNat :=
  positions_agree_iff (.bytes 10000) (by simp)

/-- **An instruction rolled back takes a user message with it.** The history keeps the message, and
    the positions are empty. -/
theorem instruction_not_agrees : ¬ ∀ (ext : Externals) (policy : TruncationPolicy)
    (items : List RolloutItem), (∀ compaction, RolloutItem.compacted compaction ∉ items) →
    Agrees ext policy items := by
  intro h
  have hagrees := h oneInstruction (.bytes 10000) [.responseItem (userMessage "a".toList),
    .responseItem agentInstruction, .eventMsg (.threadRolledBack 1)] (by simp)
  have hmessages := hagrees.messages
  revert hmessages
  decide +kernel

end CodexMonitor.Rollout
