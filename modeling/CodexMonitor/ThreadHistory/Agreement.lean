import CodexMonitor.ThreadHistory.Rollbacks
import CodexMonitor.History.Rollbacks
import CodexMonitor.Rollout.Agreement
import CodexMonitor.Lib.Prefixes

namespace CodexMonitor.ThreadHistory

open CodexMonitor.History CodexMonitor.Rollout

/-!
# Thread history — when the two rollbacks agree

The model's history follows the rollbacks by message, and the two readings of a rollout are
compared block by block.

* `historyMessages_survivingItems` — a rollback of the history drops as many user messages.
* `history_userMessages` — the history of a rollout follows `keptStep`.
* `BalancedRollbacks` — each rollback of `n` turns meets newest turns that hold `n` messages, or
  all there are.
* `agrees_iff` — the implementations agree all along a rollout exactly if its rollbacks are
  balanced.
-/

variable {ext : Externals} {policy : TruncationPolicy} {items : List ResponseItem}
  {item : ResponseItem} {message : Text} {n : Nat}

/-! ### User messages and turn boundaries -/

theorem parse_of_not_boundary (h : isUserTurnBoundary ext item = false) :
    parseTurnItemUserMessage ext item = none := by
  cases hparse : parseTurnItemUserMessage ext item with
  | none => rfl
  | some message =>
    rw [isUserTurnBoundary_of_parse hparse] at h
    cases h

/-- Every turn boundary is a user message. -/
def Ordinary (ext : Externals) (items : List ResponseItem) : Prop :=
  ∀ item ∈ items, isUserTurnBoundary ext item = true →
    (parseTurnItemUserMessage ext item).isSome = true

theorem ordinary_of_not_boundary (h : isUserTurnBoundary ext item = false) :
    Ordinary ext [item] := by
  intro x hx hboundary
  rw [List.mem_singleton.mp hx, h] at hboundary
  cases hboundary

theorem historyMessages_append (older newer : List ResponseItem) :
    historyMessages ext (older ++ newer) =
      historyMessages ext older ++ historyMessages ext newer :=
  List.filterMap_append

theorem length_historyMessages (h : Ordinary ext items) :
    (historyMessages ext items).length = items.countP (isUserTurnBoundary ext) := by
  induction items with
  | nil => rfl
  | cons item items ih =>
    obtain ⟨hitem, hitems⟩ := List.forall_mem_cons.mp h
    unfold historyMessages at ih ⊢
    rw [List.filterMap_cons, List.countP_cons, ← ih hitems]
    cases hparse : parseTurnItemUserMessage ext item with
    | none =>
      have hnot : ¬ isUserTurnBoundary ext item = true := by
        intro hboundary
        have hsome := hitem hboundary
        rw [hparse] at hsome
        cases hsome
      rw [if_neg hnot]
      rfl
    | some message =>
      rw [if_pos (isUserTurnBoundary_of_parse hparse)]
      rfl

theorem historyMessages_of_countP (h : Ordinary ext items)
    (hnone : items.countP (isUserTurnBoundary ext) = 0) : historyMessages ext items = [] :=
  List.length_eq_zero_iff.mp ((length_historyMessages h).trans hnone)

/-! ### A rollback of the history -/

theorem Ordinary.of_subset {items' : List ResponseItem} (h : Ordinary ext items)
    (hsubset : items' ⊆ items) : Ordinary ext items' := fun item hmem => h item (hsubset hmem)

/-- **A rollback of the history** drops as many user messages. -/
theorem historyMessages_survivingItems (h : Ordinary ext items) (n : Nat) :
    historyMessages ext (survivingItems ext items n) =
        (historyMessages ext items).take ((historyMessages ext items).length - n) ∧
      Ordinary ext (survivingItems ext items n) := by
  rcases Nat.eq_zero_or_pos n with rfl | hn
  · refine ⟨?_, h⟩
    rw [Nat.sub_zero, List.take_length]
    rfl
  · obtain ⟨rest, hsplit, hcount⟩ := survivingItems_split ext items hn
    have hsubset : survivingItems ext items n ⊆ items := by
      intro item hmem
      rw [hsplit]
      exact List.mem_append_left _ hmem
    have hordinary := h.of_subset hsubset
    refine ⟨?_, hordinary⟩
    rw [length_historyMessages h, ← hcount, ← length_historyMessages hordinary]
    conv_rhs => rw [hsplit, historyMessages_append]
    rw [← hsplit, List.take_left]

/-! ### The history of a rollout -/

/-- Recording keeps a user message, and makes none. -/
theorem historyMessages_recordedItem (ext : Externals) (policy : TruncationPolicy)
    (item : ResponseItem) :
    historyMessages ext (recordedItem ext policy item) = historyMessages ext [item] ∧
      (Ordinary ext [item] → Ordinary ext (recordedItem ext policy item)) := by
  unfold recordedItem
  by_cases hapi : isApiMessage item = true
  · rw [if_pos hapi]
    cases item with
    | functionCallOutput callId output => exact ⟨rfl, fun _ => ordinary_of_not_boundary rfl⟩
    | customToolCallOutput callId name output =>
      exact ⟨rfl, fun _ => ordinary_of_not_boundary rfl⟩
    | _ => exact ⟨rfl, id⟩
  · rw [if_neg hapi]
    refine ⟨?_, fun _ _ hmem => by cases hmem⟩
    cases item with
    | message id role content phase =>
      have hrole : role = "system".toList := by simpa [isApiMessage] using hapi
      rw [hrole]
      rfl
    | other => rfl
    | _ => exact absurd rfl hapi

/-- The messages of a history that holds no other turn boundaries. -/
structure Holds (ext : Externals) (items : List ResponseItem) (messages : List Text) : Prop where
  messages : historyMessages ext items = messages
  ordinary : Ordinary ext items

variable {messages : List Text}

theorem Holds.record (policy : TruncationPolicy) (item : ResponseItem) (h : Holds ext items messages)
    (hitem : Ordinary ext [item]) :
    Holds ext (itemsStep ext policy items (.responseItem item))
      (messages ++ historyMessages ext [item]) := by
  obtain ⟨hmessages, hordinary⟩ := h
  obtain ⟨hrecorded, hkeeps⟩ := historyMessages_recordedItem ext policy item
  refine ⟨?_, ?_⟩
  · show historyMessages ext (items ++ recordedItem ext policy item) = _
    rw [historyMessages_append, hmessages, hrecorded]
  · intro x hmem
    rcases List.mem_append.mp hmem with hold | hnew
    · exact hordinary x hold
    · exact hkeeps hitem x hnew

theorem Holds.line (line : Line ext) (h : Holds ext items messages) :
    Holds ext (itemsAfter ext policy items (line.items.map RolloutItem.toHistory))
      (messages ++ line.messages) := by
  cases line with
  | user payload item eventFirst paired =>
    have hordinary : Ordinary ext [item] := by
      intro x hx _
      rw [List.mem_singleton.mp hx, paired]
      rfl
    have hparsed : historyMessages ext [item] = [payload.message] := by
      unfold historyMessages
      rw [List.filterMap_cons, paired]
      rfl
    have hrecorded := h.record policy item hordinary
    rw [hparsed] at hrecorded
    cases eventFirst <;> exact hrecorded
  | responseItem item notUser =>
    have hordinary : Ordinary ext [item] := ordinary_of_not_boundary notUser
    have hparsed : historyMessages ext [item] = [] := by
      unfold historyMessages
      rw [List.filterMap_cons, parse_of_not_boundary notUser]
      rfl
    have hrecorded := h.record policy item hordinary
    rw [hparsed] at hrecorded
    exact hrecorded
  | turnContext item =>
    rw [show (Line.turnContext item : Line ext).messages = [] from rfl, List.append_nil]
    exact h
  | event msg quiet =>
    rw [show (Line.event msg quiet : Line ext).messages = [] from rfl, List.append_nil]
    show Holds ext (itemsStep ext policy items (.eventMsg msg.toHistory)) messages
    cases msg with
    | threadRolledBack numTurns => exact quiet.elim
    | _ => exact h

theorem Holds.lines (policy : TruncationPolicy) (lines : List (Line ext)) (h : Holds ext items messages) :
    Holds ext (itemsAfter ext policy items
        ((lines.flatMap Line.items).map RolloutItem.toHistory))
      (messages ++ lines.flatMap Line.messages) := by
  induction lines generalizing items messages with
  | nil =>
    rw [List.flatMap_nil, List.flatMap_nil, List.append_nil]
    exact h
  | cons line lines ih =>
    rw [List.flatMap_cons, List.map_append, itemsAfter_append, List.flatMap_cons,
      ← List.append_assoc]
    exact ih (h.line line)

theorem Holds.block (block : Block ext) (h : Holds ext items messages) :
    Holds ext (itemsAfter ext policy items (block.items.map RolloutItem.toHistory))
      (keptStep messages block) := by
  cases block with
  | turn t =>
    have hlines := h.lines policy t.lines
    show Holds ext (itemsAfter ext policy items (t.items.map RolloutItem.toHistory)) _
    unfold TurnBlock.items
    rw [List.map_cons, List.map_append, ← List.singleton_append, itemsAfter_append,
      itemsAfter_append]
    exact hlines
  | rollback numTurns =>
    obtain ⟨hmessages, hordinary⟩ := h
    obtain ⟨hdropped, hordinary'⟩ :=
      historyMessages_survivingItems hordinary numTurns.toNat
    rw [hmessages] at hdropped
    exact ⟨hdropped, hordinary'⟩

/-- The forward replay of a rollout. -/
theorem holds_itemsAfter (blocks : List (Block ext)) :
    Holds ext (itemsAfter ext policy [] ((rollout blocks).map RolloutItem.toHistory))
      (keptMessages blocks) := by
  induction blocks using List.reverseRecOn with
  | nil => exact ⟨rfl, fun _ hmem => by cases hmem⟩
  | append_singleton blocks block ih =>
    unfold rollout keptMessages at ih ⊢
    rw [List.flatMap_append, List.flatMap_singleton, List.map_append, itemsAfter_append,
      List.foldl_concat]
    exact ih.block block

/-- Without a checkpoint the reconstruction is the forward replay. -/
theorem reconstruct_of_no_checkpoint {rolloutItems : List History.RolloutItem}
    (h : rolloutItems.any isCheckpoint = false) :
    (reconstructHistoryFromRollout ext policy rolloutItems).history =
      itemsAfter ext policy [] rolloutItems := by
  have hout := reverseScan_outcome ext policy rolloutItems
  rw [reconstruct_history]
  cases hbase : (reverseScan ext rolloutItems).baseReplacementHistory with
  | some base => exact hout.sound base hbase
  | none =>
    have hcut := hout.cut hbase
    have hnot : ∀ older newer, rolloutItems = older ++ newer → newer.any isCheckpoint ≠ true := by
      intro older newer heq hany
      rw [heq, List.any_append, hany, Bool.or_true] at h
      cases h
    rcases Nat.lt_trichotomy (0 + (spans ext rolloutItems).countP Span.hasCheckpoint) 1 with
      hn | hn | hn
    · rw [hcut.zero (by omega)]
      rfl
    · obtain ⟨older, item, replacement, heq, hreplacement, -⟩ := hcut.one hn
      refine absurd ?_ (hnot older _ heq)
      rw [List.any_cons, isCheckpoint, hreplacement, Option.isSome_some, Bool.true_or]
    · obtain ⟨hany, older, heq⟩ := hcut.many hn
      exact absurd hany (hnot older _ heq)

theorem rollout_no_checkpoint (blocks : List (Block ext)) :
    ((rollout blocks).map RolloutItem.toHistory).any isCheckpoint = false := by
  have hlines : ∀ lines : List (Line ext),
      ((lines.flatMap Line.items).map RolloutItem.toHistory).any isCheckpoint = false := by
    intro lines
    induction lines with
    | nil => rfl
    | cons line lines ih =>
      rw [List.flatMap_cons, List.map_append, List.any_append, ih, Bool.or_false]
      cases line with
      | user payload item eventFirst paired => cases eventFirst <;> rfl
      | _ => rfl
  unfold rollout
  induction blocks with
  | nil => rfl
  | cons block blocks ih =>
    rw [List.flatMap_cons, List.map_append, List.any_append, ih, Bool.or_false]
    cases block with
    | turn t =>
      show ((TurnBlock.items t).map RolloutItem.toHistory).any isCheckpoint = false
      unfold TurnBlock.items
      rw [List.map_cons, List.map_append, List.any_cons, List.any_append, hlines]
      rfl
    | rollback numTurns => rfl

/-- **The history of a rollout** holds the messages that the rollbacks by message keep. -/
theorem history_userMessages (blocks : List (Block ext)) :
    historyMessages ext (reconstructHistoryFromRollout ext policy
      ((rollout blocks).map RolloutItem.toHistory)).history = keptMessages blocks := by
  rw [reconstruct_of_no_checkpoint (rollout_no_checkpoint blocks)]
  exact (holds_itemsAfter blocks).messages

/-! ### Rollbacks by turn and by message -/

/-- The turns that the rollback removes hold as many messages as it removes from the history. -/
def Balanced (turns : List (List Text)) (numTurns : UInt32) : Prop :=
  (turns.drop (turns.length - numTurns.toNat)).flatten.length =
    min numTurns.toNat turns.flatten.length

/-- **Balanced rollbacks**: each rollback of `n` turns meets newest turns that hold `n` user
    messages together, or all the user messages there are. -/
def BalancedRollbacks (blocks : List (Block ext)) : Prop :=
  ∀ front numTurns rest, blocks = front ++ .rollback numTurns :: rest →
    Balanced (shownTurns front) numTurns

variable {blocks front : List (Block ext)}

theorem agrees_iff_messages (policy : TruncationPolicy) (blocks : List (Block ext)) :
    Agrees policy blocks ↔
      (shownTurns blocks).flatten.map shown = (keptMessages blocks).map shown := by
  unfold Agrees
  rw [history_userMessages, List.flatMap_def, turns_userMessages, List.map_flatten]

/-- A rollback of turns that agree with the history. -/
theorem rollback_iff {turns : List (List Text)} {messages : List Text} (numTurns : UInt32)
    (h : turns.flatten.map shown = messages.map shown) :
    (turns.take (turns.length - numTurns.toNat)).flatten.map shown =
        (messages.take (messages.length - numTurns.toNat)).map shown ↔
      Balanced turns numTurns := by
  have hlength : turns.flatten.length = messages.length := by
    have heq := congrArg List.length h
    rwa [List.length_map, List.length_map] at heq
  have hparts : turns.flatten =
      (turns.take (turns.length - numTurns.toNat)).flatten ++
        (turns.drop (turns.length - numTurns.toNat)).flatten := by
    rw [← List.flatten_append, List.take_append_drop]
  have hsum := congrArg List.length hparts
  rw [List.length_append] at hsum
  unfold Balanced
  constructor
  · intro heq
    have hkept := congrArg List.length heq
    rw [List.length_map, List.length_map, List.length_take] at hkept
    omega
  · intro hbalanced
    -- both are the front part of one list, and equally long
    have hkept : (turns.take (turns.length - numTurns.toNat)).flatten.length =
        messages.length - numTurns.toNat := by omega
    rw [List.map_take, ← h, ← hkept, hparts, List.map_append,
      List.take_left' (List.length_map ..)]

theorem shownTurns_concat (block : Block ext) :
    shownTurns (blocks ++ [block]) = shownStep (shownTurns blocks) block := List.foldl_concat ..

theorem keptMessages_concat (block : Block ext) :
    keptMessages (blocks ++ [block]) = keptStep (keptMessages blocks) block :=
  List.foldl_concat ..

/-- **One more block.** -/
theorem agrees_concat_iff (block : Block ext) (h : Agrees policy blocks) :
    Agrees policy (blocks ++ [block]) ↔
      ∀ numTurns, block = .rollback numTurns → Balanced (shownTurns blocks) numTurns := by
  rw [agrees_iff_messages] at h ⊢
  rw [shownTurns_concat, keptMessages_concat]
  cases block with
  | turn t =>
    refine iff_of_true ?_ fun numTurns heq => by cases heq
    show (shownTurns blocks ++ [t.messages]).flatten.map shown =
      (keptMessages blocks ++ t.messages).map shown
    rw [List.flatten_append, List.map_append, h, List.map_append, List.flatten_singleton]
  | rollback numTurns =>
    rw [show shownStep (shownTurns blocks) (.rollback numTurns) = _ from rfl, shownStep, keptStep,
      rollback_iff numTurns h]
    constructor
    · intro hbalanced n heq
      obtain rfl := Block.rollback.inj heq
      exact hbalanced
    · intro hbalanced
      exact hbalanced numTurns rfl

/-- **The implementations agree after every block** exactly if the rollbacks are balanced. -/
theorem agrees_iff (policy : TruncationPolicy) (blocks : List (Block ext)) :
    (∀ front, front <+: blocks → Agrees policy front) ↔ BalancedRollbacks blocks := by
  have hnil : Agrees policy ([] : List (Block ext)) := by
    rw [agrees_iff_messages]
    rfl
  rw [prefixes_iff hnil fun front block _ h => agrees_concat_iff block h]
  constructor
  · intro h front numTurns rest heq
    exact h front _ rest heq numTurns rfl
  · rintro h front _ rest heq numTurns rfl
    exact h front numTurns rest heq

/-! ### A steered turn

One turn with two user messages, and a rollback of one turn.  The client is shown no message, the
model still sees the first one.
-/

def steeredRollout : List (Block ⟨fun _ => false, fun _ => none, id⟩) :=
  [ .turn
      { turnId := "t1".toList
        startedAt := none
        lines :=
          [ .user ⟨"a".toList, none, [], []⟩ (userMessage "a".toList) true (by decide +kernel),
            .user ⟨"b".toList, none, [], []⟩ (userMessage "b".toList) true (by decide +kernel) ]
        completedAt := none
        durationMs := none },
    .rollback 1 ]

theorem steeredRollout_not_agrees : ¬ ∀ (ext : Externals) (policy : TruncationPolicy)
    (blocks : List (Block ext)), Agrees policy blocks := by
  intro h
  have hagrees := h _ (.bytes 10000) steeredRollout
  rw [agrees_iff_messages] at hagrees
  revert hagrees
  decide +kernel

end CodexMonitor.ThreadHistory
