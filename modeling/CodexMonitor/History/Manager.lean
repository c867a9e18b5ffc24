import CodexMonitor.History.Context

namespace CodexMonitor.History

/-!
# History — the context manager

`core/src/context_manager/history.rs`: the in-memory transcript and its mutators.

* `ContextManager` — the items, the rewrite counter, the reference context snapshot.
* `recordItem` / `replace` / `dropLastNUserTurns` — the mutators replay uses, as state
  transformers.

Each mutator's effect on the items is a function of the items alone (`recordItem_items`,
`replace_items`, `dropLastNUserTurns_items`): the counter and the snapshot are outputs only.
-/

variable (ext : Externals)

/-- `u64::MAX`. -/
def u64Max : Nat := 2 ^ 64 - 1

structure ContextManager where
  items : List ResponseItem
  historyVersion : Nat
  referenceContextItem : Option TurnContextItem
  deriving DecidableEq, Repr

def ContextManager.new : ContextManager :=
  { items := [], historyVersion := 0, referenceContextItem := none }

/-! ### Recording -/

/-- Every item except system messages and unknown ones. -/
def isApiMessage : ResponseItem → Bool
  | .message _ role _ _ => role != "system".toList
  | .other => false
  | _ => true

/-- Tool outputs are truncated when they are recorded. -/
def processItem (policy : TruncationPolicy) : ResponseItem → ResponseItem
  | .functionCallOutput callId output =>
      .functionCallOutput callId
        (truncateFunctionOutputPayload output (policy.withSerializationBudget ext))
  | .customToolCallOutput callId name output =>
      .customToolCallOutput callId name
        (truncateFunctionOutputPayload output (policy.withSerializationBudget ext))
  | item => item

/-- What recording `item` appends to the items. -/
def recordedItem (policy : TruncationPolicy) (item : ResponseItem) : List ResponseItem :=
  if isApiMessage item then [processItem ext policy item] else []

/-- `record_items` on a single item. -/
def ContextManager.recordItem (policy : TruncationPolicy) (cm : ContextManager)
    (item : ResponseItem) : ContextManager :=
  { cm with items := cm.items ++ recordedItem ext policy item }

/-- `record_items`. -/
def ContextManager.recordItems (policy : TruncationPolicy) (cm : ContextManager)
    (items : List ResponseItem) : ContextManager :=
  items.foldl (ContextManager.recordItem ext policy) cm

/-- `replace`: new items, and one more rewrite. -/
def ContextManager.replace (cm : ContextManager) (items : List ResponseItem) : ContextManager :=
  { cm with items := items, historyVersion := min (cm.historyVersion + 1) u64Max }

/-! ### Rolling back turns -/

/-- Indices of the items that open an instruction turn. -/
def userMessagePositions (items : List ResponseItem) : List Nat :=
  (items.zipIdx.filter fun entry => isUserTurnBoundary ext entry.1).map Prod.snd

/-- Whether the walk above a rollback cut removes this item. -/
def isTrimmablePreTurnItem : ResponseItem → Bool
  | .message _ role content _ =>
      (role == "developer".toList && isContextualDevMessageContent content) ||
        (role == "user".toList && isContextualUserMessageContent ext content)
  | _ => false

/-- Whether removing this item invalidates the reference snapshot: a developer bundle that
    mixes contextual fragments with persistent text. -/
def isMixedDeveloperBundle : ResponseItem → Bool
  | .message _ role content _ =>
      role == "developer".toList && isContextualDevMessageContent content &&
        hasNonContextualDevMessageContent content
  | _ => false

/-- `trim_pre_turn_context_updates`: the adjusted cut and the surviving snapshot.  The walk
    goes down from `cutIdx` and never crosses `firstInstructionTurnIdx`. -/
def trimPreTurnContextUpdates (snapshot : List ResponseItem) (firstInstructionTurnIdx : Nat) :
    Nat → Option TurnContextItem → Nat × Option TurnContextItem
  | 0, reference => (0, reference)
  | cutIdx + 1, reference =>
      if firstInstructionTurnIdx < cutIdx + 1 then
        match snapshot[cutIdx]? with
        | some item =>
            if isTrimmablePreTurnItem ext item then
              trimPreTurnContextUpdates snapshot firstInstructionTurnIdx cutIdx
                (if isMixedDeveloperBundle item then none else reference)
            else (cutIdx + 1, reference)
        | none => (cutIdx + 1, reference)
      else (cutIdx + 1, reference)

/-- The tentative cut of a rollback, before pre-turn context is trimmed. -/
def rollbackCut (userPositions : List Nat) (firstInstructionTurnIdx numTurns : Nat) : Nat :=
  if userPositions.length ≤ numTurns then firstInstructionTurnIdx
  else userPositions.getD (userPositions.length - numTurns) firstInstructionTurnIdx

/-- `drop_last_n_user_turns`. -/
def ContextManager.dropLastNUserTurns (cm : ContextManager) (numTurns : Nat) : ContextManager :=
  if numTurns = 0 then cm
  else
    match userMessagePositions ext cm.items with
    | [] => cm.replace cm.items
    | first :: rest =>
        let cut := rollbackCut (first :: rest) first numTurns
        let (cutIdx, reference) :=
          trimPreTurnContextUpdates ext cm.items first cut cm.referenceContextItem
        { cm with referenceContextItem := reference }.replace (cm.items.take cutIdx)

/-! ### The mutators on the items -/

/-- The items that survive a rollback of `numTurns` instruction turns. -/
def survivingItems (items : List ResponseItem) (numTurns : Nat) : List ResponseItem :=
  (ContextManager.dropLastNUserTurns ext ⟨items, 0, none⟩ numTurns).items

variable {ext}

@[simp] theorem recordItem_items (policy : TruncationPolicy) (cm : ContextManager)
    (item : ResponseItem) :
    (cm.recordItem ext policy item).items = cm.items ++ recordedItem ext policy item := rfl

@[simp] theorem replace_items (cm : ContextManager) (items : List ResponseItem) :
    (cm.replace items).items = items := rfl

/-- The snapshot carried through the trimming walk does not move the cut. -/
theorem trimPreTurnContextUpdates_fst (snapshot : List ResponseItem) (first cut : Nat)
    (r r' : Option TurnContextItem) :
    (trimPreTurnContextUpdates ext snapshot first cut r).1
      = (trimPreTurnContextUpdates ext snapshot first cut r').1 := by
  induction cut generalizing r r' with
  | zero => rfl
  | succ cut ih =>
    unfold trimPreTurnContextUpdates
    by_cases hlt : first < cut + 1
    · rw [if_pos hlt, if_pos hlt]
      cases snapshot[cut]? with
      | none => rfl
      | some item =>
        by_cases htrim : isTrimmablePreTurnItem ext item
        · simp only [htrim, if_true]; exact ih _ _
        · simp only [htrim, if_false, Bool.false_eq_true]
    · rw [if_neg hlt, if_neg hlt]

/-- A rollback acts on the items alone. -/
@[simp] theorem dropLastNUserTurns_items (cm : ContextManager) (numTurns : Nat) :
    (cm.dropLastNUserTurns ext numTurns).items = survivingItems ext cm.items numTurns := by
  unfold survivingItems ContextManager.dropLastNUserTurns
  by_cases hn : numTurns = 0
  · rw [if_pos hn, if_pos hn]
  · rw [if_neg hn, if_neg hn]
    cases userMessagePositions ext cm.items with
    | nil => rfl
    | cons first rest =>
      simp only [replace_items]
      rw [trimPreTurnContextUpdates_fst cm.items first _ cm.referenceContextItem none]

end CodexMonitor.History
