import CodexMonitor.Rollout.Replay

namespace CodexMonitor.Rollout

open CodexMonitor.History

/-!
# Rollout — reconstruction by a reverse scan

`core/src/session/rollout_reconstruction.rs`: resuming a thread scans its rollout from the
newest line to the oldest, groups the lines into replay segments that a matching
`TurnStarted` closes, skips the segments that rollback markers remove, and stops as soon as
it knows a surviving checkpoint and the resume metadata.  The history is then the replay
of the buffered suffix on top of that checkpoint.

* `ScanState` — the mutable variables of the loop.
* `scanStep` — the body of the loop for one line; `newer` is `rollout_items[index + 1..]`.
* `scanLoop` — the loop with its early exit.
* `reconstructHistoryFromRollout` — the whole function.
-/

variable (ext : Externals) (policy : TruncationPolicy)

/-! ### The state of the scan -/

structure PreviousTurnSettings where
  model : Text
  realtimeActive : Option Bool
  deriving DecidableEq, Repr

/-- The reference context of a replay span: none seen, cleared by a compaction, or the
    newest one established. -/
inductive TurnReferenceContextItem where
  | neverSet
  | cleared
  | latest (item : TurnContextItem)
  deriving DecidableEq, Repr

def TurnReferenceContextItem.isNeverSet : TurnReferenceContextItem → Bool
  | .neverSet => true
  | _ => false

def TurnReferenceContextItem.isCleared : TurnReferenceContextItem → Bool
  | .cleared => true
  | _ => false

/-- The segment the scan is inside of. -/
structure ActiveReplaySegment where
  turnId : Option Text := none
  countsAsUserTurn : Bool := false
  previousTurnSettings : Option PreviousTurnSettings := none
  referenceContextItem : TurnReferenceContextItem := .neverSet
  baseReplacementHistory : Option (List ResponseItem) := none
  deriving DecidableEq, Repr

/-- The variables of the reverse loop. -/
structure ScanState where
  baseReplacementHistory : Option (List ResponseItem)
  previousTurnSettings : Option PreviousTurnSettings
  referenceContextItem : TurnReferenceContextItem
  pendingRollbackTurns : Nat
  rolloutSuffix : List RolloutItem
  activeSegment : Option ActiveReplaySegment

def ScanState.init (rolloutItems : List RolloutItem) : ScanState :=
  { baseReplacementHistory := none
    previousTurnSettings := none
    referenceContextItem := .neverSet
    pendingRollbackTurns := 0
    rolloutSuffix := rolloutItems
    activeSegment := none }

def turnIdsAreCompatible (activeTurnId itemTurnId : Option Text) : Bool :=
  match activeTurnId, itemTurnId with
  | some turnId, some itemTurnId => itemTurnId == turnId
  | _, _ => true

/-! ### Closing a segment -/

/-- `finalize_active_segment`: a segment that a pending rollback removes only uses up the
    rollback; a surviving one contributes what is not yet known. -/
def finalizeActiveSegment (st : ScanState) (segment : ActiveReplaySegment) : ScanState :=
  -- a rolled-back segment is dropped with its base, but the suffix it cut stays cut
  if 0 < st.pendingRollbackTurns then
    { st with
      activeSegment := none
      pendingRollbackTurns :=
        if segment.countsAsUserTurn then st.pendingRollbackTurns - 1
        else st.pendingRollbackTurns }
  else
    { st with
      activeSegment := none
      baseReplacementHistory :=
        match st.baseReplacementHistory with
        | some base => some base
        | none => segment.baseReplacementHistory
      -- the resume metadata comes from the newest surviving user turn
      previousTurnSettings :=
        if st.previousTurnSettings.isNone && segment.countsAsUserTurn then
          segment.previousTurnSettings
        else st.previousTurnSettings
      referenceContextItem :=
        if st.referenceContextItem.isNeverSet &&
            (segment.countsAsUserTurn || segment.referenceContextItem.isCleared) then
          segment.referenceContextItem
        else st.referenceContextItem }

/-- `active_segment.take()` followed by `finalize_active_segment`. -/
def finalizeIfActive (st : ScanState) : ScanState :=
  match st.activeSegment with
  | some segment => finalizeActiveSegment st segment
  | none => st

/-! ### The body of the loop -/

/-- `get_or_insert_with(ActiveReplaySegment::default)`. -/
def activeOrDefault (st : ScanState) : ActiveReplaySegment := st.activeSegment.getD {}

/-- The `Compacted` arm: the newest replacement history of the segment is its base, and
    the buffered suffix starts after it. -/
def scanCompacted (newer : List RolloutItem) (st : ScanState) (item : CompactedItem) :
    ScanState :=
  let active := activeOrDefault st
  { st with
    activeSegment := some { active with
      referenceContextItem :=
        if active.referenceContextItem.isNeverSet then .cleared else active.referenceContextItem
      baseReplacementHistory := active.baseReplacementHistory.or item.replacementHistory }
    rolloutSuffix :=
      if active.baseReplacementHistory.isNone && item.replacementHistory.isSome then newer
      else st.rolloutSuffix }

/-- The `TurnContext` arm. -/
def scanTurnContext (st : ScanState) (ctx : TurnContextItem) : ScanState :=
  let active := activeOrDefault st
  let turnId := active.turnId.or ctx.turnId
  let compatible := turnIdsAreCompatible turnId ctx.turnId
  { st with
    activeSegment := some { active with
      turnId := turnId
      previousTurnSettings :=
        if compatible then some { model := ctx.model, realtimeActive := ctx.realtimeActive }
        else active.previousTurnSettings
      referenceContextItem :=
        if compatible && active.referenceContextItem.isNeverSet then .latest ctx
        else active.referenceContextItem } }

/-- The event arms. -/
def scanEvent (st : ScanState) : EventMsg → ScanState
  | .threadRolledBack numTurns =>
      { st with
        pendingRollbackTurns := saturatingAdd st.pendingRollbackTurns numTurns.toNat }
  | .turnComplete turnId =>
      let active := activeOrDefault st
      { st with activeSegment := some { active with turnId := active.turnId.or (some turnId) } }
  | .turnAborted turnId =>
      -- only an abort that names its turn opens a segment
      match st.activeSegment, turnId with
      | some active, _ =>
          { st with activeSegment := some { active with turnId := active.turnId.or turnId } }
      | none, some turnId => { st with activeSegment := some { turnId := some turnId } }
      | none, none => st
  | .userMessage _ =>
      { st with activeSegment := some { activeOrDefault st with countsAsUserTurn := true } }
  | .turnStarted turnId =>
      match st.activeSegment with
      | some active =>
          -- in reverse order the start of a turn is where its segment closes
          if turnIdsAreCompatible active.turnId (some turnId) then finalizeActiveSegment st active
          else st
      | none => st
  | .other => st

/-- The body of the reverse loop; `newer` are the items after the current one. -/
def scanStep (newer : List RolloutItem) (st : ScanState) : RolloutItem → ScanState
  | .compacted item => scanCompacted newer st item
  | .eventMsg msg => scanEvent st msg
  | .turnContext ctx => scanTurnContext st ctx
  | .responseItem item =>
      let active := activeOrDefault st
      { st with
        activeSegment := some { active with
          countsAsUserTurn := active.countsAsUserTurn || isUserTurnBoundary ext item } }
  | .sessionMeta => st

/-- The early exit: a base and both pieces of resume metadata are known. -/
def scanDone (st : ScanState) : Bool :=
  st.baseReplacementHistory.isSome && st.previousTurnSettings.isSome &&
    !st.referenceContextItem.isNeverSet

/-- The reverse loop over the older items, newest first. -/
def scanLoop : List RolloutItem → List RolloutItem → ScanState → ScanState
  | [], _, st => st
  | item :: older, newer, st =>
      let st := scanStep ext newer st item
      if scanDone st then st else scanLoop older (item :: newer) st

/-! ### The reconstruction -/

structure RolloutReconstruction where
  history : List ResponseItem
  previousTurnSettings : Option PreviousTurnSettings
  referenceContextItem : Option TurnContextItem
  deriving DecidableEq, Repr

/-- The reverse scan of a rollout, with its last open segment finalized. -/
def reverseScan (rolloutItems : List RolloutItem) : ScanState :=
  finalizeIfActive (scanLoop ext rolloutItems.reverse [] (.init rolloutItems))

/-- A compaction written before replacement histories were persisted. -/
def isLegacyCompaction : RolloutItem → Bool
  | .compacted item => item.replacementHistory.isNone
  | _ => false

/-- `Session::reconstruct_history_from_rollout`. -/
def reconstructHistoryFromRollout (rolloutItems : List RolloutItem) : RolloutReconstruction :=
  let st := reverseScan ext rolloutItems
  let base := match st.baseReplacementHistory with
    | some base => ContextManager.new.replace base
    | none => ContextManager.new
  let history := replay ext policy base st.rolloutSuffix
  let referenceContextItem := match st.referenceContextItem with
    | .latest item => some item
    | _ => none
  { history := history.items
    previousTurnSettings := st.previousTurnSettings
    referenceContextItem :=
      if st.rolloutSuffix.any isLegacyCompaction then none else referenceContextItem }

end CodexMonitor.Rollout
