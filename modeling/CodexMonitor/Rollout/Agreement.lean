import CodexMonitor.Rollout.Spans

namespace CodexMonitor.Rollout

open CodexMonitor.History

/-!
# Rollout — when reconstruction agrees with forward replay

The reverse scan tracks the spans of the rollout (`ScanState.span`, `scanStep_span`), and
its buffers keep a replay invariant (`Buffered`): any base it holds, replayed through the
buffered suffix, gives the forward replay of the whole rollout.  Hence a scan that ends
with a base reconstructs the forward history.  A scan that ends without one has still cut
the suffix at the newest checkpoint of the oldest span that holds one; the cut is harmless
unless that is the only such span.

* `reverseScan_base_isSome` — the scan ends with a base exactly when a span with a
  checkpoint survives.
* `reconstruct_history_eq_replay_iff` — the reconstructed history is the forward replay
  exactly when no checkpoint is lost, or its loss makes no difference to what follows it.
-/

variable {ext : Externals} {policy : TruncationPolicy}

/-! ### The scan tracks the spans -/

/-- The span the scan is inside of, of which it has met `rolledBack` rolled-back turns. -/
def ScanState.span (st : ScanState) (rolledBack : Nat) : Span :=
  match st.activeSegment with
  | none => { rolledBackTurns := rolledBack }
  | some segment =>
      { hasItems := true
        turnId := segment.turnId
        isUserTurn := segment.countsAsUserTurn
        hasCheckpoint := segment.baseReplacementHistory.isSome
        rolledBackTurns := rolledBack }

theorem saturatingAdd_assoc (a b c : Nat) :
    saturatingAdd (saturatingAdd a b) c = saturatingAdd a (b + c) := by
  unfold saturatingAdd; omega

/-- A turn start ends the span exactly when the open segment can belong to that turn. -/
theorem span_endsAt_turnStarted {st : ScanState} {segment : ActiveReplaySegment}
    (rolledBack : Nat) (turnId : Text) (hseg : st.activeSegment = some segment) :
    (st.span rolledBack).endsAt (.eventMsg (.turnStarted turnId))
      = turnIdsAreCompatible segment.turnId (some turnId) := by
  simp [ScanState.span, hseg, Span.endsAt]

/-- **Step inside a span.** An item that does not end the span grows it. -/
theorem scanStep_span (ext : Externals) {st : ScanState} {item : RolloutItem}
    {rolledBack : Nat} (newer : List RolloutItem)
    (hend : (st.span rolledBack).endsAt item = false) :
    (scanStep ext newer st item).span (rolledBack + turnsRolledBackBy item)
      = (st.span rolledBack).grow ext item := by
  cases item with
  | sessionMeta =>
    cases hseg : st.activeSegment <;>
      simp [scanStep, ScanState.span, hseg, Span.grow, isCheckpoint, checkpoint?]
  | compacted item =>
    cases hseg : st.activeSegment <;>
      simp [scanStep, scanCompacted, activeOrDefault, ScanState.span, hseg, Span.grow,
        isCheckpoint, checkpoint?]
  | turnContext ctx =>
    cases hseg : st.activeSegment <;>
      simp [scanStep, scanTurnContext, activeOrDefault, ScanState.span, hseg, Span.grow,
        isCheckpoint, checkpoint?]
  | responseItem item =>
    cases hseg : st.activeSegment <;>
      simp [scanStep, activeOrDefault, ScanState.span, hseg, Span.grow, isCheckpoint, checkpoint?]
  | eventMsg msg =>
    cases msg with
    | turnStarted turnId =>
      cases hseg : st.activeSegment with
      | none =>
        simp [scanStep, scanEvent, ScanState.span, hseg, Span.grow, isCheckpoint, checkpoint?]
      | some segment =>
        -- the start of another turn leaves the segment open
        have hcompat := (span_endsAt_turnStarted rolledBack turnId hseg).symm.trans hend
        simp [scanStep, scanEvent, ScanState.span, hseg, hcompat, Span.grow,
          isCheckpoint, checkpoint?]
    | turnAborted turnId =>
      cases hseg : st.activeSegment <;> cases turnId <;>
        simp [scanStep, scanEvent, ScanState.span, hseg, Span.grow, isCheckpoint, checkpoint?]
    | _ =>
      cases hseg : st.activeSegment <;>
        simp [scanStep, scanEvent, activeOrDefault, ScanState.span, hseg, Span.grow,
          isCheckpoint, checkpoint?]

/-- An item that does not end the span adds its rolled-back turns to the pending ones. -/
theorem scanStep_pending (ext : Externals) {st : ScanState} {item : RolloutItem}
    {rolledBack pending : Nat} (newer : List RolloutItem)
    (hend : (st.span rolledBack).endsAt item = false)
    (hp : st.pendingRollbackTurns = saturatingAdd pending rolledBack) :
    (scanStep ext newer st item).pendingRollbackTurns
      = saturatingAdd pending (rolledBack + turnsRolledBackBy item) := by
  cases item with
  | eventMsg msg =>
    cases msg with
    -- the one item that adds to the pending turns, saturating as the scan does
    | threadRolledBack numTurns =>
      show saturatingAdd st.pendingRollbackTurns numTurns.toNat = _
      rw [hp, saturatingAdd_assoc]; rfl
    | turnStarted turnId =>
      cases hseg : st.activeSegment with
      | none => simp [scanStep, scanEvent, hseg, hp]
      | some segment =>
        -- the start of another turn leaves the segment open
        have hcompat := (span_endsAt_turnStarted rolledBack turnId hseg).symm.trans hend
        simp [scanStep, scanEvent, hseg, hcompat, hp]
    | turnAborted turnId =>
      cases hseg : st.activeSegment <;> cases turnId <;> simp [scanStep, scanEvent, hseg, hp]
    | _ => simp [scanStep, scanEvent, hp]
  | _ => simp [scanStep, scanCompacted, scanTurnContext, hp]

/-- The base of the open segment. -/
def ScanState.activeBase (st : ScanState) : Option (List ResponseItem) :=
  st.activeSegment.bind ActiveReplaySegment.baseReplacementHistory

theorem span_hasCheckpoint (st : ScanState) (rolledBack : Nat) :
    (st.span rolledBack).hasCheckpoint = st.activeBase.isSome := by
  cases hseg : st.activeSegment <;> simp [ScanState.span, ScanState.activeBase, hseg]

theorem span_rolledBackTurns (st : ScanState) (rolledBack : Nat) :
    (st.span rolledBack).rolledBackTurns = rolledBack := by
  cases hseg : st.activeSegment <;> simp [ScanState.span, hseg]

/-- **Step inside a span, on the buffers.** Only the first checkpoint the segment meets
    becomes its base and moves the suffix. -/
theorem scanStep_buffers (ext : Externals) {st : ScanState} {item : RolloutItem}
    {rolledBack : Nat} (newer : List RolloutItem)
    (hend : (st.span rolledBack).endsAt item = false) :
    (scanStep ext newer st item).baseReplacementHistory = st.baseReplacementHistory ∧
    (scanStep ext newer st item).activeBase = st.activeBase.or (checkpoint? item) ∧
    (scanStep ext newer st item).rolloutSuffix
      = if st.activeBase.isNone && isCheckpoint item then newer else st.rolloutSuffix := by
  cases item with
  | eventMsg msg =>
    cases msg with
    | turnStarted turnId =>
      cases hseg : st.activeSegment with
      | none => simp [scanStep, scanEvent, ScanState.activeBase, hseg, isCheckpoint, checkpoint?]
      | some segment =>
        -- the start of another turn leaves the segment open
        have hcompat := (span_endsAt_turnStarted rolledBack turnId hseg).symm.trans hend
        simp [scanStep, scanEvent, ScanState.activeBase, hseg, hcompat, isCheckpoint, checkpoint?]
    | turnAborted turnId =>
      cases hseg : st.activeSegment <;> cases turnId <;>
        simp [scanStep, scanEvent, ScanState.activeBase, hseg, isCheckpoint, checkpoint?]
    | _ =>
      cases hseg : st.activeSegment <;>
        simp [scanStep, scanEvent, activeOrDefault, ScanState.activeBase, hseg, isCheckpoint,
          checkpoint?]
  | _ =>
    cases hseg : st.activeSegment <;>
      simp [scanStep, scanCompacted, scanTurnContext, activeOrDefault, ScanState.activeBase, hseg,
        isCheckpoint, checkpoint?]

/-- **Step at the end of a span.** The turn start that ends the span finalizes the segment. -/
theorem scanStep_endsAt (ext : Externals) {st : ScanState} {item : RolloutItem}
    {rolledBack : Nat} (newer : List RolloutItem) (hend : (st.span rolledBack).endsAt item = true) :
    ∃ segment, st.activeSegment = some segment ∧
      scanStep ext newer st item = finalizeActiveSegment st segment := by
  cases item with
  | eventMsg msg =>
    cases msg with
    | turnStarted turnId =>
      cases hseg : st.activeSegment with
      | none => simp [ScanState.span, hseg, Span.endsAt] at hend
      | some segment =>
        have hcompat := (span_endsAt_turnStarted rolledBack turnId hseg).symm.trans hend
        exact ⟨segment, rfl, by simp [scanStep, scanEvent, hseg, hcompat]⟩
    | _ => simp [Span.endsAt] at hend
  | _ => simp [Span.endsAt] at hend

/-- The turn start that ends a span is no checkpoint. -/
theorem isCheckpoint_of_endsAt {span : Span} {item : RolloutItem}
    (hend : span.endsAt item = true) : isCheckpoint item = false := by
  cases item with
  | compacted item => simp [Span.endsAt] at hend
  | _ => rfl

/-! ### The buffers replay to the forward history -/

/-- Where the suffix is cut once `n` spans with a checkpoint have been met: nowhere, right
    after the newest checkpoint of the rollout, or before some checkpoint. -/
structure SuffixCut (items suffix : List RolloutItem) (n : Nat) : Prop where
  zero : n = 0 → suffix = items
  one : n = 1 → ∃ older item replacement, items = older ++ item :: suffix ∧
    checkpoint? item = some replacement ∧ suffix.any isCheckpoint = false
  many : 2 ≤ n → suffix.any isCheckpoint = true ∧ ∃ older, items = older ++ suffix

/-- The scan has read `newer`, and with it `n` spans with a checkpoint. -/
structure Buffered (ext : Externals) (policy : TruncationPolicy) (items newer : List RolloutItem)
    (st : ScanState) (n : Nat) : Prop where
  sound : ∀ base, st.baseReplacementHistory = some base ∨ st.activeBase = some base →
    itemsAfter ext policy base st.rolloutSuffix = itemsAfter ext policy [] items
  counted : st.baseReplacementHistory.isSome = true → 1 ≤ n
  seen : newer.any isCheckpoint = true ↔ 1 ≤ n
  cut : SuffixCut items st.rolloutSuffix n

/-- Reading an item that is no checkpoint. -/
theorem Buffered.cons {items newer : List RolloutItem} {st : ScanState} {n : Nat}
    {item : RolloutItem} (hb : Buffered ext policy items newer st n)
    (hitem : isCheckpoint item = false) : Buffered ext policy items (item :: newer) st n :=
  ⟨hb.sound, hb.counted, by rw [List.any_cons, hitem, Bool.false_or]; exact hb.seen, hb.cut⟩

/-- How many spans with a checkpoint the open segment counts for. -/
def ScanState.activeCount (st : ScanState) : Nat := if st.activeBase.isSome then 1 else 0

/-- The invariant survives a step inside a span. -/
theorem scanStep_buffered {items older newer : List RolloutItem} {st : ScanState}
    {item : RolloutItem} {closed rolledBack : Nat} (hitems : items = older ++ item :: newer)
    (hend : (st.span rolledBack).endsAt item = false)
    (hb : Buffered ext policy items newer st (closed + st.activeCount)) :
    Buffered ext policy items (item :: newer) (scanStep ext newer st item)
      (closed + (scanStep ext newer st item).activeCount) := by
  obtain ⟨hbase, hactive, hsuffix⟩ := scanStep_buffers ext newer hend
  by_cases hmoves : st.activeBase = none ∧ isCheckpoint item = true
  · -- the first checkpoint of the segment: it becomes its base, and the suffix moves
    obtain ⟨hnone, hcp⟩ := hmoves
    obtain ⟨replacement, hrep⟩ := Option.isSome_iff_exists.mp hcp
    have hactive' : (scanStep ext newer st item).activeBase = some replacement := by
      rw [hactive, hnone, hrep]; rfl
    have hsuffix' : (scanStep ext newer st item).rolloutSuffix = newer := by
      rw [hsuffix, hnone, hcp]; rfl
    have hold : st.activeCount = 0 := by simp [ScanState.activeCount, hnone]
    have hnew : (scanStep ext newer st item).activeCount = 1 := by
      simp [ScanState.activeCount, hactive']
    have hwhole : itemsAfter ext policy [] items = itemsAfter ext policy replacement newer := by
      rw [hitems, itemsAfter_append_checkpoint hrep]
    rw [hold, Nat.add_zero] at hb
    rw [hnew]
    refine ⟨?_, fun _ => by omega, ?_, ?_⟩
    · intro base hsome
      rw [hsuffix', hwhole]
      -- a base known before: its checkpoint is newer than `item`, so the start is irrelevant
      rcases hsome with hsome | hsome
      · rw [hbase] at hsome
        exact itemsAfter_eq_of_checkpoint (hb.seen.mpr (hb.counted (by simp [hsome]))) _ _
      · rw [hactive', Option.some.injEq] at hsome; rw [hsome]
    · simp [hcp]
    · rw [hsuffix']
      refine ⟨fun h => by omega, fun h => ?_, fun h => ?_⟩
      · -- the first checkpoint of the whole scan, hence the newest of the rollout
        have hnewer : newer.any isCheckpoint = false := by
          rw [Bool.eq_false_iff, Ne, hb.seen]; omega
        exact ⟨older, item, replacement, hitems, hrep, hnewer⟩
      · exact ⟨hb.seen.mpr (by omega), older ++ [item], by simp [hitems]⟩
  · -- any other item leaves the buffers alone
    have hactive' : (scanStep ext newer st item).activeBase = st.activeBase := by
      rw [hactive]
      cases hsome : st.activeBase with
      | some base => rfl
      | none =>
        have hno : isCheckpoint item = false := by simpa [hsome] using hmoves
        simpa [isCheckpoint] using hno
    have hsuffix' : (scanStep ext newer st item).rolloutSuffix = st.rolloutSuffix := by
      rw [hsuffix, if_neg]; simpa using hmoves
    have hcount : (scanStep ext newer st item).activeCount = st.activeCount := by
      simp only [ScanState.activeCount, hactive']
    rw [hcount]
    refine ⟨?_, ?_, ?_, ?_⟩
    · rw [hbase, hactive', hsuffix']; exact hb.sound
    · rw [hbase]; exact hb.counted
    · rw [List.any_cons, Bool.or_eq_true, hb.seen]
      refine ⟨fun h => h.elim (fun hcp => ?_) id, Or.inr⟩
      have hsome : st.activeBase.isSome = true := by
        rw [Option.isSome_iff_ne_none]; exact fun hnone => hmoves ⟨hnone, hcp⟩
      simp only [ScanState.activeCount, hsome, if_true]; omega
    · rw [hsuffix']; exact hb.cut

/-- What finalizing the segment does to the buffers. -/
theorem finalizeActiveSegment_buffers {st : ScanState} {segment : ActiveReplaySegment}
    (hseg : st.activeSegment = some segment) :
    (finalizeActiveSegment st segment).activeSegment = none ∧
    (finalizeActiveSegment st segment).rolloutSuffix = st.rolloutSuffix ∧
    (finalizeActiveSegment st segment).baseReplacementHistory
      = if 0 < st.pendingRollbackTurns then st.baseReplacementHistory
        else st.baseReplacementHistory.or st.activeBase := by
  unfold finalizeActiveSegment ScanState.activeBase
  rw [hseg]
  by_cases hp : 0 < st.pendingRollbackTurns
  · simp [hp]
  · cases hbase : st.baseReplacementHistory <;> simp [hp]

/-- The invariant survives the end of a span. -/
theorem finalizeActiveSegment_buffered {items newer : List RolloutItem} {st : ScanState}
    {segment : ActiveReplaySegment} {n : Nat} (hseg : st.activeSegment = some segment)
    (hb : Buffered ext policy items newer st n) (hn : st.activeCount ≤ n) :
    Buffered ext policy items newer (finalizeActiveSegment st segment) n := by
  obtain ⟨hnone, hsuffix, hbase⟩ := finalizeActiveSegment_buffers hseg
  have hactive : (finalizeActiveSegment st segment).activeBase = none := by
    simp [ScanState.activeBase, hnone]
  -- a base after the step was a base or the segment's base before it
  have hfrom : ∀ base, (finalizeActiveSegment st segment).baseReplacementHistory = some base →
      st.baseReplacementHistory = some base ∨ st.activeBase = some base := by
    intro base hsome
    rw [hbase] at hsome
    split at hsome
    · exact Or.inl hsome
    · rw [Option.or_eq_some_iff] at hsome
      exact hsome.imp id And.right
  refine ⟨?_, ?_, hb.seen, ?_⟩
  · intro base hsome
    rw [hactive] at hsome
    rw [hsuffix]
    exact hb.sound base (hfrom base (hsome.resolve_right (by simp)))
  · intro hsome
    obtain ⟨base, hsome⟩ := Option.isSome_iff_exists.mp hsome
    rcases hfrom base hsome with h | h
    · exact hb.counted (by simp [h])
    · have : st.activeCount = 1 := by simp [ScanState.activeCount, h]
      omega
  · rw [hsuffix]; exact hb.cut

theorem finalizeIfActive_buffered {items newer : List RolloutItem} {st : ScanState} {n : Nat}
    (hb : Buffered ext policy items newer st n) (hn : st.activeCount ≤ n) :
    Buffered ext policy items newer (finalizeIfActive st) n := by
  unfold finalizeIfActive
  cases hseg : st.activeSegment with
  | none => exact hb
  | some segment => exact finalizeActiveSegment_buffered hseg hb hn

/-- A base that is known is never replaced. -/
theorem finalizeIfActive_base {st : ScanState} (h : st.baseReplacementHistory.isSome = true) :
    (finalizeIfActive st).baseReplacementHistory = st.baseReplacementHistory := by
  obtain ⟨base, hbase⟩ := Option.isSome_iff_exists.mp h
  unfold finalizeIfActive
  cases hseg : st.activeSegment with
  | none => rfl
  | some segment =>
    rw [(finalizeActiveSegment_buffers hseg).2.2, hbase]
    simp

/-! ### The outcome of the scan -/

/-- The pending rolled-back turns after a span. -/
def pendingAfter (pending : Nat) (span : Span) : Nat :=
  if span.isUserTurn then saturatingAdd pending span.rolledBackTurns - 1
  else saturatingAdd pending span.rolledBackTurns

theorem survivors_cons_any (pending : Nat) (span : Span) (older : List Span) :
    (survivors pending (span :: older)).any Span.hasCheckpoint
      = ((!decide (0 < saturatingAdd pending span.rolledBackTurns) && span.hasCheckpoint) ||
          (survivors (pendingAfter pending span) older).any Span.hasCheckpoint) := by
  simp only [survivors, pendingAfter]
  by_cases hp : 0 < saturatingAdd pending span.rolledBackTurns
  · simp [hp]
  · have hzero : saturatingAdd pending span.rolledBackTurns = 0 := by omega
    simp [hzero]

/-- Finalizing the segment at the end of its span uses up the pending turns. -/
theorem finalizeActiveSegment_pending {st : ScanState} {segment : ActiveReplaySegment}
    {pending rolledBack : Nat} (hseg : st.activeSegment = some segment)
    (hp : st.pendingRollbackTurns = saturatingAdd pending rolledBack) :
    (finalizeActiveSegment st segment).pendingRollbackTurns
      = saturatingAdd (pendingAfter pending (st.span rolledBack)) 0 := by
  have hbound : saturatingAdd pending rolledBack ≤ usizeMax := by
    unfold saturatingAdd; omega
  have hspan : (st.span rolledBack).isUserTurn = segment.countsAsUserTurn ∧
      (st.span rolledBack).rolledBackTurns = rolledBack := by
    simp [ScanState.span, hseg]
  unfold pendingAfter finalizeActiveSegment
  rw [hspan.1, hspan.2, ← hp]
  rw [← hp] at hbound
  -- a user turn uses up one pending turn, any other span uses up none
  by_cases hpos : 0 < st.pendingRollbackTurns
  · cases segment.countsAsUserTurn <;> simp [hpos, saturatingAdd] <;> omega
  · cases segment.countsAsUserTurn <;> simp [hpos, saturatingAdd] <;> omega

/-- What a finished scan, whose remaining spans are `rest`, has in its buffers. -/
structure Outcome (ext : Externals) (policy : TruncationPolicy) (items : List RolloutItem)
    (known : Bool) (pending closed : Nat) (rest : List Span) (final : ScanState) : Prop where
  base : final.baseReplacementHistory.isSome
    = (known || (survivors pending rest).any Span.hasCheckpoint)
  sound : ∀ base, final.baseReplacementHistory = some base →
    itemsAfter ext policy base final.rolloutSuffix = itemsAfter ext policy [] items
  cut : final.baseReplacementHistory = none →
    SuffixCut items final.rolloutSuffix (closed + rest.countP Span.hasCheckpoint)

/-- A scan that stops early has a base. -/
theorem outcome_of_done {items newer : List RolloutItem} {st : ScanState} {n : Nat}
    (hb : Buffered ext policy items newer st n) (hn : st.activeCount ≤ n)
    (hdone : st.baseReplacementHistory.isSome = true) {known : Bool} {pending closed : Nat}
    {rest : List Span}
    (hknown : (known || (survivors pending rest).any Span.hasCheckpoint) = true) :
    Outcome ext policy items known pending closed rest (finalizeIfActive st) := by
  have hbase := finalizeIfActive_base hdone
  refine ⟨?_, fun base hsome => ?_, fun hnone => ?_⟩
  · rw [hbase, hdone, hknown]
  · exact (finalizeIfActive_buffered hb hn).sound base (Or.inl hsome)
  · rw [hbase] at hnone; simp [hnone] at hdone

/-- **Run lemma.** The reverse loop, from any state that keeps the invariants. -/
theorem scanLoop_outcome {items : List RolloutItem} (older : List RolloutItem) :
    ∀ (newer : List RolloutItem) (st : ScanState) (rolledBack pending closed : Nat),
      items = older.reverse ++ newer →
      Buffered ext policy items newer st (closed + st.activeCount) →
      st.pendingRollbackTurns = saturatingAdd pending rolledBack →
      Outcome ext policy items st.baseReplacementHistory.isSome pending closed
        (spansFrom ext (st.span rolledBack) older)
        (finalizeIfActive (scanLoop ext older newer st)) := by
  -- along the items still to be read; `closed` counts the spans already left behind
  induction older with
  | nil =>
    intro newer st rolledBack pending closed hitems hb hp
    have hfinal := finalizeIfActive_buffered hb (Nat.le_add_left _ _)
    -- the oldest span is closed by the end of the rollout, not by a turn start
    have hsingle : (survivors pending [st.span rolledBack]).any Span.hasCheckpoint
        = (!decide (0 < st.pendingRollbackTurns) && st.activeBase.isSome) := by
      rw [survivors_cons_any, span_hasCheckpoint, hp]
      cases hseg : st.activeSegment <;> simp [survivors, ScanState.span, hseg]
    have hcount : [st.span rolledBack].countP Span.hasCheckpoint = st.activeCount := by
      rw [List.countP_singleton, span_hasCheckpoint]; rfl
    refine ⟨?_, fun base hsome => hfinal.sound base (Or.inl hsome), fun _ => ?_⟩
    · simp only [spansFrom, scanLoop]
      rw [hsingle]
      unfold finalizeIfActive
      cases hseg : st.activeSegment with
      | none => simp [ScanState.activeBase, hseg]
      | some segment =>
        rw [(finalizeActiveSegment_buffers hseg).2.2]
        by_cases hpos : 0 < st.pendingRollbackTurns <;> simp [hpos]
    · simp only [spansFrom, scanLoop]
      rw [hcount]; exact hfinal.cut
  | cons item older ih =>
    intro newer st rolledBack pending closed hitems hb hp
    have hitems' : items = older.reverse ++ item :: newer := by simpa using hitems
    simp only [scanLoop, spansFrom]
    by_cases hend : (st.span rolledBack).endsAt item = true
    · -- the turn start that closes the span
      obtain ⟨segment, hseg, hstep⟩ := scanStep_endsAt ext newer hend
      obtain ⟨hnone, -, hbase⟩ := finalizeActiveSegment_buffers hseg
      have hspan : (finalizeActiveSegment st segment).span 0 = {} := by
        simp [ScanState.span, hnone]
      have hzero : (finalizeActiveSegment st segment).activeCount = 0 := by
        simp [ScanState.activeCount, ScanState.activeBase, hnone]
      have hb' : Buffered ext policy items (item :: newer) (finalizeActiveSegment st segment)
          (closed + st.activeCount) :=
        (finalizeActiveSegment_buffered hseg hb (Nat.le_add_left _ _)).cons
          (isCheckpoint_of_endsAt hend)
      have hp' := finalizeActiveSegment_pending hseg hp
      -- the closed span moves from the remaining spans to what is known
      have hknown : ((finalizeActiveSegment st segment).baseReplacementHistory.isSome ||
            (survivors (pendingAfter pending (st.span rolledBack))
              (spansFrom ext {} older)).any Span.hasCheckpoint)
          = (st.baseReplacementHistory.isSome ||
            (survivors pending (st.span rolledBack :: spansFrom ext {} older)).any
              Span.hasCheckpoint) := by
        rw [survivors_cons_any, span_hasCheckpoint, hbase, span_rolledBackTurns, ← hp]
        by_cases hpos : 0 < st.pendingRollbackTurns <;> simp [hpos, Bool.or_assoc]
      rw [if_pos hend, hstep]
      by_cases hdone : scanDone (finalizeActiveSegment st segment) = true
      · have hsome : (finalizeActiveSegment st segment).baseReplacementHistory.isSome = true := by
          simp only [scanDone, Bool.and_eq_true] at hdone; exact hdone.1.1
        rw [if_pos hdone]
        exact outcome_of_done hb' (by omega) hsome (by rw [← hknown, hsome]; rfl)
      · rw [if_neg hdone]
        have hih := ih (item :: newer) (finalizeActiveSegment st segment) 0
          (pendingAfter pending (st.span rolledBack)) (closed + st.activeCount) hitems'
          (by rw [hzero]; exact hb') hp'
        rw [hspan] at hih
        refine ⟨hih.base.trans hknown, hih.sound, fun hnone' => ?_⟩
        rw [List.countP_cons, span_hasCheckpoint]
        have hcut := hih.cut hnone'
        rw [Nat.add_assoc, Nat.add_comm st.activeCount] at hcut
        exact hcut
    · -- an item inside the span: the three step lemmas carry the invariants over
      rw [Bool.not_eq_true] at hend
      have hb' := scanStep_buffered hitems' hend hb
      have hspan := scanStep_span ext newer hend
      have hp' := scanStep_pending ext newer hend hp
      have hbase := (scanStep_buffers ext newer hend).1
      simp only [hend, Bool.false_eq_true, if_false]
      by_cases hdone : scanDone (scanStep ext newer st item) = true
      · have hsome : (scanStep ext newer st item).baseReplacementHistory.isSome = true := by
          simp only [scanDone, Bool.and_eq_true] at hdone; exact hdone.1.1
        rw [if_pos hdone]
        exact outcome_of_done hb' (Nat.le_add_left _ _) hsome (by rw [← hbase, hsome]; rfl)
      · rw [if_neg hdone, ← hspan, ← hbase]
        exact ih (item :: newer) _ _ pending closed hitems' hb' hp'

/-- The reverse scan of a whole rollout. -/
theorem reverseScan_outcome (ext : Externals) (policy : TruncationPolicy)
    (items : List RolloutItem) :
    Outcome ext policy items false 0 0 (spans ext items) (reverseScan ext items) := by
  refine scanLoop_outcome items.reverse [] (.init items) 0 0 0 (by simp) ?_ rfl
  refine ⟨by simp [ScanState.init, ScanState.activeBase], by simp [ScanState.init],
    by simp [ScanState.activeCount, ScanState.activeBase, ScanState.init], ?_⟩
  refine ⟨fun _ => rfl, fun h => ?_, fun h => ?_⟩ <;>
    simp [ScanState.activeCount, ScanState.activeBase, ScanState.init] at h

/-- **When a base is found.** The scan ends with a base exactly when a span that holds a
    checkpoint survives the rollbacks. -/
theorem reverseScan_base_isSome (items : List RolloutItem) :
    (reverseScan ext items).baseReplacementHistory.isSome
      = (survivors 0 (spans ext items)).any Span.hasCheckpoint :=
  (reverseScan_outcome ext (.bytes 0) items).base

/-! ### Agreement with forward replay -/

/-- The reconstructed history, as a replay of the items. -/
theorem reconstruct_history (items : List RolloutItem) :
    (reconstructHistoryFromRollout ext policy items).history
      = itemsAfter ext policy ((reverseScan ext items).baseReplacementHistory.getD [])
          (reverseScan ext items).rolloutSuffix := by
  simp only [reconstructHistoryFromRollout, replay_items]
  cases (reverseScan ext items).baseReplacementHistory <;> rfl

/-- **Reconstruction against forward replay.** The reconstructed history is the plain
    forward replay of the whole rollout exactly when no checkpoint is lost to a rollback,
    or the items after the lost checkpoint replay alike with and without it. -/
theorem reconstruct_history_eq_replay_iff (ext : Externals) (policy : TruncationPolicy)
    (items : List RolloutItem) :
    (reconstructHistoryFromRollout ext policy items).history
        = (replay ext policy ContextManager.new items).items ↔
      (CheckpointLost ext items → ∀ replacement newer,
        newestCheckpoint? items = some (replacement, newer) →
          itemsAfter ext policy [] newer = itemsAfter ext policy replacement newer) := by
  have hout := reverseScan_outcome ext policy items
  have hsurvive := hout.base
  rw [Bool.false_or] at hsurvive
  rw [reconstruct_history, replay_items]
  show itemsAfter ext policy _ _ = itemsAfter ext policy [] items ↔ _
  cases hbase : (reverseScan ext items).baseReplacementHistory with
  | some base =>
    -- a base was found: both sides hold
    refine iff_of_true (hout.sound base hbase) fun hlost => ?_
    rw [hbase, hlost.2] at hsurvive
    simp at hsurvive
  | none =>
    have hcut := hout.cut hbase
    rw [Nat.zero_add] at hcut
    rw [hbase] at hsurvive
    simp only [Option.getD_none]
    rcases Nat.lt_trichotomy ((spans ext items).countP Span.hasCheckpoint) 1 with hn | hn | hn
    · -- no checkpoint at all: the suffix is the whole rollout
      rw [hcut.zero (by omega)]
      exact iff_of_true rfl fun hlost => absurd hlost.1 (by omega)
    · -- one span with checkpoints, and it was rolled back: the suffix starts after the newest
      obtain ⟨older, item, replacement, hitems, hrep, hnone⟩ := hcut.one hn
      have hnewest : newestCheckpoint? items
          = some (replacement, (reverseScan ext items).rolloutSuffix) := by
        conv_lhs => rw [hitems]
        exact newestCheckpoint?_append hrep hnone
      have hwhole : itemsAfter ext policy [] items
          = itemsAfter ext policy replacement (reverseScan ext items).rolloutSuffix := by
        conv_lhs => rw [hitems]
        exact itemsAfter_append_checkpoint hrep [] older _
      rw [hwhole]
      constructor
      · intro heq _ replacement' newer hsome
        rw [hnewest, Option.some.injEq, Prod.mk.injEq] at hsome
        rw [← hsome.1, ← hsome.2]; exact heq
      · exact fun h => h ⟨hn, hsurvive.symm⟩ _ _ hnewest
    · -- an older span moved the suffix back over a checkpoint
      obtain ⟨hany, older, hitems⟩ := hcut.many hn
      refine iff_of_true ?_ fun hlost => absurd hlost.1 (by omega)
      conv_rhs => rw [hitems, itemsAfter_append]
      exact itemsAfter_eq_of_checkpoint hany _ _

/-! ### A checkpoint lost to a rollback

Two user turns; the second one starts with a compaction and is rolled back.  Forward
replay keeps the compacted history, the reverse scan has already cut the suffix after it
and finds no base, so the resumed thread starts empty.
-/

/-- Externals under which plain texts are neither hook prompts nor inter-agent messages. -/
def plainExternals : Externals :=
  { isInterAgentJson := fun _ => false
    hookPromptXml := fun _ => none
    scaleBudget := fun n => (12 * n + 9) / 10 }

/-- A rollout whose only checkpoint lies in a rolled-back turn. -/
def lostCheckpointRollout : List RolloutItem :=
  [ .eventMsg (.turnStarted "t1".toList),
    .eventMsg (.userMessage "a".toList),
    .responseItem (userMessage "a".toList),
    .eventMsg (.turnComplete "t1".toList),
    .eventMsg (.turnStarted "t2".toList),
    .compacted { message := "s".toList, replacementHistory := some [userMessage "s".toList] },
    .eventMsg (.userMessage "b".toList),
    .responseItem (userMessage "b".toList),
    .eventMsg (.turnComplete "t2".toList),
    .eventMsg (.threadRolledBack 1) ]

/-- The reconstruction of `lostCheckpointRollout` has lost the checkpoint's history. -/
theorem reconstruct_ne_replay_lostCheckpoint :
    (reconstructHistoryFromRollout plainExternals (.bytes 10000) lostCheckpointRollout).history
        = [] ∧
      (replay plainExternals (.bytes 10000) ContextManager.new lostCheckpointRollout).items
        = [userMessage "s".toList] ∧
      (reconstructHistoryFromRollout plainExternals (.bytes 10000) lostCheckpointRollout).history ≠
        (replay plainExternals (.bytes 10000) ContextManager.new lostCheckpointRollout).items := by
  decide

end CodexMonitor.Rollout
