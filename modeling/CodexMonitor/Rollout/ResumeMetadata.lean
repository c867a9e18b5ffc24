import CodexMonitor.Rollout.Turns

namespace CodexMonitor.Rollout

open CodexMonitor.History

/-!
# Rollout — the resume metadata of the reverse scan

On a bracketed rollout the reverse scan is compared with the forward pass.

* `scanAll` — the scan without its early exit, which does not change the metadata.
* `scanAll_turn` — what a whole turn does to the state: its segment is finalized.
* `scanAll_rollout` — the scan of all blocks, in terms of the surviving turns.
-/

variable (ext : Externals)

/-! ### The scan without its early exit -/

def scanAll : List RolloutItem → List RolloutItem → ScanState → ScanState
  | [], _, st => st
  | item :: older, newer, st => scanAll older (item :: newer) (scanStep ext newer st item)

variable {ext} {st : ScanState} {newer older lines : List RolloutItem} {item line : RolloutItem}
  {segment : ActiveReplaySegment} {t : Turn} {turnId : Text}

theorem scanAll_append (older' : List RolloutItem) :
    scanAll ext (older ++ older') newer st =
      scanAll ext older' (older.reverse ++ newer) (scanAll ext older newer st) := by
  induction older generalizing newer st with
  | nil => rfl
  | cons item older ih =>
    rw [List.cons_append, scanAll, ih, scanAll, List.reverse_cons, List.append_assoc]
    rfl

/-- Both pieces of metadata are known. -/
def Known (st : ScanState) : Prop :=
  st.previousTurnSettings.isSome = true ∧ st.referenceContextItem.isNeverSet = false

/-- The metadata of a state. -/
def ScanState.metadata (st : ScanState) :
    Option PreviousTurnSettings × TurnReferenceContextItem :=
  (st.previousTurnSettings, st.referenceContextItem)

theorem finalizeActiveSegment_known (h : Known st) :
    (finalizeActiveSegment st segment).metadata = st.metadata := by
  obtain ⟨hsettings, hreference⟩ := h
  have hnone : st.previousTurnSettings.isNone = false := by
    rw [← Option.not_isSome, hsettings]
    rfl
  unfold finalizeActiveSegment
  split
  · rfl
  · simp [ScanState.metadata, hnone, hreference]

theorem finalizeIfActive_known (h : Known st) : (finalizeIfActive st).metadata = st.metadata := by
  unfold finalizeIfActive
  split
  · exact finalizeActiveSegment_known h
  · rfl

theorem scanStep_known (ext : Externals) (newer : List RolloutItem) (item : RolloutItem)
    (h : Known st) : (scanStep ext newer st item).metadata = st.metadata := by
  cases item with
  | eventMsg msg =>
    cases msg with
    | turnAborted turnId =>
      simp only [scanStep, scanEvent]
      split <;> rfl
    | turnStarted turnId =>
      simp only [scanStep, scanEvent]
      split
      · split
        · exact finalizeActiveSegment_known h
        · rfl
      · rfl
    | _ => rfl
  | _ => rfl

theorem known_of_metadata {st' : ScanState} (h : Known st) (heq : st'.metadata = st.metadata) :
    Known st' := by
  obtain ⟨hsettings, hreference⟩ := Prod.mk.inj heq
  exact ⟨hsettings ▸ h.1, hreference ▸ h.2⟩

theorem scanAll_known (ext : Externals) (newer older : List RolloutItem) (h : Known st) :
    (scanAll ext older newer st).metadata = st.metadata := by
  induction older generalizing newer st with
  | nil => rfl
  | cons item older ih =>
    have hstep := scanStep_known ext newer item h
    rw [scanAll, ih _ (known_of_metadata h hstep), hstep]

/-- **The early exit** leaves the metadata as the whole scan would. -/
theorem scanLoop_metadata (ext : Externals) (older newer : List RolloutItem) (st : ScanState) :
    (finalizeIfActive (scanLoop ext older newer st)).metadata =
      (finalizeIfActive (scanAll ext older newer st)).metadata := by
  induction older generalizing newer st with
  | nil => rfl
  | cons item older ih =>
    rw [scanLoop, scanAll]
    by_cases hdone : scanDone (scanStep ext newer st item) = true
    · simp only [hdone, if_true]
      unfold scanDone at hdone
      simp only [Bool.and_eq_true, Bool.not_eq_true'] at hdone
      have hknown : Known (scanStep ext newer st item) := ⟨hdone.1.2, hdone.2⟩
      have hrest := scanAll_known ext (item :: newer) older hknown
      rw [finalizeIfActive_known hknown, finalizeIfActive_known (known_of_metadata hknown hrest),
        hrest]
    · simp only [hdone]
      exact ih _ _

/-! ### The segment of a turn -/

def isMark : RolloutItem → Bool
  | .turnContext _ => true
  | .compacted _ => true
  | _ => false

/-- The newest context or compaction among the lines. -/
def newestMark : List RolloutItem → Option RolloutItem
  | [] => none
  | line :: newer => (newestMark newer).or (if isMark line then some line else none)

def markReference : Option RolloutItem → TurnReferenceContextItem
  | some (.turnContext ctx) => .latest ctx
  | some (.compacted _) => .cleared
  | _ => .neverSet

theorem isMark_of_newestMark (h : newestMark lines = some item) : isMark item = true := by
  induction lines with
  | nil => cases h
  | cons line newer ih =>
    rw [newestMark] at h
    cases hnewer : newestMark newer with
    | some mark =>
      rw [hnewer, Option.some_or] at h
      exact ih (hnewer.trans h)
    | none =>
      rw [hnewer, Option.none_or] at h
      by_cases hmark : isMark line = true
      · rw [if_pos hmark] at h
        exact Option.some.inj h ▸ hmark
      · rw [if_neg hmark] at h
        cases h

theorem markReference_isNeverSet (lines : List RolloutItem) :
    (markReference (newestMark lines)).isNeverSet = (newestMark lines).isNone := by
  cases h : newestMark lines with
  | none => rfl
  | some item =>
    have hmark := isMark_of_newestMark h
    cases item with
    | turnContext ctx => rfl
    | compacted item => rfl
    | _ => cases hmark

/-- The segment after the lines of a turn, read from the newest. -/
structure SegmentOf (ext : Externals) (turnId : Text) (lines : List RolloutItem)
    (segment : ActiveReplaySegment) : Prop where
  turnId : segment.turnId = some turnId
  counts : segment.countsAsUserTurn = lines.any (marksUserTurn ext)
  settings : segment.previousTurnSettings = lines.findSome? recordedSettings
  reference : segment.referenceContextItem = markReference (newestMark lines)

/-- What the scan keeps of a state inside a turn. -/
structure SameOuter (st st' : ScanState) : Prop where
  metadata : st'.metadata = st.metadata
  pending : st'.pendingRollbackTurns = st.pendingRollbackTurns

/-- **One line of a turn.** -/
theorem scanStep_line (newer : List RolloutItem) (hline : isTurnLine turnId line = true)
    (hactive : st.activeSegment = some segment) (hsegment : SegmentOf ext turnId lines segment) :
    ∃ segment', (scanStep ext newer st line).activeSegment = some segment' ∧
      SegmentOf ext turnId (line :: lines) segment' ∧
      SameOuter st (scanStep ext newer st line) := by
  obtain ⟨hid, hcounts, hsettings, hreference⟩ := hsegment
  have hnever := markReference_isNeverSet lines
  cases line with
  | sessionMeta => cases hline
  | responseItem item =>
    refine ⟨_, rfl, ⟨?_, ?_, ?_, ?_⟩, rfl, rfl⟩
    · simp [activeOrDefault, hactive, hid]
    · simp [activeOrDefault, hactive, hcounts, Bool.or_comm]
    · rw [List.findSome?_cons]
      simp [activeOrDefault, hactive, hsettings, recordedSettings]
    · simp [activeOrDefault, hactive, hreference, newestMark, isMark]
  | compacted item =>
    refine ⟨_, rfl, ⟨?_, ?_, ?_, ?_⟩, rfl, rfl⟩
    · simp [activeOrDefault, hactive, hid]
    · simp [activeOrDefault, hactive, hcounts]
    · rw [List.findSome?_cons]
      simp [activeOrDefault, hactive, hsettings, recordedSettings]
    · simp only [activeOrDefault, hactive, Option.getD_some, hreference, hnever]
      rw [newestMark]
      cases newestMark lines <;> rfl
  | turnContext ctx =>
    have hctx : ctx.turnId = some turnId := by simpa [isTurnLine] using hline
    have hcompatible : turnIdsAreCompatible (some turnId) (some turnId) = true := by
      simp [turnIdsAreCompatible]
    refine ⟨_, rfl, ⟨?_, ?_, ?_, ?_⟩, rfl, rfl⟩
    · simp [activeOrDefault, hactive, hid]
    · simp [activeOrDefault, hactive, hcounts]
    · rw [List.findSome?_cons]
      simp [activeOrDefault, hactive, hid, hctx, hcompatible, recordedSettings]
    · simp only [activeOrDefault, hactive, Option.getD_some, hid, hctx, Option.some_or,
        hcompatible, Bool.true_and, hreference, hnever]
      rw [newestMark]
      cases newestMark lines <;> rfl
  | eventMsg msg =>
    cases msg with
    | userMessage message =>
      refine ⟨_, rfl, ⟨?_, ?_, ?_, ?_⟩, rfl, rfl⟩
      · simp [activeOrDefault, hactive, hid]
      · simp
      · rw [List.findSome?_cons]
        simp [activeOrDefault, hactive, hsettings, recordedSettings]
      · simp [activeOrDefault, hactive, hreference, newestMark, isMark]
    | other =>
      refine ⟨segment, hactive, ⟨hid, ?_, ?_, ?_⟩, rfl, rfl⟩
      · simp [hcounts]
      · rw [List.findSome?_cons]
        simp [hsettings, recordedSettings]
      · simp [hreference, newestMark, isMark]
    | _ => cases hline

/-- The lines of a turn, on top of the segment of no lines. -/
theorem scanAll_lines (newer : List RolloutItem)
    (hlines : ∀ line ∈ lines, isTurnLine turnId line = true)
    (hactive : st.activeSegment = some segment) (hsegment : SegmentOf ext turnId [] segment) :
    ∃ segment', (scanAll ext lines.reverse newer st).activeSegment = some segment' ∧
      SegmentOf ext turnId lines segment' ∧ SameOuter st (scanAll ext lines.reverse newer st) := by
  induction lines with
  | nil => exact ⟨segment, hactive, hsegment, rfl, rfl⟩
  | cons line lines ih =>
    obtain ⟨segment', hactive', hsegment', hmetadata, hpending⟩ :=
      ih fun line hline => hlines line (List.mem_cons_of_mem _ hline)
    obtain ⟨final, hfinal, hof, hmetadata', hpending'⟩ := scanStep_line
      (lines.reverse.reverse ++ newer) (hlines line List.mem_cons_self) hactive' hsegment'
    rw [List.reverse_cons, scanAll_append]
    exact ⟨final, hfinal, hof, hmetadata'.trans hmetadata, hpending'.trans hpending⟩

/-- The end of a turn opens its segment. -/
theorem scanStep_endItem (ext : Externals) (newer : List RolloutItem) (t : Turn)
    (hactive : st.activeSegment = none) :
    (scanStep ext newer st t.endItem).activeSegment = some { turnId := some t.turnId } ∧
      SameOuter st (scanStep ext newer st t.endItem) := by
  unfold Turn.endItem
  cases t.ending with
  | complete =>
    refine ⟨?_, rfl, rfl⟩
    simp [scanStep, scanEvent, activeOrDefault, hactive]
  | aborted =>
    simp only [scanStep, scanEvent, hactive]
    exact ⟨trivial, rfl, rfl⟩

/-- The start of a turn closes the segment with its id. -/
theorem scanStep_turnStarted (hactive : st.activeSegment = some segment)
    (hid : segment.turnId = some turnId) :
    scanStep ext newer st (.eventMsg (.turnStarted turnId)) = finalizeActiveSegment st segment := by
  have hcompatible : turnIdsAreCompatible segment.turnId (some turnId) = true := by
    simp [hid, turnIdsAreCompatible]
  simp only [scanStep, scanEvent, hactive, hcompatible, if_true]

/-- **A whole turn** finalizes the segment of its lines. -/
theorem scanAll_turn (ext : Externals) (newer : List RolloutItem) (t : Turn) (hactive : st.activeSegment = none) :
    ∃ st' segment, SameOuter st st' ∧ SegmentOf ext t.turnId t.lines segment ∧
      scanAll ext t.items.reverse newer st = finalizeActiveSegment st' segment := by
  obtain ⟨hend, hmetadata, hpending⟩ :=
    scanStep_endItem ext newer t hactive
  have hempty : SegmentOf ext t.turnId [] { turnId := some t.turnId } :=
    ⟨rfl, rfl, rfl, rfl⟩
  obtain ⟨segment, hsegment, hof, hmetadata', hpending'⟩ :=
    scanAll_lines (t.endItem :: newer) t.bracketed hend hempty
  refine ⟨_, segment, ⟨hmetadata'.trans hmetadata, hpending'.trans hpending⟩, hof, ?_⟩
  have hitems : t.items.reverse =
      t.endItem :: (t.lines.reverse ++ [.eventMsg (.turnStarted t.turnId)]) := by
    unfold Turn.items
    simp
  rw [hitems, scanAll, scanAll_append, scanAll, scanAll]
  exact scanStep_turnStarted hsegment hof.turnId

/-! ### The scan of a rollout -/

/-- The context of a reference. -/
def TurnReferenceContextItem.context : TurnReferenceContextItem → Option TurnContextItem
  | .latest item => some item
  | _ => none

/-- What the segment of a surviving turn passes on to the scan. -/
def Turn.passedOn (ext : Externals) (t : Turn) : TurnReferenceContextItem :=
  if t.isUserTurn ext || (markReference (newestMark t.lines)).isCleared then
    markReference (newestMark t.lines)
  else .neverSet

/-- What the newest of the turns that pass something on passes on. -/
def newestReference (ext : Externals) (turns : List Turn) : TurnReferenceContextItem :=
  turns.foldr (fun t older => if (t.passedOn ext).isNeverSet then older else t.passedOn ext)
    .neverSet

variable {turns olderTurns : List Turn} {blocks : List Block}

theorem newestReference_context_of_countP (h : turns.countP (·.isUserTurn ext) = 0) :
    (newestReference ext turns).context = none := by
  induction turns with
  | nil => rfl
  | cons t older ih =>
    have hnot : t.isUserTurn ext = false := by
      simpa using List.countP_eq_zero.mp h t List.mem_cons_self
    have holder : older.countP (·.isUserTurn ext) = 0 :=
      List.countP_eq_zero.mpr fun u hu =>
        List.countP_eq_zero.mp h u (List.mem_cons_of_mem _ hu)
    have hpassed : (t.passedOn ext).context = none := by
      unfold Turn.passedOn
      rw [hnot, Bool.false_or]
      cases markReference (newestMark t.lines) <;> rfl
    show (if _ then newestReference ext older else t.passedOn ext).context = none
    split
    · exact ih holder
    · exact hpassed

/-- **Finalizing the segment of a turn.** -/
theorem finalize_turn (hof : SegmentOf ext t.turnId t.lines segment) :
    finalizeActiveSegment st segment =
      { finalizeActiveSegment st segment with
        activeSegment := none
        pendingRollbackTurns :=
          if t.isUserTurn ext then st.pendingRollbackTurns - 1 else st.pendingRollbackTurns
        previousTurnSettings :=
          if 0 < st.pendingRollbackTurns then st.previousTurnSettings
          else st.previousTurnSettings.or (if t.isUserTurn ext then t.settings else none)
        referenceContextItem :=
          if 0 < st.pendingRollbackTurns then st.referenceContextItem
          else if st.referenceContextItem.isNeverSet then t.passedOn ext
          else st.referenceContextItem } := by
  obtain ⟨_, hcounts, hsettings, hreference⟩ := hof
  have huser : segment.countsAsUserTurn = t.isUserTurn ext := hcounts
  have hturn : segment.previousTurnSettings = t.settings := hsettings
  unfold finalizeActiveSegment
  by_cases hpending : 0 < st.pendingRollbackTurns
  · simp only [hpending, if_true, huser]
  · have hzero : st.pendingRollbackTurns = 0 := by omega
    rw [if_neg hpending]
    simp only [hzero, Nat.lt_irrefl, if_false, huser, hturn, hreference, Turn.passedOn]
    congr 1
    · cases st.previousTurnSettings <;> cases t.isUserTurn ext <;> rfl
    · cases hst : st.referenceContextItem <;> simp [TurnReferenceContextItem.isNeverSet]
    · simp

/-- Rollbacks that are pending together drop the same turns as one after the other, or both
    leave no user turn. -/
theorem dropNewest_pending (n m : Nat) (hcount : turns.countP (·.isUserTurn ext) ≤ usizeMax) :
    dropNewest ext m (rollBack ext n turns) = dropNewest ext (saturatingAdd m n) turns ∨
      (dropNewest ext m (rollBack ext n turns)).countP (·.isUserTurn ext) = 0 ∧
        (dropNewest ext (saturatingAdd m n) turns).countP (·.isUserTurn ext) = 0 := by
  unfold saturatingAdd
  rcases dropNewest_rollBack n m turns with hsame | ⟨hnone, hle⟩
  · by_cases hfits : m + n ≤ usizeMax
    · rw [Nat.min_eq_left hfits, hsame, Nat.add_comm]
      exact .inl rfl
    · refine .inr ⟨?_, ?_⟩
      · rw [hsame, countP_dropNewest]
        omega
      · rw [countP_dropNewest]
        omega
  · refine .inr ⟨hnone, ?_⟩
    rw [countP_dropNewest]
    omega

/-- The metadata of turns that are left. -/
def leftMetadata (ext : Externals) (turns : List Turn) :
    Option PreviousTurnSettings × Option TurnContextItem :=
  (newestSettings ext turns, (newestReference ext turns).context)

theorem leftMetadata_pending (n m : Nat)
    (hcount : turns.countP (·.isUserTurn ext) ≤ usizeMax) :
    leftMetadata ext (dropNewest ext m (rollBack ext n turns)) =
      leftMetadata ext (dropNewest ext (saturatingAdd m n) turns) := by
  rcases dropNewest_pending n m hcount with hsame | ⟨hleft, hright⟩
  · rw [hsame]
  · unfold leftMetadata
    rw [newestSettings_of_countP hleft, newestReference_context_of_countP hleft,
      newestSettings_of_countP hright, newestReference_context_of_countP hright]

/-- What a state knows already, and from the turns that are left what it does not. -/
def ScanState.completedBy (st : ScanState)
    (left : Option PreviousTurnSettings × Option TurnContextItem) :
    Option PreviousTurnSettings × Option TurnContextItem :=
  (st.previousTurnSettings.or left.1,
    if st.referenceContextItem.isNeverSet then left.2 else st.referenceContextItem.context)

/-- **A turn of which the rollbacks remove one more, or none.** -/
theorem completedBy_turn (hof : SegmentOf ext t.turnId t.lines segment) (older : List Turn) :
    (finalizeActiveSegment st segment).completedBy (leftMetadata ext
        (dropNewest ext (finalizeActiveSegment st segment).pendingRollbackTurns older)) =
      st.completedBy (leftMetadata ext
        (dropNewest ext st.pendingRollbackTurns (t :: older))) := by
  rw [finalize_turn hof]
  by_cases hpending : 0 < st.pendingRollbackTurns
  · simp only [hpending, if_true]
    rw [dropNewest_cons_of_pos hpending]
    rfl
  · have hzero : st.pendingRollbackTurns = 0 := by omega
    simp only [hzero, Nat.lt_irrefl, if_false, Nat.zero_sub, ite_self, dropNewest_zero]
    have hsettings : newestSettings ext (t :: older) =
        (if t.isUserTurn ext then t.settings else none).or (newestSettings ext older) := by
      unfold newestSettings
      rw [List.findSome?_cons]
      split <;> simp_all
    have hreference : newestReference ext (t :: older) =
        if (t.passedOn ext).isNeverSet then newestReference ext older else t.passedOn ext := rfl
    unfold ScanState.completedBy leftMetadata
    simp only [hsettings, hreference, Option.or_assoc]
    congr 1
    cases st.referenceContextItem with
    | neverSet => cases t.passedOn ext <;> rfl
    | cleared => rfl
    | latest ctx => rfl

/-- **The whole scan** completes what is known with the turns that are left. -/
theorem scanAll_rollout (ext : Externals) (blocks : List Block) (newer : List RolloutItem)
    (st : ScanState) (hlen : blocks.length ≤ usizeMax) (hactive : st.activeSegment = none) :
    (scanAll ext (rollout blocks).reverse newer st).activeSegment = none ∧
    ((scanAll ext (rollout blocks).reverse newer st).previousTurnSettings,
        (scanAll ext (rollout blocks).reverse newer st).referenceContextItem.context) =
      st.completedBy (leftMetadata ext
        (dropNewest ext st.pendingRollbackTurns (surviving ext blocks))) := by
  induction blocks using List.reverseRecOn generalizing newer st with
  | nil =>
    refine ⟨hactive, ?_⟩
    rw [surviving, List.foldl_nil, dropNewest_nil]
    show (st.previousTurnSettings, st.referenceContextItem.context) = _
    unfold ScanState.completedBy leftMetadata newestSettings newestReference
    cases st.referenceContextItem <;> simp [TurnReferenceContextItem.isNeverSet]
  | append_singleton blocks block ih =>
    rw [List.length_append, List.length_singleton] at hlen
    have hrollout : (rollout (blocks ++ [block])).reverse =
        block.items.reverse ++ (rollout blocks).reverse := by
      unfold rollout
      simp
    rw [hrollout, scanAll_append, surviving_concat]
    cases block with
    | rollback numTurns =>
      have hcount : (surviving ext blocks).countP (·.isUserTurn ext) ≤ usizeMax :=
        Nat.le_trans List.countP_le_length
          (Nat.le_trans (length_surviving_le blocks) (Nat.le_of_succ_le hlen))
      obtain ⟨hnone, hmetadata⟩ := ih (Block.items (.rollback numTurns) ++ newer)
        (scanStep ext newer st (.eventMsg (.threadRolledBack numTurns)))
        (Nat.le_of_succ_le hlen) hactive
      refine ⟨hnone, hmetadata.trans ?_⟩
      show st.completedBy _ = st.completedBy _
      exact congrArg st.completedBy (leftMetadata_pending numTurns.toNat _ hcount).symm
    | turn t =>
      obtain ⟨st', segment, ⟨hmetadata, hpending⟩, hof, hscan⟩ :=
        scanAll_turn ext newer t hactive
      have hnone : (finalizeActiveSegment st' segment).activeSegment = none := by
        rw [finalize_turn hof]
      obtain ⟨hfinal, hrest⟩ := ih (t.items.reverse.reverse ++ newer)
        (finalizeActiveSegment st' segment) (Nat.le_of_succ_le hlen) hnone
      rw [show (Block.turn t).items = t.items from rfl, hscan]
      refine ⟨hfinal, hrest.trans ?_⟩
      rw [completedBy_turn hof]
      obtain ⟨hsettings, hreference⟩ := Prod.mk.inj hmetadata
      unfold ScanState.completedBy
      rw [hsettings, hreference, hpending]
      rfl

end CodexMonitor.Rollout
