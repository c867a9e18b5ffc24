import CodexMonitor.Rollout.ResumeMetadata

namespace CodexMonitor.Rollout

open CodexMonitor.History

/-!
# Rollout — the reference context against the surviving baseline

What the reverse scan returns as the reference context and what the forward pass has as its
baseline, turn by turn.

* `Silent` — a turn that says nothing about the baseline.
* `Masks` — a turn without a user message that clears the baseline and then records a context;
  the scan takes neither from it and goes on to an older turn.
* `ClearingMasked` — a masked clearing is the newest word on a baseline that is there.
* `followsStack_iff` — the metadata is that of the forward pass exactly if no clearing is masked.
-/

variable (ext : Externals)

/-! ### The baseline of one turn -/

def isCompaction : RolloutItem → Bool
  | .compacted _ => true
  | _ => false

def isTurnContext : RolloutItem → Bool
  | .turnContext _ => true
  | _ => false

/-- The turn leaves the baseline as it is. -/
def Silent (t : Turn) : Prop :=
  if t.isUserTurn ext then newestMark t.lines = none else t.lines.any isCompaction = false

/-- The turn clears the baseline, but its newest mark is a context. -/
def Masks (t : Turn) : Prop :=
  t.isUserTurn ext = false ∧ t.lines.any isCompaction = true ∧
    (newestMark t.lines).any isTurnContext = true

/-- The turn sets the baseline. -/
def Sets (t : Turn) : Prop :=
  t.isUserTurn ext = true ∧ (newestMark t.lines).any isTurnContext = true

/-- A baseline is found when the turns that say nothing and those that mask are skipped. -/
def LeavesBaseline (turns : List Turn) : Prop :=
  ∃ skipped t older, turns = skipped ++ t :: older ∧
    (∀ u ∈ skipped, Silent ext u ∨ Masks ext u) ∧ Sets ext t

/-- **A masked clearing**: the newest turn that says something about the baseline masks its
    clearing, and the turns before it leave a baseline. -/
def ClearingMasked (turns : List Turn) : Prop :=
  ∃ newer t older, turns = newer ++ t :: older ∧
    (∀ u ∈ newer, Silent ext u) ∧ Masks ext t ∧ LeavesBaseline ext older

variable {ext} {t : Turn} {older turns : List Turn} {lines : List RolloutItem}
  {baseline : Option TurnContextItem}

theorem newestMark_append (lines newer : List RolloutItem) :
    newestMark (lines ++ newer) = (newestMark newer).or (newestMark lines) := by
  induction lines with
  | nil => exact (Option.or_none ..).symm
  | cons line lines ih => rw [List.cons_append, newestMark, ih, newestMark, Option.or_assoc]

/-- In a user turn the newest mark decides. -/
theorem foldl_baselineStep_true (lines : List RolloutItem) :
    lines.foldl (baselineStep true) baseline =
      if (newestMark lines).isNone then baseline
      else (markReference (newestMark lines)).context := by
  induction lines using List.reverseRecOn with
  | nil => rfl
  | append_singleton lines line ih =>
    rw [List.foldl_concat, ih, newestMark_append]
    cases line <;> simp [baselineStep, newestMark, isMark, markReference,
      TurnReferenceContextItem.context]

/-- In a turn without a user message only a compaction counts. -/
theorem foldl_baselineStep_false (lines : List RolloutItem) :
    lines.foldl (baselineStep false) baseline =
      if lines.any isCompaction then none else baseline := by
  induction lines generalizing baseline with
  | nil => rfl
  | cons line lines ih =>
    rw [List.foldl_cons, ih, List.any_cons]
    cases line <;> simp [baselineStep, isCompaction]

theorem any_isCompaction_of_newestMark {item : CompactedItem}
    (h : newestMark lines = some (.compacted item)) : lines.any isCompaction = true := by
  induction lines with
  | nil => cases h
  | cons line lines ih =>
    rw [newestMark] at h
    rw [List.any_cons, Bool.or_eq_true]
    cases hnewer : newestMark lines with
    | some mark =>
      rw [hnewer, Option.some_or] at h
      exact .inr (ih (hnewer.trans h))
    | none =>
      rw [hnewer, Option.none_or] at h
      by_cases hmark : isMark line = true
      · rw [if_pos hmark] at h
        exact .inl (by rw [Option.some.inj h]; rfl)
      · rw [if_neg hmark] at h
        cases h

theorem any_isCompaction_of_none (h : newestMark lines = none) :
    lines.any isCompaction = false := by
  induction lines with
  | nil => rfl
  | cons line lines ih =>
    rw [newestMark, Option.or_eq_none_iff] at h
    rw [List.any_cons, ih h.1, Bool.or_false]
    cases line with
    | compacted item => cases h.2
    | _ => rfl

/-! ### The three kinds of turns -/

theorem passedOn_of_silent (h : Silent ext t) : (t.passedOn ext).isNeverSet = true := by
  unfold Silent at h
  unfold Turn.passedOn
  cases huser : t.isUserTurn ext with
  | true =>
    have hmark : newestMark t.lines = none := by simpa [huser] using h
    rw [hmark]
    rfl
  | false =>
    have hnot : t.lines.any isCompaction = false := by simpa [huser] using h
    cases hmark : newestMark t.lines with
    | none => rfl
    | some item =>
      cases item with
      | compacted item =>
        have hany := any_isCompaction_of_newestMark hmark
        rw [hnot] at hany
        cases hany
      | _ => rfl

theorem baselineAfter_of_silent (h : Silent ext t) : t.baselineAfter ext baseline = baseline := by
  unfold Silent at h
  unfold Turn.baselineAfter
  cases huser : t.isUserTurn ext with
  | true =>
    have hmark : newestMark t.lines = none := by simpa [huser] using h
    rw [foldl_baselineStep_true, hmark]
    rfl
  | false =>
    have hnot : t.lines.any isCompaction = false := by simpa [huser] using h
    rw [foldl_baselineStep_false, hnot]
    rfl

theorem passedOn_of_masks (h : Masks ext t) : (t.passedOn ext).isNeverSet = true := by
  obtain ⟨hnot, -, hcontext⟩ := h
  unfold Turn.passedOn
  rw [hnot]
  cases hmark : newestMark t.lines with
  | none => rfl
  | some item =>
    rw [hmark, Option.any_some] at hcontext
    cases item with
    | turnContext ctx => rfl
    | _ => cases hcontext

theorem baselineAfter_of_masks (h : Masks ext t) : t.baselineAfter ext baseline = none := by
  obtain ⟨hnot, hcompaction, -⟩ := h
  unfold Turn.baselineAfter
  rw [hnot, foldl_baselineStep_false, hcompaction]
  rfl

/-- **Any other turn** passes its baseline on. -/
theorem passedOn_of_not (baseline : Option TurnContextItem) (hsilent : ¬ Silent ext t)
    (hmasks : ¬ Masks ext t) :
    (t.passedOn ext).isNeverSet = false ∧
      (t.passedOn ext).context = t.baselineAfter ext baseline := by
  unfold Silent at hsilent
  unfold Masks at hmasks
  unfold Turn.passedOn Turn.baselineAfter
  cases huser : t.isUserTurn ext with
  | true =>
    have hmark : newestMark t.lines ≠ none := by simpa [huser] using hsilent
    have hsome : (newestMark t.lines).isNone = false := by
      cases hnone : newestMark t.lines with
      | none => exact absurd hnone hmark
      | some item => rfl
    rw [foldl_baselineStep_true, hsome, Bool.true_or, if_pos rfl]
    exact ⟨(markReference_isNeverSet t.lines).trans hsome, rfl⟩
  | false =>
    have hcompaction : t.lines.any isCompaction = true := by simpa [huser] using hsilent
    have hcontext : (newestMark t.lines).any isTurnContext ≠ true := fun hcontext =>
      hmasks ⟨huser, hcompaction, hcontext⟩
    rw [foldl_baselineStep_false, hcompaction, if_pos rfl]
    cases hmark : newestMark t.lines with
    | none =>
      rw [any_isCompaction_of_none hmark] at hcompaction
      cases hcompaction
    | some item =>
      have hitem := isMark_of_newestMark hmark
      rw [hmark, Option.any_some] at hcontext
      cases item with
      | turnContext ctx => exact absurd rfl hcontext
      | compacted item => exact ⟨rfl, rfl⟩
      | _ => cases hitem

theorem Masks.not_silent (h : Masks ext t) : ¬ Silent ext t := by
  obtain ⟨hnot, hcompaction, -⟩ := h
  unfold Silent
  rw [hnot]
  simp [hcompaction]

/-- The context of a turn that is not skipped is there exactly if the turn sets it. -/
theorem context_passedOn_isSome (h : (t.passedOn ext).isNeverSet = false) :
    (t.passedOn ext).context.isSome = true ↔ Sets ext t := by
  unfold Turn.passedOn at h ⊢
  unfold Sets
  by_cases hpasses : (t.isUserTurn ext || (markReference (newestMark t.lines)).isCleared) = true
  · rw [if_pos hpasses] at h ⊢
    cases hmark : newestMark t.lines with
    | none =>
      rw [hmark] at h
      cases h
    | some item =>
      have hitem := isMark_of_newestMark hmark
      rw [hmark] at hpasses
      cases item with
      | turnContext ctx =>
        have huser : t.isUserTurn ext = true := by
          simpa [markReference, TurnReferenceContextItem.isCleared] using hpasses
        exact ⟨fun _ => ⟨huser, rfl⟩, fun _ => rfl⟩
      | compacted item =>
        constructor
        · intro hsome
          cases hsome
        · rintro ⟨-, hcontext⟩
          cases hcontext
      | _ => cases hitem
  · rw [if_neg hpasses] at h
    cases h

/-! ### The turns from the newest -/

theorem leavesBaseline_cons : LeavesBaseline ext (t :: older) ↔
    Sets ext t ∨ (Silent ext t ∨ Masks ext t) ∧ LeavesBaseline ext older := by
  constructor
  · rintro ⟨skipped, u, rest, heq, hskipped, hsets⟩
    cases skipped with
    | nil =>
      obtain ⟨rfl, rfl⟩ := List.cons.inj heq
      exact .inl hsets
    | cons s skipped =>
      obtain ⟨rfl, rfl⟩ := List.cons.inj heq
      exact .inr ⟨hskipped _ List.mem_cons_self, skipped, u, rest, rfl,
        fun v hv => hskipped v (List.mem_cons_of_mem _ hv), hsets⟩
  · rintro (hsets | ⟨ht, skipped, u, rest, rfl, hskipped, hsets⟩)
    · exact ⟨[], t, older, rfl, by simp, hsets⟩
    · exact ⟨t :: skipped, u, rest, rfl, List.forall_mem_cons.mpr ⟨ht, hskipped⟩, hsets⟩

theorem clearingMasked_cons : ClearingMasked ext (t :: older) ↔
    Masks ext t ∧ LeavesBaseline ext older ∨ Silent ext t ∧ ClearingMasked ext older := by
  constructor
  · rintro ⟨newer, u, rest, heq, hnewer, hmasks, hleaves⟩
    cases newer with
    | nil =>
      obtain ⟨rfl, rfl⟩ := List.cons.inj heq
      exact .inl ⟨hmasks, hleaves⟩
    | cons s newer =>
      obtain ⟨rfl, rfl⟩ := List.cons.inj heq
      exact .inr ⟨hnewer _ List.mem_cons_self, newer, u, rest, rfl,
        fun v hv => hnewer v (List.mem_cons_of_mem _ hv), hmasks, hleaves⟩
  · rintro (⟨hmasks, hleaves⟩ | ⟨hsilent, newer, u, rest, rfl, hnewer, hmasks, hleaves⟩)
    · exact ⟨[], t, older, rfl, by simp, hmasks, hleaves⟩
    · exact ⟨t :: newer, u, rest, rfl, List.forall_mem_cons.mpr ⟨hsilent, hnewer⟩, hmasks,
        hleaves⟩

theorem newestReference_cons : newestReference ext (t :: older) =
    if (t.passedOn ext).isNeverSet then newestReference ext older else t.passedOn ext := rfl

theorem newestBaseline_cons : newestBaseline ext (t :: older) =
    t.baselineAfter ext (newestBaseline ext older) := rfl

/-- The scan returns a context exactly if the turns leave one behind what it skips. -/
theorem context_newestReference_isSome (ext : Externals) (turns : List Turn) :
    (newestReference ext turns).context.isSome = true ↔ LeavesBaseline ext turns := by
  induction turns with
  | nil =>
    constructor
    · intro h
      cases h
    · rintro ⟨skipped, t, older, heq, -⟩
      simp at heq
  | cons t older ih =>
    rw [newestReference_cons, leavesBaseline_cons]
    by_cases hskipped : Silent ext t ∨ Masks ext t
    · have hnever : (t.passedOn ext).isNeverSet = true :=
        hskipped.elim passedOn_of_silent passedOn_of_masks
      have hnot : ¬ Sets ext t := by
        rintro ⟨huser, hcontext⟩
        rcases hskipped with hsilent | hmasks
        · have hnone : newestMark t.lines = none := by simpa [Silent, huser] using hsilent
          rw [hnone] at hcontext
          cases hcontext
        · have hfalse := hmasks.1
          rw [huser] at hfalse
          cases hfalse
      rw [if_pos hnever, ih]
      simp [hnot, hskipped]
    · obtain ⟨hsilent, hmasks⟩ := not_or.mp hskipped
      have hpassed := (passedOn_of_not none hsilent hmasks).1
      rw [if_neg (by simp [hpassed]), context_passedOn_isSome hpassed]
      simp [hskipped]

/-- **The reference of the scan is the baseline of the forward pass** exactly if no clearing is
    masked. -/
theorem context_newestReference_iff (turns : List Turn) :
    (newestReference ext turns).context = newestBaseline ext turns ↔
      ¬ ClearingMasked ext turns := by
  induction turns with
  | nil =>
    refine iff_of_true rfl ?_
    rintro ⟨newer, t, older, heq, -⟩
    simp at heq
  | cons t older ih =>
    rw [newestReference_cons, newestBaseline_cons, clearingMasked_cons]
    by_cases hsilent : Silent ext t
    · have hnot : ¬ Masks ext t := fun hmasks => hmasks.not_silent hsilent
      rw [if_pos (passedOn_of_silent hsilent), baselineAfter_of_silent hsilent, ih]
      simp [hsilent, hnot]
    · by_cases hmasks : Masks ext t
      · rw [if_pos (passedOn_of_masks hmasks), baselineAfter_of_masks hmasks]
        have hsome := context_newestReference_isSome ext older
        rw [← hsome]
        simp [hsilent, hmasks]
      · obtain ⟨hpassed, hcontext⟩ :=
          passedOn_of_not (newestBaseline ext older) hsilent hmasks
        rw [if_neg (by simp [hpassed]), hcontext]
        simp [hsilent, hmasks]

/-! ### The resume metadata -/

variable (ext) (policy : TruncationPolicy) (blocks : List Block)

/-- The replay meets no compaction that lacks its replacement history. -/
def NoLegacyCompaction : Prop :=
  (reverseScan ext (rollout blocks)).rolloutSuffix.any isLegacyCompaction = false

/-- The metadata is that of the forward pass over the surviving turns. -/
def FollowsStack : Prop :=
  let reconstruction := reconstructHistoryFromRollout ext policy (rollout blocks)
  reconstruction.previousTurnSettings = newestSettings ext (surviving ext blocks) ∧
    (NoLegacyCompaction ext blocks →
      reconstruction.referenceContextItem = newestBaseline ext (surviving ext blocks))

/-- The metadata of the reverse scan, in terms of the surviving turns. -/
theorem reverseScan_metadata (hlen : (rollout blocks).length ≤ usizeMax) :
    (reverseScan ext (rollout blocks)).previousTurnSettings =
        newestSettings ext (surviving ext blocks) ∧
      (reverseScan ext (rollout blocks)).referenceContextItem.context =
        (newestReference ext (surviving ext blocks)).context := by
  have hloop := scanLoop_metadata ext (rollout blocks).reverse []
    (ScanState.init (rollout blocks))
  obtain ⟨hnone, hscan⟩ := scanAll_rollout ext blocks [] (ScanState.init (rollout blocks))
    (Nat.le_trans (length_le_rollout blocks) hlen) rfl
  have hfinal : finalizeIfActive (scanAll ext (rollout blocks).reverse []
      (ScanState.init (rollout blocks))) =
      scanAll ext (rollout blocks).reverse [] (ScanState.init (rollout blocks)) := by
    unfold finalizeIfActive
    rw [hnone]
  rw [hfinal] at hloop
  obtain ⟨hsettings, hreference⟩ := Prod.mk.inj hloop
  obtain ⟨hscanned, hcontext⟩ := Prod.mk.inj hscan
  refine ⟨?_, ?_⟩
  · refine hsettings.trans (hscanned.trans ?_)
    show none.or (newestSettings ext (dropNewest ext 0 (surviving ext blocks))) = _
    rw [dropNewest_zero, Option.none_or]
  · refine (congrArg TurnReferenceContextItem.context hreference).trans (hcontext.trans ?_)
    show (newestReference ext (dropNewest ext 0 (surviving ext blocks))).context = _
    rw [dropNewest_zero]

/-- **The resume metadata follows the stack of turns** exactly if no clearing is masked. -/
theorem followsStack_iff (hlen : (rollout blocks).length ≤ usizeMax) :
    FollowsStack ext policy blocks ↔
      (NoLegacyCompaction ext blocks → ¬ ClearingMasked ext (surviving ext blocks)) := by
  obtain ⟨hsettings, hreference⟩ := reverseScan_metadata ext blocks hlen
  have hcontext : NoLegacyCompaction ext blocks →
      (reconstructHistoryFromRollout ext policy (rollout blocks)).referenceContextItem =
        (newestReference ext (surviving ext blocks)).context := by
    intro hlegacy
    unfold NoLegacyCompaction at hlegacy
    rw [← hreference]
    unfold reconstructHistoryFromRollout
    simp only [hlegacy]
    cases (reverseScan ext (rollout blocks)).referenceContextItem <;> rfl
  unfold FollowsStack
  constructor
  · rintro ⟨-, hbaseline⟩ hlegacy
    rw [← context_newestReference_iff, ← hcontext hlegacy]
    exact hbaseline hlegacy
  · intro hmasked
    refine ⟨hsettings, ?_⟩
    intro hlegacy
    rw [hcontext hlegacy, context_newestReference_iff]
    exact hmasked hlegacy

/-! ### A masked clearing

A user turn records a context.  A second turn compacts the history before its prompt is refused,
so it holds no user message, and records its own context after the compaction.  The clearing
survives, but the scan returns the context from before it.
-/

/-- A turn that compacts, without a user message. -/
def compactingTurn : Turn :=
  { turnId := "t2".toList
    lines :=
      [ .compacted { message := "s".toList, replacementHistory := some [] },
        .turnContext ⟨some "t2".toList, "new".toList, none⟩ ]
    ending := .complete
    bracketed := by decide }

def maskedClearing : List Block :=
  [ .turn
      { turnId := "t1".toList
        lines := [.turnContext ⟨some "t1".toList, "old".toList, none⟩,
          .eventMsg (.userMessage "a".toList)]
        ending := .complete
        bracketed := by decide },
    .turn compactingTurn ]

theorem maskedClearing_not_followsStack : ¬ ∀ (ext : Externals) (policy : TruncationPolicy)
    (blocks : List Block), (rollout blocks).length ≤ usizeMax → FollowsStack ext policy blocks := by
  intro h
  have hfollows := (h ⟨fun _ => false, fun _ => none, id⟩ (.bytes 10000) maskedClearing
    (by decide)).2
  revert hfollows
  unfold NoLegacyCompaction
  decide +kernel

/-- A single turn whose context is returned. -/
theorem followsStack_compactingTurn :
    FollowsStack ⟨fun _ => false, fun _ => none, id⟩ (.bytes 10000) [.turn compactingTurn] := by
  refine (followsStack_iff _ _ _ (by decide)).mpr ?_
  rintro - ⟨newer, t, older, heq, -, -, skipped, u, rest, rfl, -⟩
  have hlength := congrArg List.length heq
  simp [surviving, survivingStep] at hlength
  omega

end CodexMonitor.Rollout
