import CodexMonitor.Lib.Machine
import CodexMonitor.History.Normalize

namespace CodexMonitor.History

/-!
# History — the version counter and the rewrites

`history_version` of the context manager is bumped when the history is rewritten; a reader that
finds it unchanged takes the items it has seen for a prefix of those there now.

* `Mutator`, `ContextManager.mutate` — the public mutators, as the actions of a machine.
* `Detects` — what the counter promises between an earlier and a later state.
* `detects_iff` — the promise holds between any two states of a run exactly if the oldest item
  is never removed in it: `remove_first_item` is the one mutator that rewrites without a bump.

The token counts are not part of the model, so the three mutators that set them change nothing.
-/

variable (ext : Externals)

/-! ### The remaining mutators -/

/-- `saturating_add(1)` on the counter. -/
def bumped (version : Nat) : Nat := min (version + 1) u64Max

/-- `remove_first_item`. -/
def ContextManager.removeFirstItem (cm : ContextManager) : ContextManager :=
  match cm.items with
  | [] => cm
  | removed :: items => { cm with items := removeCorrespondingFor items removed }

/-- `remove_last_item`, and whether there was one. -/
def ContextManager.removeLastItem (cm : ContextManager) : ContextManager × Bool :=
  match cm.items.getLast? with
  | some removed =>
      ({ cm with
          items := removeCorrespondingFor cm.items.dropLast removed
          historyVersion := bumped cm.historyVersion }, true)
  | none => (cm, false)

/-- `Iterator::rposition`. -/
def rposition {α : Type} (p : α → Bool) (items : List α) : Option Nat :=
  (items.reverse.findIdx? p).map fun i => items.length - 1 - i

def isLastTurnAnchor : ResponseItem → Bool
  | .functionCallOutput _ _ => true
  | item => isUserTurnBoundary ext item

def FunctionCallOutputContentItem.isInputImage : FunctionCallOutputContentItem → Bool
  | .inputImage _ _ => true
  | .inputText _ => false

def FunctionCallOutputContentItem.replaceImage (placeholder : Text) :
    FunctionCallOutputContentItem → FunctionCallOutputContentItem
  | .inputImage _ _ => .inputText placeholder
  | .inputText text => .inputText text

/-- `replace_last_turn_images`, and whether a tool image was replaced. -/
def ContextManager.replaceLastTurnImages (cm : ContextManager) (placeholder : Text) :
    ContextManager × Bool :=
  match rposition (isLastTurnAnchor ext) cm.items with
  | none => (cm, false)
  | some index =>
      match cm.items[index]? with
      | some (.functionCallOutput callId output) =>
          match output.body with
          | .text _ => (cm, false)
          | .contentItems contentItems =>
              let replaced := contentItems.any (·.isInputImage)
              let body := .contentItems (contentItems.map (·.replaceImage placeholder))
              let items := cm.items.set index (.functionCallOutput callId { output with body })
              if replaced then
                ({ cm with items, historyVersion := bumped cm.historyVersion }, true)
              else ({ cm with items }, false)
      | _ => (cm, false)

/-- `set_reference_context_item`. -/
def ContextManager.setReferenceContextItem (cm : ContextManager)
    (item : Option TurnContextItem) : ContextManager :=
  { cm with referenceContextItem := item }

/-! ### Runs of mutators -/

/-- The public mutators of the context manager. -/
inductive Mutator where
  | recordItems (items : List ResponseItem) (policy : TruncationPolicy)
  | removeFirstItem
  | removeLastItem
  | replace (items : List ResponseItem)
  | replaceLastTurnImages (placeholder : Text)
  | dropLastNUserTurns (numTurns : UInt32)
  | setReferenceContextItem (item : Option TurnContextItem)
  /-- `set_token_info`, `set_token_usage_full` and `update_token_info`. -/
  | setTokenInfo
  deriving DecidableEq

def ContextManager.mutate (cm : ContextManager) : Mutator → ContextManager
  | .recordItems items policy => cm.recordItems ext policy items
  | .removeFirstItem => cm.removeFirstItem
  | .removeLastItem => cm.removeLastItem.1
  | .replace items => cm.replace items
  | .replaceLastTurnImages placeholder => (cm.replaceLastTurnImages ext placeholder).1
  | .dropLastNUserTurns numTurns => cm.dropLastNUserTurns ext numTurns.toNat
  | .setReferenceContextItem item => cm.setReferenceContextItem item
  | .setTokenInfo => cm

/-- Every mutator is possible in every state. -/
def mutation : Machine ContextManager Mutator where
  init := .new
  step cm m := some (cm.mutate ext m)

/-- An unchanged counter that has not saturated means that the history has only grown. -/
def Detects (before after : ContextManager) : Prop :=
  after.historyVersion = before.historyVersion → after.historyVersion ≠ u64Max →
    before.items <+: after.items

/-- The oldest item is not removed, unless the counter has saturated. -/
def KeepsOldest (cm : ContextManager) (m : Mutator) : Prop :=
  m = .removeFirstItem → cm.items = [] ∨ cm.historyVersion = u64Max

/-! ### What a mutator does to counter and items -/

/-- The history has grown and the counter is as it was, or the counter tells of a rewrite. -/
def Grows (before after : ContextManager) : Prop :=
  after.historyVersion = u64Max ∨
  before.historyVersion < after.historyVersion ∧ after.historyVersion ≤ u64Max ∨
  after.historyVersion = before.historyVersion ∧ before.items <+: after.items

variable {ext} {cm before mid after : ContextManager} {m : Mutator} {ms : List Mutator}

theorem Grows.refl (cm : ContextManager) : Grows cm cm :=
  .inr (.inr ⟨rfl, List.prefix_refl _⟩)

theorem Grows.trans (h : Grows before mid) (h' : Grows mid after) : Grows before after := by
  rcases h' with hmax | ⟨hlt, hle⟩ | ⟨heq, hpre⟩
  · exact .inl hmax
  · rcases h with hmax | ⟨hlt', _⟩ | ⟨heq', _⟩
    · omega
    · exact .inr (.inl ⟨by omega, hle⟩)
    · exact .inr (.inl ⟨by omega, hle⟩)
  · rcases h with hmax | ⟨hlt', hle'⟩ | ⟨heq', hpre'⟩
    · exact .inl (heq.trans hmax)
    · exact .inr (.inl ⟨by omega, by omega⟩)
    · exact .inr (.inr ⟨heq.trans heq', hpre'.trans hpre⟩)

theorem Grows.detects (h : Grows before after) : Detects before after := by
  intro heq hmax
  rcases h with hmax' | ⟨hlt, _⟩ | ⟨_, hpre⟩
  · exact absurd hmax' hmax
  · omega
  · exact hpre

/-- A bump is told, whatever becomes of the items. -/
theorem Grows.of_bumped (h : after.historyVersion = bumped before.historyVersion) :
    Grows before after := by
  unfold bumped at h
  by_cases hlt : before.historyVersion < u64Max
  · exact .inr (.inl ⟨by omega, by omega⟩)
  · exact .inl (by omega)

theorem recordItems_grows (policy : TruncationPolicy) (items : List ResponseItem)
    (cm : ContextManager) :
    (cm.recordItems ext policy items).historyVersion = cm.historyVersion ∧
      cm.items <+: (cm.recordItems ext policy items).items := by
  unfold ContextManager.recordItems
  induction items generalizing cm with
  | nil => exact ⟨rfl, List.prefix_refl _⟩
  | cons item items ih =>
    obtain ⟨hversion, hpre⟩ := ih (cm.recordItem ext policy item)
    exact ⟨hversion, (List.prefix_append _ _).trans hpre⟩

theorem removeLastItem_grows (cm : ContextManager) : Grows cm cm.removeLastItem.1 := by
  unfold ContextManager.removeLastItem
  cases cm.items.getLast? with
  | none => exact .refl cm
  | some removed => exact .of_bumped rfl

theorem replaceLastTurnImages_grows (placeholder : Text) (cm : ContextManager) :
    Grows cm (cm.replaceLastTurnImages ext placeholder).1 := by
  unfold ContextManager.replaceLastTurnImages
  split
  · exact .refl cm
  · next index hindex =>
    split
    · next callId output hitem =>
      split
      · exact .refl cm
      · next contentItems hbody =>
        simp only
        split
        · exact .of_bumped rfl
        · next hreplaced =>
          refine .inr (.inr ⟨rfl, ?_⟩)
          -- without an image the content is written back as it was
          have hcontent : contentItems.map (·.replaceImage placeholder) = contentItems := by
            calc contentItems.map (·.replaceImage placeholder)
                = contentItems.map id := List.map_congr_left fun c hc => by
                  cases c with
                  | inputText text => rfl
                  | inputImage imageUrl detail =>
                    exact absurd (List.any_eq_true.mpr ⟨_, hc, rfl⟩) hreplaced
              _ = contentItems := List.map_id contentItems
          have houtput : { output with body := .contentItems contentItems } = output := by
            rw [← hbody]
          obtain ⟨hlt, hget⟩ := List.getElem?_eq_some_iff.mp hitem
          have hsame : cm.items.set index (.functionCallOutput callId { output with
              body := .contentItems (contentItems.map (·.replaceImage placeholder)) }) =
                cm.items := by
            rw [hcontent, houtput, ← hget, List.set_getElem_self]
          exact ⟨[], (List.append_nil _).trans hsame.symm⟩
    · exact .refl cm

theorem dropLastNUserTurns_grows (numTurns : Nat) (cm : ContextManager) :
    Grows cm (cm.dropLastNUserTurns ext numTurns) := by
  unfold ContextManager.dropLastNUserTurns
  by_cases hn : numTurns = 0
  · rw [if_pos hn]
    exact .refl cm
  · rw [if_neg hn]
    split
    · exact .of_bumped rfl
    · exact .of_bumped rfl

/-- **One step.** Only `remove_first_item` rewrites without a bump. -/
theorem mutate_grows (hkeeps : KeepsOldest cm m) : Grows cm (cm.mutate ext m) := by
  cases m with
  | recordItems items policy => exact .inr (.inr (recordItems_grows policy items cm))
  | removeFirstItem =>
    show Grows cm cm.removeFirstItem
    unfold ContextManager.removeFirstItem
    rcases hkeeps rfl with hnil | hmax
    · rw [hnil]
      exact .refl cm
    · split
      · exact .refl cm
      · exact .inl hmax
  | removeLastItem => exact removeLastItem_grows cm
  | replace items => exact .of_bumped rfl
  | replaceLastTurnImages placeholder => exact replaceLastTurnImages_grows placeholder cm
  | dropLastNUserTurns numTurns => exact dropLastNUserTurns_grows numTurns.toNat cm
  | setReferenceContextItem item => exact .inr (.inr ⟨rfl, List.prefix_refl _⟩)
  | setTokenInfo => exact .refl cm

theorem removeCorrespondingFor_length_le (items : List ResponseItem) (item : ResponseItem) :
    (removeCorrespondingFor items item).length ≤ items.length := by
  unfold removeCorrespondingFor removeFirstMatching
  split <;> first | exact List.length_eraseP_le | exact Nat.le_refl _ | skip
  split <;> exact List.length_eraseP_le

/-- The removal of the oldest item goes unnoticed. -/
theorem keepsOldest_of_detects (h : Detects cm (cm.mutate ext m)) : KeepsOldest cm m := by
  rintro rfl
  by_contra hnot
  obtain ⟨hitems, hmax⟩ := not_or.mp hnot
  have hversion : cm.removeFirstItem.historyVersion = cm.historyVersion := by
    unfold ContextManager.removeFirstItem
    split <;> rfl
  have hlen : cm.removeFirstItem.items.length < cm.items.length := by
    unfold ContextManager.removeFirstItem
    cases hcm : cm.items with
    | nil => exact absurd hcm hitems
    | cons removed items =>
      have hle := removeCorrespondingFor_length_le items removed
      exact Nat.lt_succ_of_le hle
  have hpre : cm.items <+: cm.removeFirstItem.items := h hversion (hversion ▸ hmax)
  have hle := hpre.length_le
  omega

/-! ### Whole runs -/

theorem run_grows (hguard : (mutation ext).Guarded KeepsOldest before ms)
    (hrun : (mutation ext).run before ms = some after) : Grows before after := by
  refine Machine.run_invariant (I := Grows before) ?_ (Grows.refl before) hguard hrun
  intro cm m cm' hgrows hkeeps hstep
  obtain rfl := Option.some.inj hstep
  exact hgrows.trans (mutate_grows hkeeps)

/-- What holds between any two states of a run holds of each of its steps. -/
theorem guarded_of_detects
    (h : ∀ front middle back, ms = front ++ middle ++ back → ∀ before after,
      (mutation ext).run cm front = some before → (mutation ext).run before middle = some after →
        Detects before after) :
    (mutation ext).Guarded KeepsOldest cm ms := by
  induction ms generalizing cm with
  | nil => trivial
  | cons m ms ih =>
    refine ⟨keepsOldest_of_detects (h [] [m] ms rfl cm _ rfl rfl), ?_⟩
    intro next hnext
    apply ih
    rintro front middle back rfl before after hfront hmiddle
    refine h (m :: front) middle back rfl before after ?_ hmiddle
    rw [Machine.run, hnext]
    exact hfront

/-- **The counter detects the rewrites of exactly the runs that keep the oldest item.** Between
    any two states of a run an unchanged counter that has not saturated means growth, if and only
    if no step of the run is a removal of the first item of a history. -/
theorem detects_iff (cm : ContextManager) (ms : List Mutator) :
    (∀ front middle back, ms = front ++ middle ++ back → ∀ before after,
      (mutation ext).run cm front = some before → (mutation ext).run before middle = some after →
        Detects before after) ↔
      (mutation ext).Guarded KeepsOldest cm ms := by
  constructor
  · exact guarded_of_detects
  · rintro hguard front middle back rfl before after hfront hmiddle
    rw [List.append_assoc, Machine.guarded_append] at hguard
    have hmid := (Machine.guarded_append.mp (hguard.2 before hfront)).1
    exact (run_grows hmid hmiddle).detects

/-- The removal of the only item: the counter stays at zero and the item is gone. -/
theorem removed_item_undetected : ¬ ∀ (ext : Externals) (before after : ContextManager)
    (ms : List Mutator), (mutation ext).run before ms = some after → Detects before after := by
  intro h
  have hdetects := h ⟨fun _ => false, fun _ => none, id⟩ ⟨[.compaction []], 0, none⟩ ⟨[], 0, none⟩
    [.removeFirstItem] rfl
  have hpre : [ResponseItem.compaction []] <+: [] := hdetects rfl (by decide)
  have hle := hpre.length_le
  simp at hle

end CodexMonitor.History
