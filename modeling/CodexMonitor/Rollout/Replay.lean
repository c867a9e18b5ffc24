import CodexMonitor.History.Manager

namespace CodexMonitor.Rollout

open CodexMonitor.History

/-!
# Rollout — forward replay

Replaying a rollout from its first line to its last: the per-item step of the second loop
of `reconstruct_history_from_rollout`, folded over a list of rollout items.

* `replayStep` / `replay` — on the context manager.
* `itemsStep` / `itemsAfter` — the same on the items alone (`replay_items`).
* `isCheckpoint` — a compaction that carries its replacement history.  It forgets the
  history before it (`itemsAfter_append_checkpoint`), so a replay that meets one ends in
  the same items whatever it starts from (`itemsAfter_eq_of_checkpoint`).
-/

variable (ext : Externals) (policy : TruncationPolicy)

/-! ### The step of a replay -/

/-- One rollout item applied to the history. -/
def replayStep (cm : ContextManager) : RolloutItem → ContextManager
  | .responseItem item => cm.recordItem ext policy item
  | .compacted item =>
      match item.replacementHistory with
      | some replacement => cm.replace replacement
      | none =>
          cm.replace (buildCompactedHistory [] (collectUserMessages ext cm.items) item.message)
  | .eventMsg (.threadRolledBack numTurns) => cm.dropLastNUserTurns ext numTurns.toNat
  | _ => cm

/-- Plain forward replay of a list of rollout items. -/
def replay (cm : ContextManager) (items : List RolloutItem) : ContextManager :=
  items.foldl (replayStep ext policy) cm

/-! ### Replay on the items -/

/-- What one rollout item does to the items of the history. -/
def itemsStep (history : List ResponseItem) : RolloutItem → List ResponseItem
  | .responseItem item => history ++ recordedItem ext policy item
  | .compacted item =>
      match item.replacementHistory with
      | some replacement => replacement
      | none => buildCompactedHistory [] (collectUserMessages ext history) item.message
  | .eventMsg (.threadRolledBack numTurns) => survivingItems ext history numTurns.toNat
  | _ => history

/-- The items after replaying `items` on top of `history`. -/
def itemsAfter (history : List ResponseItem) (items : List RolloutItem) : List ResponseItem :=
  items.foldl (itemsStep ext policy) history

variable {ext policy}

theorem replayStep_items (cm : ContextManager) (item : RolloutItem) :
    (replayStep ext policy cm item).items = itemsStep ext policy cm.items item := by
  cases item with
  | sessionMeta => rfl
  | responseItem item => rfl
  | turnContext item => rfl
  | compacted item =>
    simp only [replayStep, itemsStep]
    cases item.replacementHistory <;> rfl
  | eventMsg msg =>
    cases msg with
    | threadRolledBack numTurns => exact dropLastNUserTurns_items cm numTurns.toNat
    | _ => rfl

/-- The items of a replay are the replay of the items. -/
theorem replay_items (cm : ContextManager) (items : List RolloutItem) :
    (replay ext policy cm items).items = itemsAfter ext policy cm.items items := by
  induction items generalizing cm with
  | nil => rfl
  | cons item rest ih =>
    simp only [replay, itemsAfter, List.foldl_cons]
    rw [← replayStep_items]
    exact ih (replayStep ext policy cm item)

theorem itemsAfter_append (history : List ResponseItem) (older newer : List RolloutItem) :
    itemsAfter ext policy history (older ++ newer)
      = itemsAfter ext policy (itemsAfter ext policy history older) newer :=
  List.foldl_append

/-! ### Checkpoints forget the past -/

/-- The replacement history of a rollout item, if it is a compaction that carries one. -/
def checkpoint? : RolloutItem → Option (List ResponseItem)
  | .compacted item => item.replacementHistory
  | _ => none

/-- A compaction that carries its replacement history. -/
def isCheckpoint (item : RolloutItem) : Bool := (checkpoint? item).isSome

theorem itemsStep_checkpoint {item : RolloutItem} {replacement : List ResponseItem}
    (h : checkpoint? item = some replacement) (history : List ResponseItem) :
    itemsStep ext policy history item = replacement := by
  cases item with
  | compacted c =>
    have hc : c.replacementHistory = some replacement := h
    simp only [itemsStep, hc]
  | _ => simp [checkpoint?] at h

/-- **A checkpoint is a complete base.** What precedes it does not matter. -/
theorem itemsAfter_append_checkpoint {item : RolloutItem} {replacement : List ResponseItem}
    (h : checkpoint? item = some replacement) (history : List ResponseItem)
    (older newer : List RolloutItem) :
    itemsAfter ext policy history (older ++ item :: newer)
      = itemsAfter ext policy replacement newer := by
  rw [itemsAfter_append]
  show itemsAfter ext policy (itemsStep ext policy _ item) newer = _
  rw [itemsStep_checkpoint h]

/-- A replay that meets a checkpoint does not depend on the history it starts from. -/
theorem itemsAfter_eq_of_checkpoint {items : List RolloutItem}
    (h : items.any isCheckpoint = true) (history history' : List ResponseItem) :
    itemsAfter ext policy history items = itemsAfter ext policy history' items := by
  obtain ⟨item, hmem, hcp⟩ := List.any_eq_true.mp h
  obtain ⟨replacement, hrep⟩ := Option.isSome_iff_exists.mp hcp
  obtain ⟨older, newer, rfl⟩ := List.append_of_mem hmem
  rw [itemsAfter_append_checkpoint hrep, itemsAfter_append_checkpoint hrep]

end CodexMonitor.Rollout
