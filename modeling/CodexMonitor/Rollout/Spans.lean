import CodexMonitor.Rollout.Reconstruct

namespace CodexMonitor.Rollout

open CodexMonitor.History

/-!
# Rollout — which turns of a rollout survive its rollbacks

A specification of the reverse scan, without its buffers and its early exit.  A rollout,
read newest line first, splits into **spans**: a span runs down to the `TurnStarted` that
its turn id accepts.  Of a span only four things matter to the history: its turn id,
whether it is a user turn, whether it holds a checkpoint, and how many turns the rollback
markers inside it remove.

* `spans` — the spans of a rollout, newest first.
* `survivors` — the spans left when the rollbacks are honoured: a rollback removes the
  next older spans, and is used up by the user turns among them.
* `CheckpointLost` — the rollout's checkpoints all lie in one span, and a rollback
  removes that span.
-/

variable (ext : Externals)

/-- A maximal run of rollout items between two turn starts. -/
structure Span where
  hasItems : Bool := false
  turnId : Option Text := none
  isUserTurn : Bool := false
  hasCheckpoint : Bool := false
  rolledBackTurns : Nat := 0
  deriving DecidableEq, Repr

/-- The turn id an item gives to a span that has none yet. -/
@[simp] def itemTurnId : RolloutItem → Option Text
  | .turnContext ctx => ctx.turnId
  | .eventMsg (.turnComplete turnId) => some turnId
  | .eventMsg (.turnAborted turnId) => turnId
  | _ => none

/-- Whether an item belongs to a turn, and so opens a span. -/
@[simp] def opensSpan : RolloutItem → Bool
  | .compacted _ => true
  | .turnContext _ => true
  | .responseItem _ => true
  | .eventMsg (.turnComplete _) => true
  | .eventMsg (.turnAborted turnId) => turnId.isSome
  | .eventMsg (.userMessage _) => true
  | _ => false

/-- Whether an item makes its span a user turn. -/
@[simp] def marksUserTurn : RolloutItem → Bool
  | .eventMsg (.userMessage _) => true
  | .responseItem item => isUserTurnBoundary ext item
  | _ => false

/-- The turns a rollback marker removes. -/
@[simp] def turnsRolledBackBy : RolloutItem → Nat
  | .eventMsg (.threadRolledBack numTurns) => numTurns.toNat
  | _ => 0

/-- A span grown by the next older item. -/
def Span.grow (span : Span) (item : RolloutItem) : Span :=
  { hasItems := span.hasItems || opensSpan item
    turnId := span.turnId.or (itemTurnId item)
    isUserTurn := span.isUserTurn || marksUserTurn ext item
    hasCheckpoint := span.hasCheckpoint || isCheckpoint item
    rolledBackTurns := span.rolledBackTurns + turnsRolledBackBy item }

/-- Whether the item is the turn start that ends the span. -/
def Span.endsAt (span : Span) : RolloutItem → Bool
  | .eventMsg (.turnStarted turnId) =>
      span.hasItems && turnIdsAreCompatible span.turnId (some turnId)
  | _ => false

/-- The spans of the older items, the first one continuing `span`. -/
def spansFrom (span : Span) : List RolloutItem → List Span
  | [] => [span]
  | item :: older =>
      if span.endsAt item then span :: spansFrom {} older
      else spansFrom (span.grow ext item) older

/-- The spans of a rollout, newest first. -/
def spans (rolloutItems : List RolloutItem) : List Span := spansFrom ext {} rolloutItems.reverse

/-- The spans that `pending` rolled-back turns, and the rollbacks among the spans, leave. -/
def survivors (pending : Nat) : List Span → List Span
  | [] => []
  | span :: older =>
      let pending := saturatingAdd pending span.rolledBackTurns
      if 0 < pending then
        survivors (if span.isUserTurn then pending - 1 else pending) older
      else span :: survivors pending older

/-- Every checkpoint of the rollout lies in one span, and that span is rolled back. -/
def CheckpointLost (rolloutItems : List RolloutItem) : Prop :=
  (spans ext rolloutItems).countP Span.hasCheckpoint = 1 ∧
    (survivors 0 (spans ext rolloutItems)).any Span.hasCheckpoint = false

instance (rolloutItems : List RolloutItem) : Decidable (CheckpointLost ext rolloutItems) :=
  inferInstanceAs (Decidable (_ ∧ _))

/-- The newest checkpoint's replacement history and the items after it. -/
def newestCheckpoint? : List RolloutItem → Option (List ResponseItem × List RolloutItem)
  | [] => none
  | item :: newer =>
      match newestCheckpoint? newer with
      | some found => some found
      | none => (checkpoint? item).map fun replacement => (replacement, newer)

theorem newestCheckpoint?_append {item : RolloutItem} {replacement : List ResponseItem}
    {older newer : List RolloutItem} (hcp : checkpoint? item = some replacement)
    (hnewer : newer.any isCheckpoint = false) :
    newestCheckpoint? (older ++ item :: newer) = some (replacement, newer) := by
  have hnone : newestCheckpoint? newer = none := by
    induction newer with
    | nil => rfl
    | cons x xs ih =>
      simp only [List.any_cons, Bool.or_eq_false_iff] at hnewer
      have hx : checkpoint? x = none := by simpa [isCheckpoint] using hnewer.1
      simp [newestCheckpoint?, ih hnewer.2, hx]
  induction older with
  | nil => simp [newestCheckpoint?, hnone, hcp]
  | cons x xs ih => simp only [List.cons_append, newestCheckpoint?, ih]

end CodexMonitor.Rollout
