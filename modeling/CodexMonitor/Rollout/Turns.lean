import CodexMonitor.Rollout.Spans

namespace CodexMonitor.Rollout

open CodexMonitor.History

/-!
# Rollout — bracketed turns and the forward pass over them

A rollout whose turns are all opened and closed explicitly, with rollback markers between them,
and what its rollbacks leave when it is read from the oldest line to the newest.

* `Turn`, `Block`, `rollout` — the bracketed rollouts; a turn's lines carry its id.
* `surviving` — the turns left, newest first: a rollback removes the newest user turns and all
  that is newer than the oldest of them.
* `newestSettings` — the settings of the newest user turn that has recorded any.
* `newestBaseline` — the context that the newest user turn has recorded, unless a later
  compaction has cleared it.
-/

variable (ext : Externals)

/-! ### Bracketed rollouts -/

/-- The lines between the start and the end of a turn. -/
def isTurnLine (turnId : Text) : RolloutItem → Bool
  | .turnContext ctx => ctx.turnId == some turnId
  | .responseItem _ => true
  | .compacted _ => true
  | .eventMsg (.userMessage _) => true
  | .eventMsg .other => true
  | _ => false

inductive TurnEnd where
  | complete
  | aborted
  deriving DecidableEq, Repr

/-- A turn from its start to its end. -/
structure Turn where
  turnId : Text
  lines : List RolloutItem
  ending : TurnEnd
  bracketed : ∀ line ∈ lines, isTurnLine turnId line = true

def Turn.endItem (t : Turn) : RolloutItem :=
  match t.ending with
  | .complete => .eventMsg (.turnComplete t.turnId)
  | .aborted => .eventMsg (.turnAborted (some t.turnId))

def Turn.items (t : Turn) : List RolloutItem :=
  .eventMsg (.turnStarted t.turnId) :: (t.lines ++ [t.endItem])

/-- A turn, or a rollback marker between two turns. -/
inductive Block where
  | turn (t : Turn)
  | rollback (numTurns : UInt32)

def Block.items : Block → List RolloutItem
  | .turn t => t.items
  | .rollback numTurns => [.eventMsg (.threadRolledBack numTurns)]

def rollout (blocks : List Block) : List RolloutItem := blocks.flatMap Block.items

/-! ### The forward pass -/

/-- A turn with a user message. -/
def Turn.isUserTurn (t : Turn) : Bool := t.lines.any (marksUserTurn ext)

/-- Without the newest `n` user turns and all that is newer than the oldest of them; the turns
    are given newest first. -/
def dropNewest : Nat → List Turn → List Turn
  | 0, turns => turns
  | _ + 1, [] => []
  | n + 1, t :: older => if t.isUserTurn ext then dropNewest n older else dropNewest (n + 1) older

/-- A rollback of more turns than there are removes all user turns. -/
def rollBack (numTurns : Nat) (turns : List Turn) : List Turn :=
  dropNewest ext (min numTurns (turns.countP (·.isUserTurn ext))) turns

def survivingStep (turns : List Turn) : Block → List Turn
  | .turn t => t :: turns
  | .rollback numTurns => rollBack ext numTurns.toNat turns

/-- The turns that the rollbacks leave, newest first. -/
def surviving (blocks : List Block) : List Turn := blocks.foldl (survivingStep ext) []

/-! ### The metadata of the surviving turns -/

def recordedSettings : RolloutItem → Option PreviousTurnSettings
  | .turnContext ctx => some { model := ctx.model, realtimeActive := ctx.realtimeActive }
  | _ => none

/-- The settings that a turn was started with. -/
def Turn.settings (t : Turn) : Option PreviousTurnSettings := t.lines.findSome? recordedSettings

/-- The settings of the newest user turn that recorded any. -/
def newestSettings (turns : List Turn) : Option PreviousTurnSettings :=
  turns.findSome? fun t => if t.isUserTurn ext then t.settings else none

/-- A user turn records a baseline, and a compaction clears the one there is. -/
def baselineStep (isUserTurn : Bool) (baseline : Option TurnContextItem) :
    RolloutItem → Option TurnContextItem
  | .turnContext ctx => if isUserTurn then some ctx else baseline
  | .compacted _ => none
  | _ => baseline

def Turn.baselineAfter (t : Turn) (baseline : Option TurnContextItem) : Option TurnContextItem :=
  t.lines.foldl (baselineStep (t.isUserTurn ext)) baseline

/-- The baseline after the turns, which are given newest first. -/
def newestBaseline (turns : List Turn) : Option TurnContextItem :=
  turns.foldr (fun t baseline => t.baselineAfter ext baseline) none

/-! ### Dropping turns -/

variable {ext} {turns older : List Turn} {t : Turn} {n m : Nat}

@[simp] theorem dropNewest_zero (turns : List Turn) : dropNewest ext 0 turns = turns := by
  unfold dropNewest
  rfl

@[simp] theorem dropNewest_nil (n : Nat) : dropNewest ext n [] = [] := by
  cases n <;> rfl

theorem dropNewest_cons_of_pos (hn : 0 < n) : dropNewest ext n (t :: older) =
    dropNewest ext (if t.isUserTurn ext then n - 1 else n) older := by
  obtain ⟨n, rfl⟩ := Nat.exists_eq_succ_of_ne_zero (Nat.ne_of_gt hn)
  rw [dropNewest]
  cases t.isUserTurn ext <;> rfl

/-- Dropping twice drops as many turns at once. -/
theorem dropNewest_dropNewest (n m : Nat) (turns : List Turn) :
    dropNewest ext m (dropNewest ext n turns) = dropNewest ext (n + m) turns := by
  induction turns generalizing n with
  | nil => simp
  | cons t older ih =>
    rcases Nat.eq_zero_or_pos n with rfl | hn
    · rw [dropNewest_zero, Nat.zero_add]
    · rw [dropNewest_cons_of_pos hn, dropNewest_cons_of_pos (Nat.add_pos_left hn m), ih]
      congr 1
      cases t.isUserTurn ext
      · rfl
      · simp only [if_true]
        omega

theorem countP_dropNewest (n : Nat) (turns : List Turn) :
    (dropNewest ext n turns).countP (·.isUserTurn ext) =
      turns.countP (·.isUserTurn ext) - n := by
  induction turns generalizing n with
  | nil => simp
  | cons t older ih =>
    rcases Nat.eq_zero_or_pos n with rfl | hn
    · rw [dropNewest_zero, Nat.sub_zero]
    · rw [dropNewest_cons_of_pos hn, ih, List.countP_cons]
      cases t.isUserTurn ext
      · simp
      · simp only [if_true]
        omega

theorem length_dropNewest_le (ext : Externals) (n : Nat) (turns : List Turn) :
    (dropNewest ext n turns).length ≤ turns.length := by
  induction turns generalizing n with
  | nil => simp
  | cons t older ih =>
    rcases Nat.eq_zero_or_pos n with rfl | hn
    · rw [dropNewest_zero]
    · rw [dropNewest_cons_of_pos hn]
      exact Nat.le_trans (ih _) (Nat.le_succ _)

/-- Rolling back and then dropping: the same turns as dropping at once, or no user turn is left
    in either. -/
theorem dropNewest_rollBack (n m : Nat) (turns : List Turn) :
    dropNewest ext m (rollBack ext n turns) = dropNewest ext (n + m) turns ∨
      (dropNewest ext m (rollBack ext n turns)).countP (·.isUserTurn ext) = 0 ∧
        turns.countP (·.isUserTurn ext) ≤ n + m := by
  unfold rollBack
  by_cases hle : n ≤ turns.countP (·.isUserTurn ext)
  · rw [Nat.min_eq_left hle]
    exact .inl (dropNewest_dropNewest n m turns)
  · refine .inr ⟨?_, by omega⟩
    rw [countP_dropNewest, countP_dropNewest]
    omega

@[simp] theorem surviving_concat (blocks : List Block) (block : Block) :
    surviving ext (blocks ++ [block]) = survivingStep ext (surviving ext blocks) block :=
  List.foldl_concat ..

theorem length_surviving_le (blocks : List Block) :
    (surviving ext blocks).length ≤ blocks.length := by
  induction blocks using List.reverseRecOn with
  | nil => exact Nat.le_refl _
  | append_singleton blocks block ih =>
    rw [surviving_concat, List.length_append, List.length_singleton]
    cases block with
    | turn t => exact Nat.succ_le_succ ih
    | rollback numTurns =>
      have hle := length_dropNewest_le ext
        (min numTurns.toNat ((surviving ext blocks).countP (·.isUserTurn ext)))
        (surviving ext blocks)
      exact Nat.le_trans hle (Nat.le_succ_of_le ih)

theorem length_le_rollout (blocks : List Block) : blocks.length ≤ (rollout blocks).length := by
  unfold rollout
  induction blocks with
  | nil => exact Nat.le_refl _
  | cons block blocks ih =>
    have hpos : 0 < block.items.length := by
      cases block with
      | turn t => exact Nat.succ_pos _
      | rollback numTurns => exact Nat.succ_pos _
    rw [List.flatMap_cons, List.length_append, List.length_cons]
    omega

/-! ### What a list of turns without a user turn contributes -/

theorem newestSettings_of_countP (h : turns.countP (·.isUserTurn ext) = 0) :
    newestSettings ext turns = none := by
  unfold newestSettings
  rw [List.findSome?_eq_none_iff]
  intro t ht
  have hnot : ¬ t.isUserTurn ext = true := List.countP_eq_zero.mp h t ht
  rw [if_neg hnot]

end CodexMonitor.Rollout
