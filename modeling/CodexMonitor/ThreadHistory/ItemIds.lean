import CodexMonitor.Lib.Numbering
import CodexMonitor.ThreadHistory.Builder

namespace CodexMonitor.ThreadHistory

open CodexMonitor.History

/-!
# Thread history — the ids of generated items

Items without an id of their own are named `item-1`, `item-2`, … A rollback starts the numbers again
behind the number of items that are left, with or without such a name.

* `itemIndex` — the number in a generated id.
* `Unique` — the items of the turns, as groups of numbered elements.
* `Unique.handleRolloutItem` — one line of a rollout.
* `itemIds_unique` — the generated ids among the finished turns.
-/

open ThreadHistoryBuilder

/-! ### Generated ids -/

/-- The number of a generated id. -/
def itemIndex (id : Text) : Option Nat :=
  let index := Nat.ofDigitChars 10 (id.drop "item-".length) 0
  if itemId index = id then some index else none

theorem itemIndex_itemId (index : Nat) : itemIndex (itemId index) = some index := by
  have hdigits : Nat.ofDigitChars 10 (Nat.toDigits 10 index) 0 = index :=
    Nat.ofDigitChars_toDigits (by decide) (by decide)
  show (if itemId (Nat.ofDigitChars 10 (Nat.toDigits 10 index) 0) = itemId index then
    some (Nat.ofDigitChars 10 (Nat.toDigits 10 index) 0) else none) = some index
  rw [hdigits, if_pos rfl]

theorem itemIndex_eq_none {id : Text} (h : ∀ index, id ≠ itemId index) : itemIndex id = none :=
  if_neg fun heq => h _ heq.symm

/-- The items of a turn, as numbered elements. -/
def ThreadItem.index (item : ThreadItem) : Option Nat := item.id.bind itemIndex

def groupOf (items : List ThreadItem) : Group := items.map ThreadItem.index

/-- An item whose id is not a generated one. -/
def ThreadItem.External (item : ThreadItem) : Prop := ∀ index, item.id ≠ some (itemId index)

theorem ThreadItem.External.index_eq_none {item : ThreadItem} (h : item.External) :
    item.index = none := by
  unfold ThreadItem.index
  cases hid : item.id with
  | none => rfl
  | some id => exact itemIndex_eq_none fun index heq => h index (hid.trans (congrArg some heq))

variable {b : ThreadHistoryBuilder} {items items' : List ThreadItem} {item : ThreadItem}
  {total : Nat}

theorem grown_append (hitem : item.index = none) : Grown (groupOf items) (groupOf (items ++ [item])) where
  numbers := by simp [groupOf, numbersIn, hitem]
  length := by simp [groupOf]

/-- An item is put in the place of one with the same number. -/
theorem groupOf_modifyFirst {p : ThreadItem → Bool}
    (hmodify : modifyFirst p (fun _ => item) items = some items')
    (hp : ∀ old, p old = true → old.index = item.index) : groupOf items' = groupOf items := by
  induction items generalizing items' with
  | nil => cases hmodify
  | cons old items ih =>
    rw [modifyFirst] at hmodify
    by_cases hold : p old = true
    · rw [if_pos hold] at hmodify
      obtain rfl := Option.some.inj hmodify
      show item.index :: _ = old.index :: _
      rw [hp old hold]
    · rw [if_neg hold] at hmodify
      obtain ⟨rest, hrest, rfl⟩ := Option.map_eq_some_iff.mp hmodify
      show old.index :: groupOf rest = _
      rw [ih hrest]
      rfl

/-- **An item with an id of its own** takes no number, and no number away. -/
theorem grown_upsert (hitem : item.index = none) :
    Grown (groupOf items) (groupOf (upsertTurnItem items item)) ∧
      (upsertTurnItem items item).length ≤ items.length + 1 := by
  unfold upsertTurnItem
  cases hmodify : modifyFirst (fun existing => existing.id == item.id) (fun _ => item) items with
  | none => exact ⟨grown_append hitem, by simp⟩
  | some items' =>
    have hsame : groupOf items' = groupOf items := by
      refine groupOf_modifyFirst hmodify fun old hold => ?_
      unfold ThreadItem.index
      rw [beq_iff_eq.mp hold]
    have hlength : items'.length = items.length := by
      have heq := congrArg List.length hsame
      simpa [groupOf] using heq
    show Grown _ (groupOf items') ∧ items'.length ≤ _
    rw [hsame, hlength]
    exact ⟨.refl _, Nat.le_succ _⟩

/-! ### The items of the turns -/

def groupsOf (turns : List Turn) : List Group := turns.map fun turn => groupOf turn.items

/-- The finished turns and the current one. -/
def ThreadHistoryBuilder.groups (b : ThreadHistoryBuilder) : List Group :=
  groupsOf b.turns ++ b.currentTurn.toList.map fun turn => groupOf turn.items

/-- **The generated ids are unique**, and there are at most `total` items. -/
structure Unique (b : ThreadHistoryBuilder) (total : Nat) : Prop where
  numbered : Numbered b.groups b.nextItemIndex
  bounded : b.groups.flatten.length ≤ total

theorem unique_new : Unique ThreadHistoryBuilder.new 0 where
  numbered := numbered_nil
  bounded := Nat.le_refl 0

theorem Unique.mono {total' : Nat} (h : Unique b total) (hle : total ≤ total') : Unique b total' :=
  ⟨h.numbered, Nat.le_trans h.bounded hle⟩

/-- Handlers that leave the items alone. -/
theorem Unique.same {b' : ThreadHistoryBuilder} (h : Unique b total) (hgroups : b'.groups = b.groups)
    (hnext : b'.nextItemIndex = b.nextItemIndex) : Unique b' total := by
  constructor
  · rw [hgroups, hnext]
    exact h.numbered
  · rw [hgroups]
    exact h.bounded

/-- The current turn is opened if there is none. -/
theorem Unique.ensureTurn (h : Unique b total) :
    Numbered (groupsOf b.turns ++ [groupOf b.ensureTurn.items]) b.nextItemIndex ∧
      (groupsOf b.turns ++ [groupOf b.ensureTurn.items]).flatten.length ≤ total := by
  obtain ⟨hnumbered, hbounded⟩ := h
  unfold ThreadHistoryBuilder.groups at hnumbered hbounded
  unfold ThreadHistoryBuilder.ensureTurn
  cases hcurrent : b.currentTurn with
  | none =>
    rw [hcurrent] at hnumbered hbounded
    simp only [Option.toList_none, List.map_nil, List.append_nil] at hnumbered hbounded
    exact ⟨hnumbered.open, by simpa [newTurn, groupOf] using hbounded⟩
  | some turn =>
    rw [hcurrent] at hnumbered hbounded
    exact ⟨hnumbered, hbounded⟩

theorem groups_withItems (update : List ThreadItem → List ThreadItem) :
    (b.withItems update).groups = groupsOf b.turns ++ [groupOf (update b.ensureTurn.items)] := rfl

theorem forall₂_last {groups : List Group} {group group' : Group} (h : Grown group group') :
    List.Forall₂ Grown (groups ++ [group]) (groups ++ [group']) :=
  List.rel_append (List.forall₂_same.mpr fun g _ => .refl g) (.cons h .nil)

/-- **The items of the current turn are written.** -/
theorem Unique.withItems (h : Unique b total) {update : List ThreadItem → List ThreadItem}
    (hupdate : Grown (groupOf b.ensureTurn.items) (groupOf (update b.ensureTurn.items)))
    (hlength : (update b.ensureTurn.items).length ≤ b.ensureTurn.items.length + 1) :
    Unique (b.withItems update) (total + 1) := by
  obtain ⟨hnumbered, hbounded⟩ := h.ensureTurn
  constructor
  · rw [groups_withItems]
    exact hnumbered.grow (forall₂_last hupdate)
  · rw [groups_withItems]
    simp only [List.flatten_append, List.length_append, List.flatten_cons, List.flatten_nil,
      List.append_nil, groupOf, List.length_map] at hbounded ⊢
    omega

/-- **An item gets the next number.** -/
theorem Unique.pushItem (h : Unique b total) {mk : Text → ThreadItem}
    (hmk : ∀ id, (mk id).id = some id) : Unique (b.pushItem mk) (total + 1) := by
  obtain ⟨hnumbered, hbounded⟩ := h.ensureTurn
  have hindex : (mk (itemId b.nextItemIndex)).index = some b.nextItemIndex := by
    unfold ThreadItem.index
    rw [hmk, Option.bind_some, itemIndex_itemId]
  have hgroups : (b.pushItem mk).groups =
      groupsOf b.turns ++ [groupOf b.ensureTurn.items ++ [some b.nextItemIndex]] := by
    show groupsOf b.turns ++ [groupOf (b.ensureTurn.items ++ [mk (itemId b.nextItemIndex)])] = _
    rw [groupOf, List.map_append, List.map_singleton, hindex]
    rfl
  constructor
  · rw [hgroups]
    exact hnumbered.number
  · rw [hgroups]
    simp only [List.flatten_append, List.length_append, List.flatten_cons, List.flatten_nil,
      List.append_nil, List.length_singleton] at hbounded ⊢
    omega

/-! ### The handlers -/

theorem Unique.upsertItemInCurrentTurn (h : Unique b total) (hitem : item.External) :
    Unique (b.upsertItemInCurrentTurn item) (total + 1) :=
  h.withItems (grown_upsert hitem.index_eq_none).1 (grown_upsert hitem.index_eq_none).2

/-- The turn that is found keeps its place. -/
theorem groupsOf_modifyFirst {p : Turn → Bool} {f : Turn → Turn} {turns turns' : List Turn}
    (hmodify : modifyFirst p f turns = some turns')
    (hf : ∀ turn, Grown (groupOf turn.items) (groupOf (f turn).items) ∧
      (f turn).items.length ≤ turn.items.length + 1) :
    List.Forall₂ Grown (groupsOf turns) (groupsOf turns') ∧
      (groupsOf turns').flatten.length ≤ (groupsOf turns).flatten.length + 1 := by
  induction turns generalizing turns' with
  | nil => cases hmodify
  | cons turn turns ih =>
    rw [modifyFirst] at hmodify
    split at hmodify
    · obtain rfl := Option.some.inj hmodify
      obtain ⟨hgrown, hlength⟩ := hf turn
      refine ⟨.cons hgrown (List.forall₂_same.mpr fun g _ => .refl g), ?_⟩
      simp only [groupsOf, groupOf, List.map_cons, List.flatten_cons, List.length_append,
        List.length_map] at hlength ⊢
      omega
    · obtain ⟨rest, hrest, rfl⟩ := Option.map_eq_some_iff.mp hmodify
      obtain ⟨hgrown, hlength⟩ := ih hrest
      refine ⟨.cons (.refl _) hgrown, ?_⟩
      simp only [groupsOf, groupOf, List.map_cons, List.flatten_cons, List.length_append]
        at hlength ⊢
      omega

theorem Unique.withTurns (h : Unique b total) {turns : List Turn}
    (hgrown : List.Forall₂ Grown (groupsOf b.turns) (groupsOf turns))
    (hlength : (groupsOf turns).flatten.length ≤ (groupsOf b.turns).flatten.length + 1) :
    Unique { b with turns := turns } (total + 1) := by
  obtain ⟨hnumbered, hbounded⟩ := h
  unfold ThreadHistoryBuilder.groups at hnumbered hbounded
  constructor
  · exact hnumbered.grow
      (List.rel_append hgrown (List.forall₂_same.mpr fun g _ => .refl g))
  · show (groupsOf turns ++ b.currentTurn.toList.map fun turn => groupOf turn.items).flatten.length ≤
      total + 1
    rw [List.flatten_append, List.length_append] at hbounded ⊢
    omega

theorem Unique.upsertItemInTurnId (h : Unique b total) (turnId : Text) (hitem : item.External) :
    Unique (b.upsertItemInTurnId turnId item) (total + 1) := by
  unfold ThreadHistoryBuilder.upsertItemInTurnId
  split
  · exact h.upsertItemInCurrentTurn hitem
  · split
    next turns hmodify =>
      obtain ⟨hgrown, hlength⟩ := groupsOf_modifyFirst hmodify fun turn =>
        grown_upsert hitem.index_eq_none
      exact h.withTurns hgrown hlength
    next => exact h.mono (Nat.le_succ total)

theorem Unique.upsertItem (h : Unique b total) (route : ItemRoute) (hitem : item.External) :
    Unique (b.upsertItem route item) (total + 1) := by
  cases route with
  | currentTurn => exact h.upsertItemInCurrentTurn hitem
  | turnId turnId => exact h.upsertItemInTurnId turnId hitem
  | turnIdOrCurrent turnId =>
    show Unique (if turnId.isEmpty then b.upsertItemInCurrentTurn item
      else b.upsertItemInTurnId turnId item) (total + 1)
    split
    · exact h.upsertItemInCurrentTurn hitem
    · exact h.upsertItemInTurnId turnId hitem

/-- A finished turn is moved, and one that is dropped has no items. -/
theorem Unique.finishCurrentTurn (h : Unique b total) : Unique b.finishCurrentTurn total := by
  unfold ThreadHistoryBuilder.finishCurrentTurn
  cases hcurrent : b.currentTurn with
  | none => exact h
  | some turn =>
    dsimp only
    obtain ⟨hnumbered, hbounded⟩ := h
    unfold ThreadHistoryBuilder.groups at hnumbered hbounded
    rw [hcurrent] at hnumbered hbounded
    split
    next hempty =>
      have hitems : turn.items = [] := by
        rw [Bool.and_eq_true, Bool.and_eq_true] at hempty
        exact List.isEmpty_iff.mp hempty.1.1
      have hgroups : ({ b with currentTurn := none } : ThreadHistoryBuilder).groups =
          groupsOf b.turns := List.append_nil _
      simp only [Option.toList_some, List.map_cons, List.map_nil, hitems] at hnumbered hbounded
      constructor
      · rw [hgroups]
        exact hnumbered.drop
      · rw [hgroups]
        simpa [groupOf] using hbounded
    next =>
      have hgroups : ({ b with currentTurn := none, turns := b.turns ++ [turn.toTurn] } :
          ThreadHistoryBuilder).groups = groupsOf b.turns ++ [groupOf turn.items] := by
        simp [ThreadHistoryBuilder.groups, groupsOf]
      constructor
      · rw [hgroups]
        exact hnumbered
      · rw [hgroups]
        exact hbounded

/-- Handlers that change no items of the current turn. -/
theorem Unique.updateCurrent (h : Unique b total) {f : Turn → Turn}
    (hf : ∀ turn, (f turn).items = turn.items) : Unique (b.updateCurrent f) total := by
  refine h.same ?_ rfl
  unfold ThreadHistoryBuilder.groups ThreadHistoryBuilder.updateCurrent
  cases hcurrent : b.currentTurn with
  | none => rfl
  | some turn =>
    show groupsOf b.turns ++ [groupOf (f turn.toTurn).items] = _
    rw [hf]
    rfl

theorem groupsOf_modifyFirst_same {p : Turn → Bool} {f : Turn → Turn} {turns turns' : List Turn}
    (hmodify : modifyFirst p f turns = some turns') (hf : ∀ turn, (f turn).items = turn.items) :
    groupsOf turns' = groupsOf turns := by
  induction turns generalizing turns' with
  | nil => cases hmodify
  | cons turn turns ih =>
    rw [modifyFirst] at hmodify
    split at hmodify
    · obtain rfl := Option.some.inj hmodify
      simp [groupsOf, hf]
    · obtain ⟨rest, hrest, rfl⟩ := Option.map_eq_some_iff.mp hmodify
      show groupOf turn.items :: groupsOf rest = _
      rw [ih hrest]
      rfl

theorem Unique.withSameTurns (h : Unique b total) {turns : List Turn}
    (hturns : groupsOf turns = groupsOf b.turns) : Unique { b with turns := turns } total := by
  refine h.same ?_ rfl
  show groupsOf turns ++ _ = _
  rw [hturns]
  rfl

theorem Unique.handleTurnAborted (h : Unique b total) (turnId : Option Text)
    (completedAt durationMs : Option Int) :
    Unique (b.handleTurnAborted turnId completedAt durationMs) total := by
  unfold ThreadHistoryBuilder.handleTurnAborted
  have hf : ∀ turn : Turn, (turn.abort completedAt durationMs).items = turn.items := fun _ => rfl
  cases turnId with
  | none => exact h.updateCurrent hf
  | some turnId =>
    dsimp only
    split
    · exact h.updateCurrent hf
    · split
      next turns hmodify => exact h.withSameTurns (groupsOf_modifyFirst_same hmodify hf)
      next => exact h.updateCurrent hf

theorem Unique.handleTurnComplete (h : Unique b total) (turnId : Text)
    (completedAt durationMs : Option Int) :
    Unique (b.handleTurnComplete turnId completedAt durationMs) total := by
  unfold ThreadHistoryBuilder.handleTurnComplete
  have hf : ∀ turn : Turn, (turn.complete completedAt durationMs).items = turn.items := fun _ => rfl
  dsimp only
  split
  · exact (h.updateCurrent hf).finishCurrentTurn
  · split
    next turns hmodify => exact h.withSameTurns (groupsOf_modifyFirst_same hmodify hf)
    next => exact (h.updateCurrent hf).finishCurrentTurn

theorem Unique.handleError (h : Unique b total) (message : Text) (affectsTurnStatus : Bool) :
    Unique (b.handleError message affectsTurnStatus) total := by
  unfold ThreadHistoryBuilder.handleError
  split
  · refine h.same ?_ rfl
    unfold ThreadHistoryBuilder.groups
    cases hcurrent : b.currentTurn <;> rfl
  · exact h

/-- An empty turn is opened behind the finished ones. -/
theorem Unique.withTurn (h : Unique b total) {turn : PendingTurn} (hcurrent : b.currentTurn = none)
    (hturn : turn.items = []) : Unique { b with currentTurn := some turn } total := by
  obtain ⟨hnumbered, hbounded⟩ := h
  unfold ThreadHistoryBuilder.groups at hnumbered hbounded
  rw [hcurrent] at hnumbered hbounded
  simp only [Option.toList_none, List.map_nil, List.append_nil] at hnumbered hbounded
  have hgroups : ({ b with currentTurn := some turn } : ThreadHistoryBuilder).groups =
      groupsOf b.turns ++ [[]] := by
    show groupsOf b.turns ++ [groupOf turn.items] = _
    rw [hturn]
    rfl
  constructor
  · rw [hgroups]
    exact hnumbered.open
  · rw [hgroups]
    simpa using hbounded

theorem finishCurrentTurn_currentTurn : b.finishCurrentTurn.currentTurn = none := by
  unfold ThreadHistoryBuilder.finishCurrentTurn
  cases hcurrent : b.currentTurn with
  | none => exact hcurrent
  | some turn =>
    dsimp only
    split <;> rfl

theorem Unique.handleTurnStarted (h : Unique b total) (turnId : Text) (startedAt : Option Int) :
    Unique (b.handleTurnStarted turnId startedAt) total :=
  h.finishCurrentTurn.withTurn finishCurrentTurn_currentTurn rfl

theorem Unique.handleCompacted (h : Unique b total) : Unique b.handleCompacted total := by
  obtain ⟨hnumbered, hbounded⟩ := h.ensureTurn
  exact ⟨hnumbered, hbounded⟩

theorem Unique.handleUserMessage (h : Unique b total) (payload : UserMessageEvent) :
    Unique (b.handleUserMessage payload) (total + 1) := by
  unfold ThreadHistoryBuilder.handleUserMessage
  dsimp only
  split
  · exact h.finishCurrentTurn.pushItem fun _ => rfl
  · exact h.pushItem fun _ => rfl

theorem Unique.handleAgentMessage (h : Unique b total) (text : Text) (phase : Option MessagePhase)
    (memoryCitation : Option Text) :
    Unique (b.handleAgentMessage text phase memoryCitation) (total + 1) := by
  unfold ThreadHistoryBuilder.handleAgentMessage
  split
  · exact h.mono (Nat.le_succ total)
  · exact h.pushItem fun _ => rfl

/-- The last item of the current turn is rewritten under its id. -/
theorem Unique.rewriteLast (h : Unique b total) {last item : ThreadItem}
    (hlast : b.ensureTurn.items.getLast? = some last) (hid : item.id = last.id) :
    Unique (b.withItems (·.dropLast ++ [item])) (total + 1) := by
  have hsplit : b.ensureTurn.items = b.ensureTurn.items.dropLast ++ [last] :=
    (List.dropLast_append_getLast? last hlast).symm
  have hgroup : groupOf (b.ensureTurn.items.dropLast ++ [item]) = groupOf b.ensureTurn.items := by
    have hindex : item.index = last.index := by
      unfold ThreadItem.index
      rw [hid]
    rw [groupOf, List.map_append, List.map_singleton, hindex]
    conv_rhs => rw [hsplit]
    rw [groupOf, List.map_append, List.map_singleton]
  refine h.withItems ?_ ?_
  · rw [hgroup]
    exact .refl _
  · have hlength := congrArg List.length hgroup
    simp only [groupOf, List.length_map] at hlength
    omega

theorem Unique.handleAgentReasoning (h : Unique b total) (text : Text) :
    Unique (b.handleAgentReasoning text) (total + 1) := by
  unfold ThreadHistoryBuilder.handleAgentReasoning
  split
  · exact h.mono (Nat.le_succ total)
  · split
    next hlast => exact h.rewriteLast hlast rfl
    next => exact h.pushItem fun _ => rfl

theorem Unique.handleAgentReasoningRawContent (h : Unique b total) (text : Text) :
    Unique (b.handleAgentReasoningRawContent text) (total + 1) := by
  unfold ThreadHistoryBuilder.handleAgentReasoningRawContent
  split
  · exact h.mono (Nat.le_succ total)
  · split
    next hlast => exact h.rewriteLast hlast rfl
    next => exact h.pushItem fun _ => rfl

theorem Unique.handleTurnItem (h : Unique b total) (turnId : Text) {turnItem : TurnItem}
    (hitem : ∀ id text, turnItem = .plan id text → ∀ index, id ≠ itemId index) :
    Unique (b.handleTurnItem turnId turnItem) (total + 1) := by
  cases turnItem with
  | other => exact h.mono (Nat.le_succ total)
  | plan id text =>
    have hexternal : ThreadItem.External (.tool { kind := .plan, id := id, fields := text }) :=
      fun index heq => hitem id text rfl index (Option.some.inj heq)
    show Unique (if text.isEmpty then b else b.upsertItemInTurnId turnId
      (.tool { kind := .plan, id := id, fields := text })) (total + 1)
    split
    · exact h.mono (Nat.le_succ total)
    · exact h.upsertItemInTurnId turnId hexternal

/-- **A rollback** goes on behind the items that are left. -/
theorem Unique.handleThreadRollback (h : Unique b total) (htotal : total < i64Max)
    (numTurns : UInt32) : Unique (b.handleThreadRollback numTurns) total := by
  obtain ⟨hnumbered, hbounded⟩ := h.finishCurrentTurn
  have hgroups : b.finishCurrentTurn.groups = groupsOf b.finishCurrentTurn.turns := by
    unfold ThreadHistoryBuilder.groups
    rw [finishCurrentTurn_currentTurn]
    exact List.append_nil _
  rw [hgroups] at hnumbered hbounded
  have hcut := hnumbered.cut (b.finishCurrentTurn.turns.length - numTurns.toNat)
  have htake : (groupsOf b.finishCurrentTurn.turns).take
        (b.finishCurrentTurn.turns.length - numTurns.toNat) =
      groupsOf (b.finishCurrentTurn.turns.take
        (b.finishCurrentTurn.turns.length - numTurns.toNat)) := List.map_take.symm
  rw [htake] at hcut
  have hafter : (b.handleThreadRollback numTurns).groups =
      groupsOf (b.finishCurrentTurn.turns.take
        (b.finishCurrentTurn.turns.length - numTurns.toNat)) := by
    show groupsOf _ ++ b.finishCurrentTurn.currentTurn.toList.map _ = _
    rw [finishCurrentTurn_currentTurn]
    exact List.append_nil _
  have hle : (groupsOf (b.finishCurrentTurn.turns.take
      (b.finishCurrentTurn.turns.length - numTurns.toNat))).flatten.length ≤ total := by
    refine Nat.le_trans ?_ hbounded
    rw [← htake]
    conv_rhs => rw [← List.take_append_drop (b.finishCurrentTurn.turns.length - numTurns.toNat)
      (groupsOf b.finishCurrentTurn.turns)]
    rw [List.flatten_append, List.length_append]
    exact Nat.le_add_right _ _
  have hnext : (b.handleThreadRollback numTurns).nextItemIndex =
      (groupsOf (b.finishCurrentTurn.turns.take
        (b.finishCurrentTurn.turns.length - numTurns.toNat))).flatten.length + 1 := by
    have hcount : ∀ turns : List Turn,
        (turns.map (·.items.length)).sum = (groupsOf turns).flatten.length := by
      intro turns
      rw [List.length_flatten]
      unfold groupsOf groupOf
      rw [List.map_map]
      congr 1
      exact List.map_congr_left fun turn _ => (List.length_map _).symm
    show min ((_ : List Nat).sum + 1) i64Max = _
    rw [hcount]
    omega
  constructor
  · rw [hafter, hnext]
    exact hcut
  · rw [hafter]
    exact hle

/-! ### Runs -/

/-- The ids that an event brings along. -/
def EventMsg.suppliedIds : EventMsg → List Text
  | .toolItem _ item => [item.id]
  | .itemStarted _ (.plan id _) => [id]
  | .itemCompleted _ (.plan id _) => [id]
  | _ => []

/-- The ids that a line of a rollout brings along. -/
def RolloutItem.suppliedIds : RolloutItem → List Text
  | .eventMsg msg => msg.suppliedIds
  | .responseItem (.message id _ _ _) => id.toList
  | _ => []

theorem Unique.handleEvent (h : Unique b total) (htotal : total < i64Max) (msg : EventMsg)
    (hids : ∀ id ∈ msg.suppliedIds, ∀ index, id ≠ itemId index) :
    Unique (b.handleEvent msg) (total + 1) := by
  have hle := Nat.le_succ total
  cases msg with
  | userMessage payload => exact h.handleUserMessage payload
  | agentMessage message phase memoryCitation =>
    exact h.handleAgentMessage message phase memoryCitation
  | agentReasoning text => exact h.handleAgentReasoning text
  | agentReasoningRawContent text => exact h.handleAgentReasoningRawContent text
  | toolItem route item =>
    exact h.upsertItem route fun index heq =>
      hids item.id List.mem_cons_self index (Option.some.inj heq)
  | itemStarted turnId item =>
    refine h.handleTurnItem turnId fun id text heq index => ?_
    subst heq
    exact hids id List.mem_cons_self index
  | itemCompleted turnId item =>
    refine h.handleTurnItem turnId fun id text heq index => ?_
    subst heq
    exact hids id List.mem_cons_self index
  | contextCompacted => exact h.pushItem fun _ => rfl
  | enteredReviewMode userFacingHint =>
    show Unique (b.handleEnteredReviewMode userFacingHint) (total + 1)
    unfold ThreadHistoryBuilder.handleEnteredReviewMode
    exact h.pushItem fun _ => rfl
  | exitedReviewMode overallExplanation =>
    show Unique (b.handleExitedReviewMode overallExplanation) (total + 1)
    unfold ThreadHistoryBuilder.handleExitedReviewMode
    exact h.pushItem fun _ => rfl
  | error message affectsTurnStatus => exact (h.handleError message affectsTurnStatus).mono hle
  | threadRolledBack numTurns => exact (h.handleThreadRollback htotal numTurns).mono hle
  | turnAborted turnId completedAt durationMs =>
    exact (h.handleTurnAborted turnId completedAt durationMs).mono hle
  | turnStarted turnId startedAt => exact (h.handleTurnStarted turnId startedAt).mono hle
  | turnComplete turnId completedAt durationMs =>
    exact (h.handleTurnComplete turnId completedAt durationMs).mono hle
  | other => exact h.mono hle

theorem Unique.handleResponseItem (ext : Externals) (h : Unique b total) (item : ResponseItem)
    (hids : ∀ id ∈ (RolloutItem.responseItem item).suppliedIds, ∀ index, id ≠ itemId index) :
    Unique (b.handleResponseItem ext item) (total + 1) := by
  have hle := Nat.le_succ total
  unfold ThreadHistoryBuilder.handleResponseItem
  split
  next id role content phase =>
    split
    · split
      next fragments _ =>
        have hexternal : ThreadItem.External (.hookPrompt id fragments) := by
          intro index heq
          exact hids (itemId index) (Option.mem_toList.mpr heq) index rfl
        exact h.withItems (grown_append hexternal.index_eq_none) (by simp)
      next => exact h.mono hle
    · exact h.mono hle
  next => exact h.mono hle

/-- **One line of a rollout** adds one item at most. -/
theorem Unique.handleRolloutItem (ext : Externals) (h : Unique b total) (htotal : total < i64Max)
    (item : RolloutItem) (hids : ∀ id ∈ item.suppliedIds, ∀ index, id ≠ itemId index) :
    Unique (b.handleRolloutItem ext item) (total + 1) := by
  have hmoved : Unique { b with
      currentRolloutIndex := b.nextRolloutIndex
      nextRolloutIndex := b.nextRolloutIndex + 1 } total := h.same rfl rfl
  unfold ThreadHistoryBuilder.handleRolloutItem
  cases item with
  | eventMsg msg => exact hmoved.handleEvent htotal msg hids
  | compacted item => exact hmoved.handleCompacted.mono (Nat.le_succ total)
  | responseItem item => exact hmoved.handleResponseItem ext item hids
  | turnContext item => exact hmoved.mono (Nat.le_succ total)
  | sessionMeta => exact hmoved.mono (Nat.le_succ total)

theorem Unique.foldl (ext : Externals) (items : List RolloutItem) (h : Unique b total)
    (hlength : total + items.length ≤ i64Max)
    (hids : ∀ item ∈ items, ∀ id ∈ item.suppliedIds, ∀ index, id ≠ itemId index) :
    Unique (items.foldl (ThreadHistoryBuilder.handleRolloutItem ext) b) (total + items.length) := by
  induction items generalizing b total with
  | nil => exact h
  | cons item items ih =>
    obtain ⟨hitem, hitems⟩ := List.forall_mem_cons.mp hids
    rw [List.length_cons] at hlength ⊢
    have hstep := h.handleRolloutItem ext (by omega) item hitem
    have hrest := ih hstep (by omega) hitems
    rw [List.foldl_cons]
    exact hrest.mono (by omega)

/-- **Generated ids are unique.**  Whatever lines a rollout has, no two items of its finished turns
    have the same generated id, if no id that comes from outside looks like one.  The bound is the
    largest index, which no list in memory exceeds. -/
theorem itemIds_unique (ext : Externals) (items : List RolloutItem) (hlength : items.length ≤ i64Max)
    (hids : ∀ item ∈ items, ∀ id ∈ item.suppliedIds, ∀ index, id ≠ itemId index) :
    ((buildTurnsFromRolloutItems ext items).flatMap (·.items)).Pairwise fun x y =>
      ∀ index, x.id = some (itemId index) → y.id ≠ some (itemId index) := by
  have hrun := unique_new.foldl ext items (by omega) hids
  have hdistinct := hrun.finishCurrentTurn.numbered.distinct
  have hgroups : ∀ turns : List Turn,
      (groupsOf turns).flatten = (turns.flatMap (·.items)).map ThreadItem.index := by
    intro turns
    unfold groupsOf groupOf
    rw [List.map_flatMap, List.flatMap_def]
  have hfinished : ∀ b : ThreadHistoryBuilder, b.finishCurrentTurn.groups = groupsOf b.finish := by
    intro b
    unfold ThreadHistoryBuilder.groups
    rw [finishCurrentTurn_currentTurn]
    exact List.append_nil _
  rw [hfinished, hgroups] at hdistinct
  unfold numbersIn at hdistinct
  rw [List.filterMap_map, List.Nodup, List.pairwise_filterMap] at hdistinct
  refine hdistinct.imp fun {x y} hxy index hx hy => ?_
  have hindex : ∀ item : ThreadItem, item.id = some (itemId index) →
      (id ∘ ThreadItem.index) item = some index := by
    intro item hid
    show item.id.bind itemIndex = some index
    rw [hid, Option.bind_some, itemIndex_itemId]
  exact hxy index (hindex x hx) index (hindex y hy) rfl

/-- A rollout with a tool call whose first turn is rolled back. -/
def rolledBackRollout : List RolloutItem :=
  [ .eventMsg (.userMessage ⟨"a".toList, none, [], []⟩),
    .eventMsg (.agentMessage "b".toList none none),
    .eventMsg (.userMessage ⟨"c".toList, none, [], []⟩),
    .eventMsg (.toolItem .currentTurn ⟨.commandExecution, "call".toList, []⟩),
    .eventMsg (.threadRolledBack 1),
    .eventMsg (.userMessage ⟨"d".toList, none, [], []⟩) ]

/-- Ids are read back from the finished turns of `rolledBackRollout`. -/
theorem rolledBackRollout_ids :
    (((buildTurnsFromRolloutItems ⟨fun _ => false, fun _ => none, id⟩ rolledBackRollout).flatMap
        (·.items)).map (·.id) = [some (itemId 1), some (itemId 2), some (itemId 3)]) ∧
      ((buildTurnsFromRolloutItems ⟨fun _ => false, fun _ => none, id⟩ rolledBackRollout).flatMap
        (·.items)).Pairwise fun x y =>
          ∀ index, x.id = some (itemId index) → y.id ≠ some (itemId index) := by
  refine ⟨by decide, itemIds_unique ⟨fun _ => false, fun _ => none, id⟩ rolledBackRollout
    (by decide) ?_⟩
  intro item hitem id hid index heq
  have hcall : id = "call".toList := by
    simp only [rolledBackRollout, List.mem_cons, List.not_mem_nil, or_false] at hitem
    rcases hitem with rfl | rfl | rfl | rfl | rfl | rfl <;>
      simp_all [RolloutItem.suppliedIds, EventMsg.suppliedIds]
  have hhead := congrArg List.head? (hcall.symm.trans heq)
  simp [itemId] at hhead

end CodexMonitor.ThreadHistory
