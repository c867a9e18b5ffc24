import CodexMonitor.Rollout.Positions

namespace CodexMonitor.Rollout

open CodexMonitor.History

/-!
# Rollout — what a forked agent inherits

`core/src/thread_rollout_truncation.rs` and `core/src/agent/control.rs`: an agent is forked from the
last turns of the rollout of its parent, of which the messages are kept and the tool calls are not.

* `forkTurnPositionsInRollout`, `truncateRolloutToLastNForkTurns`, `keepForkedRolloutItem` — the
  functions.
* `survivingBoundaries` — the turns that the rollbacks leave, which the positions point at.
* `forkTurns_history` — the last turns of a rollout are replayed to the end of its history.
* `forked_inherits_iff` — the instructions that reach the fork are those that survive in the parent
  exactly if no rollback counts a turn that the fork drops while there are older ones that it keeps.
-/

variable (ext : Externals) (triggerTurn : Text → Bool) (policy : TruncationPolicy)

/-! ### Fork turns -/

/-- `InterAgentCommunication::from_message_content(content).is_some_and(|c| c.trigger_turn)`, where
    `triggerTurn` is the flag of the message that the text is decoded to. -/
def triggersTurn : List ContentItem → Bool
  | [.inputText text] => ext.isInterAgentJson text && triggerTurn text
  | [.outputText text] => ext.isInterAgentJson text && triggerTurn text
  | _ => false

/-- `is_trigger_turn_boundary`. -/
def isTriggerTurnBoundary : ResponseItem → Bool
  | .message _ role content _ => role == "assistant".toList && triggersTurn ext triggerTurn content
  | _ => false

/-- A boundary of a fork turn: a user message, or an instruction that triggers a turn. -/
def isForkTurnBoundary (item : ResponseItem) : Bool :=
  isRealUserMessage ext item || isTriggerTurnBoundary ext triggerTurn item

/-- The positions that the scan for fork turns collects. -/
structure ForkPositions where
  rollbackTurnPositions : List Nat := []
  forkTurnPositions : List Nat := []
deriving DecidableEq

/-- The first of the turns that are rolled back. -/
def rollbackStartIdx (rollbackTurnPositions : List Nat) (numTurns : Nat) : Option Nat :=
  let rollbackStart := if numTurns ≤ rollbackTurnPositions.length then
    some (rollbackTurnPositions.length - numTurns) else none
  (rollbackStart.bind fun start => rollbackTurnPositions[start]?).or rollbackTurnPositions.head?

/-- One line, with its index. -/
def forkPositionsStep (positions : ForkPositions) : RolloutItem × Nat → ForkPositions
  | (.responseItem item, idx) =>
      { rollbackTurnPositions := if isUserTurnBoundary ext item then
          positions.rollbackTurnPositions ++ [idx] else positions.rollbackTurnPositions
        forkTurnPositions := if isForkTurnBoundary ext triggerTurn item then
          positions.forkTurnPositions ++ [idx] else positions.forkTurnPositions }
  | (.eventMsg (.threadRolledBack numTurns), _) =>
      if numTurns.toNat = 0 then positions
      else
        match rollbackStartIdx positions.rollbackTurnPositions numTurns.toNat with
        | none => positions
        | some startIdx =>
            { rollbackTurnPositions := positions.rollbackTurnPositions.take
                (positions.rollbackTurnPositions.length - numTurns.toNat)
              forkTurnPositions := positions.forkTurnPositions.filter (· < startIdx) }
  | _ => positions

/-- `fork_turn_positions_in_rollout`. -/
def forkTurnPositionsInRollout (items : List RolloutItem) : List Nat :=
  (items.zipIdx.foldl (forkPositionsStep ext triggerTurn) {}).forkTurnPositions

/-- `truncate_rollout_to_last_n_fork_turns`. -/
def truncateRolloutToLastNForkTurns (items : List RolloutItem) (nFromEnd : Nat) :
    List RolloutItem :=
  if nFromEnd = 0 then []
  else
    let forkTurnPositions := forkTurnPositionsInRollout ext triggerTurn items
    if forkTurnPositions.length ≤ nFromEnd then items
    else
      match forkTurnPositions[forkTurnPositions.length - nFromEnd]? with
      | some keepIdx => items.drop keepIdx
      | none => items

/-! ### The rollout of a fork -/

/-- `SpawnAgentForkMode`. -/
inductive SpawnAgentForkMode where
  | fullHistory
  | lastNTurns (lastNTurns : Nat)
deriving DecidableEq

/-- `keep_forked_rollout_item`. -/
def keepForkedRolloutItem : RolloutItem → Bool
  | .responseItem (.message _ role _ phase) =>
      if role = "system".toList ∨ role = "developer".toList ∨ role = "user".toList then true
      else role == "assistant".toList && phase == some .finalAnswer
  | .responseItem _ => false
  | .turnContext _ => false
  | .compacted _ => true
  | .eventMsg _ => true
  | .sessionMeta => true

/-- The lines that the fork mode chooses, before the filter. -/
def chosenRolloutItems (items : List RolloutItem) : SpawnAgentForkMode → List RolloutItem
  | .fullHistory => items
  | .lastNTurns lastNTurns => truncateRolloutToLastNForkTurns ext triggerTurn items lastNTurns

/-- The rollout from which `spawn_forked_thread` starts the fork. -/
def forkedRolloutItems (items : List RolloutItem) (mode : SpawnAgentForkMode) :
    List RolloutItem :=
  (chosenRolloutItems ext triggerTurn items mode).filter keepForkedRolloutItem

/-- The history that a rollout is replayed to. -/
def historyOf (items : List RolloutItem) : List ResponseItem :=
  (replay ext policy ⟨[], 0, none⟩ items).items

/-! ### The turns that survive -/

/-- The boundaries that the rollbacks leave, with their indices. -/
def boundariesStep (kept : List (Nat × ResponseItem)) :
    RolloutItem × Nat → List (Nat × ResponseItem)
  | (.responseItem item, idx) => if isUserTurnBoundary ext item then kept ++ [(idx, item)] else kept
  | (.eventMsg (.threadRolledBack numTurns), _) => kept.rdrop numTurns.toNat
  | _ => kept

/-- **The turns of a rollout that survive its rollbacks.** -/
def survivingBoundaries (items : List RolloutItem) : List (Nat × ResponseItem) :=
  items.zipIdx.foldl (boundariesStep ext) []

variable {ext triggerTurn policy} {items front : List RolloutItem} {item : RolloutItem}
  {history : List ResponseItem} {b : ResponseItem} {n : Nat}

theorem survivingBoundaries_concat (items : List RolloutItem) (item : RolloutItem) :
    survivingBoundaries ext (items ++ [item]) =
      boundariesStep ext (survivingBoundaries ext items) (item, items.length) := by
  unfold survivingBoundaries
  rw [List.zipIdx_append, List.foldl_append, Nat.zero_add]
  rfl

/-- The turns are in the order of their lines, and at these lines. -/
structure Located (ext : Externals) (items : List RolloutItem) (kept : List (Nat × ResponseItem)) :
    Prop where
  sorted : kept.Pairwise fun older newer => older.1 < newer.1
  located : ∀ entry ∈ kept, items[entry.1]? = some (.responseItem entry.2)
  boundary : ∀ entry ∈ kept, isUserTurnBoundary ext entry.2 = true

theorem Located.lt_length {kept : List (Nat × ResponseItem)} (h : Located ext items kept)
    {entry : Nat × ResponseItem} (hentry : entry ∈ kept) : entry.1 < items.length :=
  (List.getElem?_eq_some_iff.mp (h.located entry hentry)).1

theorem Located.concat {kept : List (Nat × ResponseItem)} (h : Located ext items kept)
    (item : RolloutItem) : Located ext (items ++ [item]) kept := by
  refine ⟨h.sorted, ?_, h.boundary⟩
  intro entry hentry
  rw [List.getElem?_append_left (h.lt_length hentry)]
  exact h.located entry hentry

theorem Located.rdrop {kept : List (Nat × ResponseItem)} (h : Located ext items kept) (n : Nat) :
    Located ext items (kept.rdrop n) := by
  have hfront : (kept.rdrop n).Sublist kept := List.take_sublist _ _
  exact ⟨h.sorted.sublist hfront, fun entry hentry => h.located entry (hfront.subset hentry),
    fun entry hentry => h.boundary entry (hfront.subset hentry)⟩

/-- **The surviving turns are located**, whatever is rolled back. -/
theorem located_survivingBoundaries (ext : Externals) (items : List RolloutItem) :
    Located ext items (survivingBoundaries ext items) := by
  induction items using List.reverseRecOn with
  | nil =>
    refine ⟨List.Pairwise.nil, ?_, ?_⟩
    · intro entry hentry
      cases hentry
    · intro entry hentry
      cases hentry
  | append_singleton items item ih =>
    rw [survivingBoundaries_concat]
    have hkept := ih.concat item
    cases item with
    | responseItem item =>
      show Located ext _ (if isUserTurnBoundary ext item then _ else _)
      by_cases hboundary : isUserTurnBoundary ext item = true
      · rw [if_pos hboundary]
        refine ⟨?_, ?_, ?_⟩
        · rw [List.pairwise_append]
          refine ⟨ih.sorted, List.pairwise_singleton _ _, ?_⟩
          intro older holder newer hnewer
          rw [List.mem_singleton.mp hnewer]
          exact ih.lt_length holder
        · intro entry hentry
          rcases List.mem_append.mp hentry with hmem | hmem
          · exact hkept.located entry hmem
          · rw [List.mem_singleton.mp hmem]
            exact List.getElem?_concat_length
        · intro entry hentry
          rcases List.mem_append.mp hentry with hmem | hmem
          · exact ih.boundary entry hmem
          · rw [List.mem_singleton.mp hmem]
            exact hboundary
      · rw [if_neg hboundary]
        exact hkept
    | eventMsg msg =>
      cases msg with
      | threadRolledBack numTurns => exact hkept.rdrop _
      | _ => exact hkept
    | _ => exact hkept

/-! ### The fork positions -/

theorem isUserTurnBoundary_of_fork {item : ResponseItem}
    (h : isForkTurnBoundary ext triggerTurn item = true) : isUserTurnBoundary ext item = true := by
  rcases Bool.or_eq_true_iff.mp h with hreal | htrigger
  · exact isUserTurnBoundary_of_real hreal
  · cases item with
    | message id role content phase =>
      obtain ⟨hrole, htriggers⟩ := Bool.and_eq_true_iff.mp htrigger
      have hinter : isInterAgentInstructionContent ext content = true := by
        unfold triggersTurn at htriggers
        split at htriggers
        · exact (Bool.and_eq_true_iff.mp htriggers).1
        · exact (Bool.and_eq_true_iff.mp htriggers).1
        · cases htriggers
      show (_ || (role == "assistant".toList && isInterAgentInstructionContent ext content)) = true
      rw [hrole, hinter, Bool.and_self, Bool.or_true]
    | _ => cases htrigger

/-- A rollback starts at the first of the last turns. -/
theorem rollbackStartIdx_eq (positions : List Nat) {n : Nat} (hn : n ≠ 0) :
    rollbackStartIdx positions n = (positions.rtake n).head? := by
  unfold rollbackStartIdx List.rtake
  rw [List.head?_drop]
  by_cases hle : n ≤ positions.length
  · rw [if_pos hle]
    show ((positions[positions.length - n]?).or positions.head?) = _
    by_cases hempty : positions = []
    · rw [hempty]
      rfl
    · have hlt : positions.length - n < positions.length := by
        have hpos := List.length_pos_iff.mpr hempty
        omega
      rw [List.getElem?_eq_getElem hlt]
      rfl
  · rw [if_neg hle, Nat.sub_eq_zero_of_le (by omega), List.head?_eq_getElem?]
    rfl

/-- What lies before the first of the last turns is what is left without them. -/
theorem filter_lt_start {kept : List (Nat × ResponseItem)} {start : Nat}
    (hsorted : kept.Pairwise fun older newer => older.1 < newer.1)
    (hstart : ((kept.map Prod.fst).rtake n).head? = some start) (p : Nat × ResponseItem → Bool) :
    ((kept.filter p).map Prod.fst).filter (· < start) =
      ((kept.rdrop n).filter p).map Prod.fst := by
  rw [map_rtake] at hstart
  have hcut : kept.rdrop n ++ kept.rtake n = kept := rdrop_append_rtake kept n
  rw [← hcut, List.pairwise_append] at hsorted
  obtain ⟨-, hlater, hacross⟩ := hsorted
  cases hnew : kept.rtake n with
  | nil =>
    rw [hnew] at hstart
    cases hstart
  | cons first newer =>
    rw [hnew] at hstart hlater hacross
    obtain rfl : first.1 = start := Option.some.inj hstart
    have hfirst := (List.pairwise_cons.mp hlater).1
    have hbefore : ((kept.rdrop n).filter p).map Prod.fst =
        (((kept.rdrop n).filter p).map Prod.fst).filter (· < first.1) := by
      symm
      rw [List.filter_eq_self]
      intro idx hidx
      obtain ⟨entry, hentry, rfl⟩ := List.mem_map.mp hidx
      exact decide_eq_true (hacross entry (List.mem_of_mem_filter hentry) first
        List.mem_cons_self)
    have hafter : (((first :: newer).filter p).map Prod.fst).filter (· < first.1) = [] := by
      rw [List.filter_eq_nil_iff]
      intro idx hidx
      obtain ⟨entry, hentry, rfl⟩ := List.mem_map.mp hidx
      rcases List.mem_cons.mp (List.mem_of_mem_filter hentry) with rfl | hmem
      · simp
      · have hlt := hfirst entry hmem
        simp
        omega
    conv_lhs => rw [← hcut, hnew]
    rw [List.filter_append, List.map_append, List.filter_append, hafter, List.append_nil,
      ← hbefore]

/-- **The fork positions are those of the surviving fork turns.** -/
theorem forkPositions_eq (triggerTurn : Text → Bool) (items : List RolloutItem) :
    items.zipIdx.foldl (forkPositionsStep ext triggerTurn) {} =
      { rollbackTurnPositions := (survivingBoundaries ext items).map Prod.fst
        forkTurnPositions := ((survivingBoundaries ext items).filter fun entry =>
          isForkTurnBoundary ext triggerTurn entry.2).map Prod.fst } := by
  induction items using List.reverseRecOn with
  | nil => rfl
  | append_singleton items item ih =>
    rw [List.zipIdx_append, List.foldl_append, Nat.zero_add, ih, survivingBoundaries_concat]
    have hsorted := (located_survivingBoundaries ext items).sorted
    generalize survivingBoundaries ext items = kept at hsorted ⊢
    cases item with
    | responseItem item =>
      simp only [List.zipIdx_singleton, List.foldl_cons, List.foldl_nil, forkPositionsStep,
        boundariesStep]
      by_cases hboundary : isUserTurnBoundary ext item = true
      · by_cases hfork : isForkTurnBoundary ext triggerTurn item = true
        · simp [hboundary, hfork]
        · simp [hboundary, hfork]
      · have hfork : ¬ isForkTurnBoundary ext triggerTurn item = true :=
          fun h => hboundary (isUserTurnBoundary_of_fork h)
        simp [hboundary, hfork]
    | eventMsg msg =>
      cases msg with
      | threadRolledBack numTurns =>
        simp only [List.zipIdx_singleton, List.foldl_cons, List.foldl_nil, forkPositionsStep,
          boundariesStep]
        by_cases hzero : numTurns.toNat = 0
        · rw [if_pos hzero, hzero, List.rdrop_zero]
        · rw [if_neg hzero, rollbackStartIdx_eq _ hzero]
          cases hstart : ((kept.map Prod.fst).rtake numTurns.toNat).head? with
          | none =>
            -- only without a turn is there none to start at
            have hempty : kept = [] := by
              have hlast := List.head?_eq_none_iff.mp hstart
              have hlength := congrArg List.length hlast
              rw [length_rtake, List.length_map, List.length_nil] at hlength
              exact List.length_eq_zero_iff.mp (by omega)
            rw [hempty, List.rdrop_nil]
          | some start =>
            show ForkPositions.mk ((kept.map Prod.fst).rdrop numTurns.toNat) _ =
              ForkPositions.mk _ _
            rw [map_rdrop, filter_lt_start hsorted hstart]
      | _ => rfl
    | _ => rfl

theorem forkTurnPositions_eq (triggerTurn : Text → Bool) (items : List RolloutItem) :
    forkTurnPositionsInRollout ext triggerTurn items =
      ((survivingBoundaries ext items).filter fun entry =>
        isForkTurnBoundary ext triggerTurn entry.2).map Prod.fst := by
  unfold forkTurnPositionsInRollout
  rw [forkPositions_eq]

/-! ### The end of the history -/

/-- A rollback that leaves a turn of the newer items leaves the older ones alone. -/
theorem survivingItems_append (history : List ResponseItem) {newer : List ResponseItem}
    (hlt : n < newer.countP (isUserTurnBoundary ext)) :
    survivingItems ext (history ++ newer) n = history ++ survivingItems ext newer n := by
  rcases Nat.eq_zero_or_pos n with rfl | hn
  · rfl
  · obtain ⟨before, turn, after, h⟩ := exists_nthLast hn (Nat.le_of_lt hlt)
    have hinner : 0 < before.countP (isUserTurnBoundary ext) := by
      have hcount := h.countP
      omega
    have hpart : NthLast (isUserTurnBoundary ext) n (ContextManager.mk newer 0 none).items before
        turn after := h
    have hlonger : NthLast (isUserTurnBoundary ext) n
        (ContextManager.mk (history ++ newer) 0 none).items (history ++ before) turn after := by
      refine ⟨?_, h.holds, h.count⟩
      show history ++ newer = _
      rw [h.split, List.append_assoc]
    have hmore : 0 < (history ++ before).countP (isUserTurnBoundary ext) := by
      rw [List.countP_append]
      omega
    have hwhole : survivingItems ext (history ++ newer) n =
        (history ++ before).rdropWhile (isTrimmablePreTurnItem ext) :=
      (dropLastNUserTurns_inner hlonger hmore).1
    have hkept : survivingItems ext newer n = before.rdropWhile (isTrimmablePreTurnItem ext) :=
      (dropLastNUserTurns_inner hpart hinner).1
    rw [hwhole, hkept]
    unfold List.rdropWhile
    rw [List.reverse_append, List.dropWhile_append, if_neg, List.reverse_append,
      List.reverse_reverse]
    -- the walk meets a turn of the end
    intro hnone
    obtain ⟨turn', hturn', hboundary⟩ := List.countP_pos_iff.mp hinner
    have htrims := List.dropWhile_eq_nil_iff.mp (List.isEmpty_iff.mp hnone) turn'
      (List.mem_reverse.mpr hturn')
    rw [isUserTurnBoundary_of_trimmable htrims] at hboundary
    cases hboundary

/-- The first turn stays where a later one does. -/
theorem survivingItems_cons {tail : List ResponseItem}
    (hlt : n < (b :: tail).countP (isUserTurnBoundary ext)) :
    ∃ tail', survivingItems ext (b :: tail) n = b :: tail' := by
  rcases Nat.eq_zero_or_pos n with rfl | hn
  · exact ⟨tail, rfl⟩
  · obtain ⟨rest, hsplit, hcount⟩ := survivingItems_split ext (b :: tail) hn
    cases hkept : survivingItems ext (b :: tail) n with
    | nil =>
      rw [hkept, List.countP_nil] at hcount
      omega
    | cons first tail' =>
      rw [hkept] at hsplit
      obtain rfl : b = first := (List.cons.inj hsplit).1
      exact ⟨tail', rfl⟩

/-- Recording an item keeps the boundaries. -/
theorem boundaries_recordedItem (item : ResponseItem) :
    (recordedItem ext policy item).filter (isUserTurnBoundary ext) =
      [item].filter (isUserTurnBoundary ext) := by
  unfold recordedItem
  by_cases hapi : isApiMessage item = true
  · rw [if_pos hapi]
    cases item with
    | functionCallOutput callId output => rfl
    | customToolCallOutput callId name output => rfl
    | _ => rfl
  · rw [if_neg hapi]
    cases item with
    | message id role content phase =>
      have hrole : role = "system".toList := by simpa [isApiMessage] using hapi
      rw [hrole]
      rfl
    | other => rfl
    | _ => exact absurd rfl hapi

theorem recordedItem_boundary (hb : isUserTurnBoundary ext b = true) :
    recordedItem ext policy b = [b] := by
  have hkept : (recordedItem ext policy b).filter (isUserTurnBoundary ext) =
      [b].filter (isUserTurnBoundary ext) := boundaries_recordedItem b
  rw [List.filter_singleton, hb] at hkept
  cases b with
  | message id role content phase =>
    unfold recordedItem at hkept ⊢
    by_cases hapi : isApiMessage (.message id role content phase) = true
    · rw [if_pos hapi]
      rfl
    · rw [if_neg hapi] at hkept
      cases hkept
  | _ => cases hb

/-- **The history after a turn that survives**: what precedes the turn is left as it is, and the
    surviving turns from it on are those of what follows alone. -/
structure Splits (ext : Externals) (policy : TruncationPolicy) (front : List RolloutItem)
    (b : ResponseItem) (rest : List RolloutItem) (tail : List ResponseItem)
    (later : List (Nat × ResponseItem)) : Prop where
  history : ∀ older, itemsAfter ext policy older (.responseItem b :: rest) = older ++ b :: tail
  turns : survivingBoundaries ext (front ++ .responseItem b :: rest) =
    survivingBoundaries ext front ++ (front.length, b) :: later
  boundaries : tail.filter (isUserTurnBoundary ext) = later.map Prod.snd

theorem itemsAfter_grown (older : List ResponseItem) (rest : List RolloutItem) (b : ResponseItem)
    (item : RolloutItem) :
    itemsAfter ext policy older (.responseItem b :: (rest ++ [item])) =
      itemsStep ext policy (itemsAfter ext policy older (.responseItem b :: rest)) item :=
  itemsAfter_append older (.responseItem b :: rest) [item]

theorem survivingBoundaries_grown (front rest : List RolloutItem) (b : ResponseItem)
    (item : RolloutItem) :
    survivingBoundaries ext (front ++ .responseItem b :: (rest ++ [item])) =
      boundariesStep ext (survivingBoundaries ext (front ++ .responseItem b :: rest))
        (item, (front ++ .responseItem b :: rest).length) := by
  rw [← survivingBoundaries_concat, List.append_assoc]
  rfl

/-- What survives a line was there before it. -/
theorem survived_before {rest : List RolloutItem}
    (h : (front.length, b) ∈
      survivingBoundaries ext (front ++ .responseItem b :: (rest ++ [item]))) :
    (front.length, b) ∈ survivingBoundaries ext (front ++ .responseItem b :: rest) := by
  rw [survivingBoundaries_grown] at h
  cases item with
  | responseItem item =>
    simp only [boundariesStep] at h
    by_cases hboundary : isUserTurnBoundary ext item = true
    · rw [if_pos hboundary] at h
      rcases List.mem_append.mp h with hmem | hmem
      · exact hmem
      · -- the new turn is at another place
        have hidx := congrArg Prod.fst (List.mem_singleton.mp hmem)
        have hlength : front.length < (front ++ RolloutItem.responseItem b :: rest).length := by
          simp
        exact absurd hidx (Nat.ne_of_lt hlength)
    · rwa [if_neg hboundary] at h
  | eventMsg msg =>
    cases msg with
    | threadRolledBack numTurns => exact List.mem_of_mem_take h
    | _ => exact h
  | _ => exact h

namespace Splits

variable {rest : List RolloutItem} {tail : List ResponseItem} {later : List (Nat × ResponseItem)}

/-- A line that changes neither. -/
theorem quiet (h : Splits ext policy front b rest tail later)
    (hstep : ∀ history, itemsStep ext policy history item = history)
    (hturns : ∀ kept idx, boundariesStep ext kept (item, idx) = kept) :
    Splits ext policy front b (rest ++ [item]) tail later where
  history older := by rw [itemsAfter_grown, hstep, h.history]
  turns := by rw [survivingBoundaries_grown, hturns, h.turns]
  boundaries := h.boundaries

/-- An item is recorded. -/
theorem record (h : Splits ext policy front b rest tail later) (item : ResponseItem) :
    Splits ext policy front b (rest ++ [.responseItem item]) (tail ++ recordedItem ext policy item)
      (later ++ if isUserTurnBoundary ext item then
        [((front ++ RolloutItem.responseItem b :: rest).length, item)] else []) where
  history older := by
    rw [itemsAfter_grown, h.history]
    show older ++ b :: tail ++ recordedItem ext policy item = _
    rw [List.append_assoc]
    rfl
  turns := by
    rw [survivingBoundaries_grown, h.turns]
    simp only [boundariesStep]
    by_cases hboundary : isUserTurnBoundary ext item = true
    · rw [if_pos hboundary, if_pos hboundary, List.append_assoc]
      rfl
    · rw [if_neg hboundary, if_neg hboundary, List.append_nil]
  boundaries := by
    rw [List.filter_append, h.boundaries, boundaries_recordedItem, List.map_append,
      List.filter_singleton]
    by_cases hboundary : isUserTurnBoundary ext item = true
    · rw [if_pos hboundary, hboundary]
      rfl
    · rw [if_neg hboundary, eq_false_of_ne_true hboundary]
      rfl

/-- A rollback that the turn survives drops later ones only. -/
theorem le_length (h : Splits ext policy front b rest tail later)
    (hsurvives : (front.length, b) ∈
      (survivingBoundaries ext (front ++ .responseItem b :: rest)).rdrop n) :
    n ≤ later.length := by
  rw [h.turns] at hsurvives
  by_contra hlt
  have hfront : (front.length, b) ∈ survivingBoundaries ext front := by
    unfold List.rdrop at hsurvives
    rw [List.length_append, List.length_cons, List.take_append_of_le_length (by omega)] at hsurvives
    exact List.mem_of_mem_take hsurvives
  exact Nat.lt_irrefl _ ((located_survivingBoundaries ext front).lt_length hfront)

/-- Turns behind the one that survives are rolled back. -/
theorem rollBack (h : Splits ext policy front b rest tail later)
    (hb : isUserTurnBoundary ext b = true) {numTurns : UInt32}
    (hle : numTurns.toNat ≤ later.length) : ∃ tail',
    Splits ext policy front b (rest ++ [.eventMsg (.threadRolledBack numTurns)]) tail'
      (later.rdrop numTurns.toNat) := by
  have hcount : (b :: tail).countP (isUserTurnBoundary ext) = later.length + 1 := by
    rw [List.countP_cons_of_pos hb, List.countP_eq_length_filter, h.boundaries, List.length_map]
  have hkept : (survivingItems ext (b :: tail) numTurns.toNat).filter (isUserTurnBoundary ext) =
      b :: (later.rdrop numTurns.toNat).map Prod.snd := by
    rw [boundaries_survivingItems, List.filter_cons_of_pos hb, h.boundaries,
      ← List.singleton_append, rdrop_append_of_le (by rw [List.length_map]; exact hle), map_rdrop]
    rfl
  obtain ⟨tail', htail'⟩ := survivingItems_cons (by omega : numTurns.toNat <
    (b :: tail).countP (isUserTurnBoundary ext))
  refine ⟨tail', ?_, ?_, ?_⟩
  · intro older
    rw [itemsAfter_grown, h.history, ← htail']
    exact survivingItems_append older (by omega)
  · rw [survivingBoundaries_grown, h.turns]
    show (survivingBoundaries ext front ++ (front.length, b) :: later).rdrop numTurns.toNat = _
    rw [rdrop_append_of_le (by rw [List.length_cons]; omega), ← List.singleton_append,
      rdrop_append_of_le hle]
    rfl
  · rw [htail', List.filter_cons_of_pos hb] at hkept
    exact (List.cons.inj hkept).2

end Splits

theorem exists_splits (policy : TruncationPolicy) {rest : List RolloutItem}
    (hplain : ∀ compaction, RolloutItem.compacted compaction ∉ rest)
    (hsurvives : (front.length, b) ∈ survivingBoundaries ext (front ++ .responseItem b :: rest)) :
    ∃ tail later, Splits ext policy front b rest tail later := by
  have hb := (located_survivingBoundaries ext _).boundary _ hsurvives
  induction rest using List.reverseRecOn with
  | nil =>
    refine ⟨[], [], ?_, ?_, rfl⟩
    · intro older
      show older ++ recordedItem ext policy b = _
      rw [recordedItem_boundary hb]
    · rw [survivingBoundaries_concat]
      exact if_pos hb
  | append_singleton rest item ih =>
    obtain ⟨tail, later, hsplits⟩ := ih
      (fun compaction hmem => hplain compaction (List.mem_append_left _ hmem))
      (survived_before hsurvives)
    cases item with
    | responseItem item => exact ⟨_, _, hsplits.record item⟩
    | compacted compaction => exact absurd (List.mem_append_right _ (by simp)) (hplain compaction)
    | eventMsg msg =>
      cases msg with
      | threadRolledBack numTurns =>
        rw [survivingBoundaries_grown] at hsurvives
        obtain ⟨tail', hsplits'⟩ := hsplits.rollBack hb (hsplits.le_length hsurvives)
        exact ⟨tail', _, hsplits'⟩
      | _ => exact ⟨tail, later, hsplits.quiet (fun _ => rfl) fun _ _ => rfl⟩
    | _ => exact ⟨tail, later, hsplits.quiet (fun _ => rfl) fun _ _ => rfl⟩

/-! ### A fork of the last turns -/

/-- One more line, for the turns alone. -/
def turnsStep (ext : Externals) (turns : List ResponseItem) : RolloutItem → List ResponseItem
  | .responseItem item => turns ++ [item].filter (isUserTurnBoundary ext)
  | .eventMsg (.threadRolledBack numTurns) => turns.rdrop numTurns.toNat
  | _ => turns

theorem survivingTurns_concat (items : List RolloutItem) (item : RolloutItem) :
    (survivingBoundaries ext (items ++ [item])).map Prod.snd =
      turnsStep ext ((survivingBoundaries ext items).map Prod.snd) item := by
  rw [survivingBoundaries_concat]
  cases item with
  | responseItem item =>
    simp only [boundariesStep, turnsStep, List.filter_singleton]
    by_cases hboundary : isUserTurnBoundary ext item = true
    · rw [if_pos hboundary, hboundary, List.map_append]
      rfl
    · rw [if_neg hboundary, eq_false_of_ne_true hboundary]
      exact (List.append_nil _).symm
  | eventMsg msg =>
    cases msg with
    | threadRolledBack numTurns => exact (map_rdrop Prod.snd _ _).symm
    | _ => rfl
  | _ => rfl

/-- The boundaries of the history follow the turns, if nothing is compacted. -/
theorem boundaries_itemsStep (policy : TruncationPolicy) (history : List ResponseItem)
    (hplain : ∀ compaction, item ≠ .compacted compaction) :
    (itemsStep ext policy history item).filter (isUserTurnBoundary ext) =
      turnsStep ext (history.filter (isUserTurnBoundary ext)) item := by
  cases item with
  | responseItem item =>
    show (history ++ recordedItem ext policy item).filter _ = _
    rw [List.filter_append, boundaries_recordedItem]
    rfl
  | compacted compaction => exact absurd rfl (hplain compaction)
  | eventMsg msg =>
    cases msg with
    | threadRolledBack numTurns => exact boundaries_survivingItems ext history numTurns.toNat
    | _ => rfl
  | _ => rfl

/-- The surviving turns are the boundaries of the history, if nothing is compacted. -/
theorem survivingBoundaries_history (policy : TruncationPolicy)
    (hplain : ∀ compaction, RolloutItem.compacted compaction ∉ items) :
    (survivingBoundaries ext items).map Prod.snd =
      (itemsAfter ext policy [] items).filter (isUserTurnBoundary ext) := by
  induction items using List.reverseRecOn with
  | nil => rfl
  | append_singleton items item ih =>
    rw [survivingTurns_concat, itemsAfter_append,
      ih fun compaction hmem => hplain compaction (List.mem_append_left _ hmem)]
    refine (boundaries_itemsStep policy _ ?_).symm
    rintro compaction rfl
    exact hplain compaction (List.mem_append_right _ (List.mem_singleton.mpr rfl))

/-- The fork turns of a history. -/
def forkTurns (ext : Externals) (triggerTurn : Text → Bool) (history : List ResponseItem) :
    List ResponseItem :=
  history.filter (isForkTurnBoundary ext triggerTurn)

theorem forkTurns_eq (triggerTurn : Text → Bool) (history : List ResponseItem) :
    forkTurns ext triggerTurn history =
      (history.filter (isUserTurnBoundary ext)).filter (isForkTurnBoundary ext triggerTurn) := by
  unfold forkTurns
  rw [List.filter_filter]
  refine List.filter_congr fun item _ => ?_
  by_cases hfork : isForkTurnBoundary ext triggerTurn item = true
  · rw [hfork, isUserTurnBoundary_of_fork hfork]
    rfl
  · rw [eq_false_of_ne_true hfork]
    rfl

/-- Where the rollout is cut, and how its fork turns are split there. -/
theorem truncate_cases (ext : Externals) (triggerTurn : Text → Bool) (items : List RolloutItem)
    (n : Nat) :
    (n = 0 ∧ truncateRolloutToLastNForkTurns ext triggerTurn items n = []) ∨
    ((forkTurnPositionsInRollout ext triggerTurn items).length ≤ n ∧
      truncateRolloutToLastNForkTurns ext triggerTurn items n = items) ∨
    ∃ idx, n ≤ (forkTurnPositionsInRollout ext triggerTurn items).length ∧
      (forkTurnPositionsInRollout ext triggerTurn items)[
        (forkTurnPositionsInRollout ext triggerTurn items).length - n]? = some idx ∧
      truncateRolloutToLastNForkTurns ext triggerTurn items n = items.drop idx := by
  unfold truncateRolloutToLastNForkTurns
  by_cases hn : n = 0
  · exact .inl ⟨hn, if_pos hn⟩
  · rw [if_neg hn]
    by_cases hle : (forkTurnPositionsInRollout ext triggerTurn items).length ≤ n
    · exact .inr (.inl ⟨hle, if_pos hle⟩)
    · have hlt : (forkTurnPositionsInRollout ext triggerTurn items).length - n <
          (forkTurnPositionsInRollout ext triggerTurn items).length := by omega
      have hidx := List.getElem?_eq_getElem hlt
      refine .inr (.inr ⟨_, by omega, hidx, ?_⟩)
      simp only [if_neg hle, hidx]

/-- A position tells how many matches there are from it on. -/
theorem length_matches_of_position {older later : List (Nat × ResponseItem)}
    {entry : Nat × ResponseItem} {p : Nat × ResponseItem → Bool}
    (hsorted : (older ++ entry :: later).Pairwise fun older newer => older.1 < newer.1)
    (hentry : p entry = true) (hle : n ≤ (((older ++ entry :: later).filter p).map Prod.fst).length)
    (hidx : (((older ++ entry :: later).filter p).map Prod.fst)[
      (((older ++ entry :: later).filter p).map Prod.fst).length - n]? = some entry.1) :
    ((entry :: later).filter p).length = n := by
  have hnodup : (((older ++ entry :: later).filter p).map Prod.fst).Nodup :=
    List.pairwise_map.mpr ((hsorted.sublist List.filter_sublist).imp Nat.ne_of_lt)
  have hsplit : ((older ++ entry :: later).filter p).map Prod.fst =
      (older.filter p).map Prod.fst ++ entry.1 :: (later.filter p).map Prod.fst := by
    rw [List.filter_append, List.map_append, List.filter_cons_of_pos hentry]
    rfl
  rw [hsplit] at hnodup hle hidx
  have hhere : ((older.filter p).map Prod.fst ++ entry.1 :: (later.filter p).map Prod.fst)[
      ((older.filter p).map Prod.fst).length]? = some entry.1 := by
    rw [List.getElem?_append_right (Nat.le_refl _), Nat.sub_self]
    rfl
  have hlt := (List.getElem?_eq_some_iff.mp hidx).1
  have heq := (List.getElem?_inj hlt hnodup).mp (hidx.trans hhere.symm)
  simp only [List.length_append, List.length_cons, List.length_map] at heq hle
  rw [List.filter_cons_of_pos hentry, List.length_cons]
  omega

theorem forkTurns_append (triggerTurn : Text → Bool) (older newer : List ResponseItem) :
    forkTurns ext triggerTurn (older ++ newer) =
      forkTurns ext triggerTurn older ++ forkTurns ext triggerTurn newer :=
  List.filter_append _ _

theorem historyOf_eq (items : List RolloutItem) :
    historyOf ext policy items = itemsAfter ext policy [] items := by
  unfold historyOf
  rw [replay_items]

/-- **The last fork turns of a rollout are replayed to the end of its history**: to what the
    history holds from the `n`-th last of its fork turns on. -/
theorem forkTurns_history (ext : Externals) (triggerTurn : Text → Bool) (policy : TruncationPolicy)
    (items : List RolloutItem) (n : Nat)
    (hplain : ∀ compaction, RolloutItem.compacted compaction ∉
      truncateRolloutToLastNForkTurns ext triggerTurn items n) :
    ∃ front, items = front ++ truncateRolloutToLastNForkTurns ext triggerTurn items n ∧
      historyOf ext policy items = historyOf ext policy front ++
        historyOf ext policy (truncateRolloutToLastNForkTurns ext triggerTurn items n) ∧
      forkTurns ext triggerTurn (historyOf ext policy
          (truncateRolloutToLastNForkTurns ext triggerTurn items n)) =
        (forkTurns ext triggerTurn (historyOf ext policy items)).rtake n := by
  simp only [historyOf_eq]
  rcases truncate_cases ext triggerTurn items n with ⟨rfl, hcut⟩ | ⟨hle, hcut⟩ |
    ⟨idx, hle, hidx, hcut⟩
  · rw [hcut]
    refine ⟨items, (List.append_nil _).symm, (List.append_nil _).symm, ?_⟩
    rw [List.rtake_zero]
    rfl
  · rw [hcut] at hplain ⊢
    refine ⟨[], rfl, rfl, ?_⟩
    have hcount : (forkTurns ext triggerTurn (itemsAfter ext policy [] items)).length ≤ n := by
      rw [forkTurnPositions_eq, List.length_map] at hle
      rw [forkTurns_eq, ← survivingBoundaries_history policy hplain, List.filter_map,
        List.length_map]
      exact hle
    rw [rtake_of_length_le hcount]
  · rw [hcut] at hplain ⊢
    -- the cut is at a turn that survives
    rw [forkTurnPositions_eq] at hle hidx
    obtain ⟨⟨idx', b⟩, hentry, heq⟩ := List.mem_map.mp (List.mem_of_getElem? hidx)
    obtain rfl : idx' = idx := heq
    obtain ⟨hsurvives, hfork⟩ := List.mem_filter.mp hentry
    have hlocated := located_survivingBoundaries ext items
    have hline : items[idx']? = some (.responseItem b) := hlocated.located _ hsurvives
    obtain ⟨hlt, hget⟩ := List.getElem?_eq_some_iff.mp hline
    have hdrop : items.drop idx' = .responseItem b :: items.drop (idx' + 1) := by
      rw [← hget, List.cons_getElem_drop_succ]
    have hitems : items = items.take idx' ++ .responseItem b :: items.drop (idx' + 1) := by
      rw [← hdrop, List.take_append_drop]
    have hlength : (items.take idx').length = idx' := List.length_take_of_le (Nat.le_of_lt hlt)
    rw [hdrop] at hplain ⊢
    have hcutsurvives : ((items.take idx').length, b) ∈ survivingBoundaries ext
        (items.take idx' ++ .responseItem b :: items.drop (idx' + 1)) := by
      rw [hlength, ← hitems]
      exact hsurvives
    obtain ⟨tail, later, hsplits⟩ := exists_splits policy
      (fun compaction hmem => hplain compaction (List.mem_cons_of_mem _ hmem)) hcutsurvives
    have hturns := hsplits.turns
    rw [← hitems, hlength] at hturns
    have hpart : itemsAfter ext policy [] (.responseItem b :: items.drop (idx' + 1)) = b :: tail :=
      hsplits.history []
    have hwhole : itemsAfter ext policy [] items =
        itemsAfter ext policy [] (items.take idx') ++ b :: tail := by
      conv_lhs => rw [hitems, itemsAfter_append]
      exact hsplits.history _
    have hcount : (forkTurns ext triggerTurn (b :: tail)).length = n := by
      have hsorted := hlocated.sorted
      rw [hturns] at hsorted hle hidx
      rw [← length_matches_of_position hsorted hfork hle hidx, forkTurns_eq,
        List.filter_cons_of_pos (hlocated.boundary _ hsurvives), hsplits.boundaries]
      show ((((idx', b) :: later).map Prod.snd).filter _).length = _
      rw [List.filter_map, List.length_map]
      rfl
    refine ⟨items.take idx', hitems, ?_, ?_⟩
    · rw [hpart]
      exact hwhole
    · rw [hpart, hwhole]
      rw [forkTurns_append, rtake_append_of_le (Nat.le_of_eq hcount.symm)]
      exact (rtake_of_length_le (Nat.le_of_eq hcount)).symm

/-- Every instruction triggers a turn. -/
def alwaysTriggers : Text → Bool := fun _ => true

/-- Two turns of users, and one of an agent between them. -/
def threeTurns : List RolloutItem :=
  [.responseItem (userMessage "a".toList), .responseItem agentInstruction,
    .responseItem (userMessage "b".toList)]

/-- The last two turns of three. -/
theorem threeTurns_history :
    ∃ front, threeTurns = front ++
        truncateRolloutToLastNForkTurns oneInstruction alwaysTriggers threeTurns 2 ∧
      historyOf oneInstruction (.bytes 10000) threeTurns =
        historyOf oneInstruction (.bytes 10000) front ++ historyOf oneInstruction (.bytes 10000)
          (truncateRolloutToLastNForkTurns oneInstruction alwaysTriggers threeTurns 2) ∧
      forkTurns oneInstruction alwaysTriggers (historyOf oneInstruction (.bytes 10000)
          (truncateRolloutToLastNForkTurns oneInstruction alwaysTriggers threeTurns 2)) =
        (forkTurns oneInstruction alwaysTriggers
          (historyOf oneInstruction (.bytes 10000) threeTurns)).rtake 2 := by
  refine forkTurns_history oneInstruction alwaysTriggers (.bytes 10000) threeTurns 2 ?_
  intro compaction
  have hcut : truncateRolloutToLastNForkTurns oneInstruction alwaysTriggers threeTurns 2 =
      [.responseItem agentInstruction, .responseItem (userMessage "b".toList)] := by
    decide +kernel
  rw [hcut]
  simp

/-! ### What reaches the fork -/

/-- **The fork inherits the instructions**: those of its history are the ones that survive in the
    rollout and pass the filter, and its user messages are all that survive. -/
structure Inherits (ext : Externals) (triggerTurn : Text → Bool) (policy : TruncationPolicy)
    (items : List RolloutItem) : Prop where
  instructions : (historyOf ext policy (forkedRolloutItems ext triggerTurn items
      .fullHistory)).filter (isUserTurnBoundary ext) =
    ((historyOf ext policy items).filter (isUserTurnBoundary ext)).filter fun item =>
      keepForkedRolloutItem (.responseItem item)
  userMessages : visibleUserMessages ext policy (forkedRolloutItems ext triggerTurn items
      .fullHistory) = visibleUserMessages ext policy items

/-- The rollback of `n` turns drops only turns that the fork keeps, or all of these. -/
def DropsInherited (ext : Externals) (history : List ResponseItem) (n : Nat) : Prop :=
  (∀ item ∈ (history.filter (isUserTurnBoundary ext)).rtake n,
      keepForkedRolloutItem (.responseItem item) = true) ∨
    ∀ item ∈ (history.filter (isUserTurnBoundary ext)).rdrop n,
      ¬ keepForkedRolloutItem (.responseItem item) = true

theorem keepForked_of_real {item : ResponseItem} (h : isRealUserMessage ext item = true) :
    keepForkedRolloutItem (.responseItem item) = true := by
  obtain ⟨text, hparse⟩ := Option.isSome_iff_exists.mp h
  cases item with
  | message id role content phase =>
    simp only [parseTurnItemUserMessage] at hparse
    by_cases huser : (role == "user".toList) = true
    · exact if_pos (.inr (.inr (beq_iff_eq.mp huser)))
    · rw [if_neg huser] at hparse
      cases hparse
  | _ => cases hparse

theorem visibleUserMessages_boundaries (items : List RolloutItem) :
    visibleUserMessages ext policy items =
      ((historyOf ext policy items).filter (isUserTurnBoundary ext)).filter
        (isRealUserMessage ext) :=
  filter_real _

/-- The user messages are among the instructions. -/
theorem inherits_iff_instructions : Inherits ext triggerTurn policy items ↔
    (historyOf ext policy (items.filter keepForkedRolloutItem)).filter (isUserTurnBoundary ext) =
      ((historyOf ext policy items).filter (isUserTurnBoundary ext)).filter fun item =>
        keepForkedRolloutItem (.responseItem item) := by
  constructor
  · exact Inherits.instructions
  · intro h
    refine ⟨h, ?_⟩
    show visibleUserMessages ext policy (items.filter keepForkedRolloutItem) = _
    rw [visibleUserMessages_boundaries, visibleUserMessages_boundaries, h, List.filter_filter]
    refine List.filter_congr fun item _ => ?_
    by_cases hreal : isRealUserMessage ext item = true
    · rw [hreal, keepForked_of_real hreal]
      rfl
    · rw [eq_false_of_ne_true hreal]
      rfl

/-- **One more line**: the fork goes on inheriting the instructions. -/
theorem inherits_concat_iff (hinherits : Inherits ext triggerTurn policy front)
    (hplain : ∀ compaction, item ≠ .compacted compaction) :
    Inherits ext triggerTurn policy (front ++ [item]) ↔
      ∀ numTurns, item = .eventMsg (.threadRolledBack numTurns) →
        DropsInherited ext (historyOf ext policy front) numTurns.toNat := by
  rw [inherits_iff_instructions] at hinherits ⊢
  simp only [historyOf_eq] at hinherits ⊢
  rw [List.filter_append, itemsAfter_append, itemsAfter_append]
  have hparent : (itemsAfter ext policy (itemsAfter ext policy [] front) [item]).filter
      (isUserTurnBoundary ext) = turnsStep ext
        ((itemsAfter ext policy [] front).filter (isUserTurnBoundary ext)) item :=
    boundaries_itemsStep policy _ hplain
  have hkept : keepForkedRolloutItem item = true →
      (itemsAfter ext policy (itemsAfter ext policy [] (front.filter keepForkedRolloutItem))
        ([item].filter keepForkedRolloutItem)).filter (isUserTurnBoundary ext) =
          turnsStep ext ((itemsAfter ext policy [] (front.filter keepForkedRolloutItem)).filter
            (isUserTurnBoundary ext)) item := by
    intro hkeep
    rw [List.filter_singleton, hkeep]
    exact boundaries_itemsStep policy _ hplain
  have hdropped : ¬ keepForkedRolloutItem item = true →
      itemsAfter ext policy (itemsAfter ext policy [] (front.filter keepForkedRolloutItem))
        ([item].filter keepForkedRolloutItem) =
          itemsAfter ext policy [] (front.filter keepForkedRolloutItem) := by
    intro hkeep
    rw [List.filter_singleton, eq_false_of_ne_true hkeep]
    rfl
  rw [hparent]
  cases item with
  | responseItem item =>
    refine iff_of_true ?_ fun _ h => by cases h
    show _ = List.filter _ (_ ++ [item].filter _)
    rw [List.filter_append, ← hinherits]
    by_cases hkeep : keepForkedRolloutItem (.responseItem item) = true
    · rw [hkept hkeep]
      show _ ++ _ = _ ++ _
      congr 1
      symm
      rw [List.filter_eq_self]
      intro kept hmem
      rw [List.mem_singleton.mp (List.mem_of_mem_filter hmem)]
      exact hkeep
    · rw [hdropped hkeep]
      have hnone : (([item].filter (isUserTurnBoundary ext)).filter fun x =>
          keepForkedRolloutItem (.responseItem x)) = [] := by
        rw [List.filter_eq_nil_iff]
        intro kept hmem
        rw [List.mem_singleton.mp (List.mem_of_mem_filter hmem)]
        exact hkeep
      rw [hnone, List.append_nil]
  | compacted compaction => exact absurd rfl (hplain compaction)
  | eventMsg msg =>
    cases msg with
    | threadRolledBack numTurns =>
      rw [hkept rfl, hinherits]
      show List.rdrop _ numTurns.toNat = (List.rdrop _ numTurns.toNat).filter _ ↔ _
      rw [eq_comm, filter_rdrop_eq_iff]
      constructor
      · intro h n heq
        obtain rfl := EventMsg.threadRolledBack.inj (RolloutItem.eventMsg.inj heq)
        exact h
      · exact fun h => h numTurns rfl
    | _ => exact iff_of_true ((hkept rfl).trans hinherits) fun _ h => by cases h
  | turnContext context =>
    rw [hdropped Bool.false_ne_true]
    exact iff_of_true hinherits fun _ h => by cases h
  | sessionMeta => exact iff_of_true ((hkept rfl).trans hinherits) fun _ h => by cases h

/-- **What a fork inherits.**  What the fork mode chooses of a rollout is replayed to the end of its
    history; and a fork gets the instructions that survive, after every line of what is chosen,
    exactly if each rollback drops only turns that pass the filter of the fork, or all of these. -/
theorem forked_inherits_iff (ext : Externals) (triggerTurn : Text → Bool)
    (policy : TruncationPolicy) (items : List RolloutItem) (mode : SpawnAgentForkMode)
    (hplain : ∀ compaction, RolloutItem.compacted compaction ∉
      chosenRolloutItems ext triggerTurn items mode) :
    (∃ front, items = front ++ chosenRolloutItems ext triggerTurn items mode ∧
      historyOf ext policy items = historyOf ext policy front ++
        historyOf ext policy (chosenRolloutItems ext triggerTurn items mode)) ∧
    ((∀ part, part <+: chosenRolloutItems ext triggerTurn items mode →
        Inherits ext triggerTurn policy part) ↔
      ∀ part numTurns rest, chosenRolloutItems ext triggerTurn items mode =
          part ++ .eventMsg (.threadRolledBack numTurns) :: rest →
        DropsInherited ext (historyOf ext policy part) numTurns.toNat) := by
  refine ⟨?_, ?_⟩
  · cases mode with
    | fullHistory => exact ⟨[], rfl, rfl⟩
    | lastNTurns n =>
      obtain ⟨front, hitems, hhistory, -⟩ :=
        forkTurns_history ext triggerTurn policy items n hplain
      exact ⟨front, hitems, hhistory⟩
  · generalize chosenRolloutItems ext triggerTurn items mode = chosen at hplain ⊢
    have hnil : Inherits ext triggerTurn policy [] := ⟨rfl, rfl⟩
    have hstep : ∀ part item, part ++ [item] <+: chosen → Inherits ext triggerTurn policy part →
        (Inherits ext triggerTurn policy (part ++ [item]) ↔
          ∀ numTurns, item = .eventMsg (.threadRolledBack numTurns) →
            DropsInherited ext (historyOf ext policy part) numTurns.toNat) := by
      intro part item hbegins hpart
      refine inherits_concat_iff hpart ?_
      rintro compaction rfl
      exact hplain compaction (hbegins.subset (by simp))
    rw [prefixes_iff hnil hstep]
    constructor
    · intro h part numTurns rest heq
      exact h part _ rest heq numTurns rfl
    · rintro h part _ rest heq numTurns rfl
      exact h part numTurns rest heq

/-- The turn of an agent is rolled back, after that of a user. -/
def rolledBackInstruction : List RolloutItem :=
  [.responseItem (userMessage "a".toList), .responseItem agentInstruction,
    .eventMsg (.threadRolledBack 1)]

theorem rolledBackInstruction_inherits :
    (∃ front, rolledBackInstruction = front ++
        chosenRolloutItems oneInstruction alwaysTriggers rolledBackInstruction .fullHistory ∧
      historyOf oneInstruction (.bytes 10000) rolledBackInstruction =
        historyOf oneInstruction (.bytes 10000) front ++ historyOf oneInstruction (.bytes 10000)
          (chosenRolloutItems oneInstruction alwaysTriggers rolledBackInstruction .fullHistory)) ∧
    ((∀ part, part <+: chosenRolloutItems oneInstruction alwaysTriggers rolledBackInstruction
        .fullHistory → Inherits oneInstruction alwaysTriggers (.bytes 10000) part) ↔
      ∀ part numTurns rest, chosenRolloutItems oneInstruction alwaysTriggers rolledBackInstruction
          .fullHistory = part ++ .eventMsg (.threadRolledBack numTurns) :: rest →
        DropsInherited oneInstruction (historyOf oneInstruction (.bytes 10000) part)
          numTurns.toNat) :=
  forked_inherits_iff oneInstruction alwaysTriggers (.bytes 10000) rolledBackInstruction
    .fullHistory (by simp [chosenRolloutItems, rolledBackInstruction])

/-- **A fork can lose a user message**: its parent rolled an instruction back, which the fork does
    not have. -/
theorem rolledBackInstruction_lost :
    ¬ Inherits oneInstruction alwaysTriggers (.bytes 10000) rolledBackInstruction := by
  intro h
  have hmessages := h.userMessages
  revert hmessages
  decide +kernel

end CodexMonitor.Rollout
