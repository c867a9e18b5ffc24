import CodexMonitor.Conversation.Reducer
import Mathlib.Data.List.Range

namespace CodexMonitor.Conversation

open Text

/-!
# Conversation — the ids of a thread's items

Items are looked up, updated and keyed by their id.  The actions that add or replace an item do
so in the place of the item with its id; a piece of an agent message is the exception, which is
added at the end when the item with its id is of another kind.

* `nodup_…` — what the actions do to a list with distinct ids.
* `KindsAgree` — no agent message has the id of another kind of item.
* `item_ids_distinct` — every sequence of such actions.
-/

variable {s : ThreadState} {list : List ConversationItem} {itemId threadId : Text}

/-! ### Lists -/

theorem nodup_prepareThreadItems {n : Option Nat} (h : (ids list).Nodup) :
    (ids (prepareThreadItems n list)).Nodup :=
  (ids_prepareThreadItems_sublist n list).nodup h

/-- An item that is put has its id; the others have theirs. -/
theorem ids_putItem (f : Option Body → Body) (list : List ConversationItem) :
    ids (putItem itemId f list) = if itemId ∈ ids list then ids list else ids list ++ [itemId] := by
  induction list with
  | nil => rfl
  | cons existing rest ih =>
    unfold putItem
    by_cases hid : existing.id = itemId
    · rw [if_pos hid, if_pos (hid ▸ List.mem_cons_self)]
      show itemId :: ids rest = existing.id :: ids rest
      rw [hid]
    · have hmem : itemId ∈ ids (existing :: rest) ↔ itemId ∈ ids rest :=
        List.mem_cons.trans (or_iff_right fun h => hid h.symm)
      rw [if_neg hid]
      show existing.id :: ids (putItem itemId f rest) = _
      rw [ih, if_congr hmem rfl rfl]
      split <;> rfl

theorem nodup_putItem {f : Option Body → Body} (h : (ids list).Nodup) :
    (ids (putItem itemId f list)).Nodup := by
  rw [ids_putItem]
  split
  · exact h
  next hnew =>
    rw [← List.concat_eq_append]
    exact List.Nodup.concat hnew h

theorem ids_updateTool (f : Tool → Tool) (list : List ConversationItem) :
    ids (updateTool itemId f list) = ids list := by
  induction list with
  | nil => rfl
  | cons existing rest ih =>
    unfold updateTool
    split
    · split <;> rfl
    · show existing.id :: ids (updateTool itemId f rest) = _
      rw [ih]
      rfl

/-- The items with the id are messages. -/
def OnlyMessages (itemId : Text) (list : List ConversationItem) : Prop :=
  ∀ item ∈ list, item.id = itemId → ∃ m, item.body = .message m

/-- A message is put like any item, if no item of another kind has its id. -/
theorem nodup_putMessage {f : Message → Message} {text : Text} (h : (ids list).Nodup)
    (honly : OnlyMessages itemId list) : (ids (putMessage itemId f text list)).Nodup := by
  have hids : ids (putMessage itemId f text list) = ids list ∨
      itemId ∉ ids list ∧ ids (putMessage itemId f text list) = ids list ++ [itemId] := by
    clear h
    induction list with
    | nil => exact .inr ⟨List.not_mem_nil, rfl⟩
    | cons existing rest ih =>
      unfold putMessage
      by_cases hid : existing.id = itemId
      · obtain ⟨m, hbody⟩ := honly existing List.mem_cons_self hid
        simp only [hid, hbody, if_true]
        left
        show itemId :: ids rest = existing.id :: ids rest
        rw [hid]
      · rw [if_neg hid]
        show existing.id :: ids (putMessage itemId f text rest) = _ ∨ _
        rcases ih fun item hitem => honly item (List.mem_cons_of_mem _ hitem) with heq | ⟨hnew, heq⟩
        · left
          rw [heq]
          rfl
        · right
          refine ⟨fun hmem => ?_, ?_⟩
          · rcases List.mem_cons.mp hmem with heq' | hmem
            · exact hid heq'.symm
            · exact hnew hmem
          · show existing.id :: ids (putMessage itemId f text rest) = _
            rw [heq]
            rfl
  rcases hids with heq | ⟨hnew, heq⟩
  · rw [heq]
    exact h
  · rw [heq, ← List.concat_eq_append]
    exact List.Nodup.concat hnew h

theorem lastItems_sublist (n : Nat) (list : List ConversationItem) :
    List.Sublist (lastItems n list) list :=
  List.drop_sublist _ _

theorem nodup_trimItems {n : Nat} (h : (ids list).Nodup) : (ids (trimItems n list)).Nodup := by
  unfold trimItems
  split
  · exact h
  · exact ((lastItems_sublist n list).map ConversationItem.id).nodup h

/-! ### Reviews -/

theorem dropLatestLocalReviewStart_sublist (list : List ConversationItem) :
    List.Sublist (dropLatestLocalReviewStart list) list := by
  unfold dropLatestLocalReviewStart
  have hsub : List.Sublist (list.reverse.eraseP isLocalReviewStart) list.reverse :=
    List.eraseP_sublist
  simpa using hsub.reverse

theorem nodup_reviewUpsert {item nextItem : ConversationItem} {next : List ConversationItem}
    (h : (ids list).Nodup) (hnext : reviewUpsert list item = some (next, nextItem)) :
    (ids next).Nodup := by
  unfold reviewUpsert at hnext
  split at hnext
  next review _ =>
    simp only at hnext
    split_ifs at hnext <;> cases hnext
    · exact ((dropLatestLocalReviewStart_sublist list).map ConversationItem.id).nodup h
    · exact h
  next =>
    cases hnext
    exact h

theorem toString_injective {m n : Nat} (h : (toString m).toList = (toString n).toList) : m = n := by
  have hdigits : Nat.toDigits 10 m = Nat.toDigits 10 n := by
    simpa [Nat.toString_eq_repr, Nat.repr_eq_ofList_toDigits] using h
  have hvalue := congrArg (fun digits => Nat.ofDigitChars 10 digits 0) hdigits
  simpa [Nat.ofDigitChars_toDigits] using hvalue

/-- Every suffix that was tried is taken, if the one that was chosen is. -/
theorem uniqueSuffix_taken {existingIds : List Text} {id : Text} {turns suffix : Nat}
    (h : suffixedId id (uniqueSuffix existingIds id turns suffix) ∈ existingIds) :
    ∀ j ≤ turns, suffixedId id (suffix + j) ∈ existingIds := by
  induction turns generalizing suffix with
  | zero =>
    intro j hj
    obtain rfl : j = 0 := by omega
    exact h
  | succ turns ih =>
    unfold uniqueSuffix at h
    split at h
    next htaken =>
      intro j hj
      cases j with
      | zero => exact htaken
      | succ j =>
        have hnext := ih h j (by omega)
        rwa [show suffix + 1 + j = suffix + (j + 1) by omega] at hnext
    next hfree => exact absurd h hfree

/-- **A review gets a new id**: one of as many suffixes as there are items, and one more. -/
theorem ensureUniqueReviewId_not_mem (list : List ConversationItem) (item : ConversationItem) :
    (ensureUniqueReviewId list item).id ∉ ids list := by
  unfold ensureUniqueReviewId
  split
  · intro hmem
    have htaken := uniqueSuffix_taken hmem
    have hdistinct : ((List.range' 1 (list.length + 1)).map (suffixedId item.id)).Nodup := by
      refine List.Nodup.map_on ?_ List.nodup_range'
      intro m _ n _ heq
      exact toString_injective (List.append_cancel_left heq)
    have hsubset : (List.range' 1 (list.length + 1)).map (suffixedId item.id) ⊆ ids list := by
      intro candidate hcandidate
      obtain ⟨suffix, hsuffix, rfl⟩ := List.mem_map.mp hcandidate
      obtain ⟨hge, hlt⟩ := List.mem_range'_1.mp hsuffix
      have := htaken (suffix - 1) (by omega)
      rwa [show 1 + (suffix - 1) = suffix by omega] at this
    have hlength := (List.subperm_of_subset hdistinct hsubset).length_le
    simp [ids] at hlength
  next hnew => exact hnew

/-! ### States -/

/-- The items of every thread have distinct ids. -/
def Unique (s : ThreadState) : Prop := ∀ threadId, (ids (s.itemsByThread threadId)).Nodup

theorem unique_initialState : Unique initialState := fun _ => List.nodup_nil

theorem Unique.congr {s' : ThreadState} (h : Unique s)
    (hitems : s'.itemsByThread = s.itemsByThread) : Unique s' := by
  intro threadId
  rw [hitems]
  exact h threadId

theorem Unique.setItems (h : Unique s) (hlist : (ids list).Nodup) :
    Unique (s.setItems threadId list) := by
  intro t
  by_cases ht : t = threadId
  · subst ht
    simpa [ThreadState.setItems] using hlist
  · simpa [ThreadState.setItems, ht] using h t

theorem Unique.storeItems (h : Unique s) (hlist : (ids list).Nodup) :
    Unique (s.storeItems threadId list) :=
  h.setItems (nodup_prepareThreadItems hlist)

/-! ### Actions -/

/-- The payload of `setThreadItems` has distinct ids, and the clock gives a new one. -/
def FreshIds (s : ThreadState) : ThreadAction → Prop
  | .setThreadItems _ items => (ids items).Nodup
  | .addAssistantMessage threadId _ now =>
      (toString now).toList ++ "-assistant".toList ∉ ids (s.itemsByThread threadId)
  | _ => True

/-- An agent message has the id of no item of another kind. -/
def KindsAgree (s : ThreadState) : ThreadAction → Prop
  | .appendAgentDelta _ threadId itemId _ _ | .completeAgentMessage _ threadId itemId _ _ =>
      OnlyMessages itemId (s.itemsByThread threadId)
  | _ => True

theorem unique_reduceThreadLifecycle {action : ThreadAction} (h : Unique s) :
    Unique (reduceThreadLifecycle s action) := by
  cases action with
  | removeThread w threadId =>
    intro t
    show (ids (Function.update s.itemsByThread threadId [] t)).Nodup
    by_cases ht : t = threadId
    · subst ht
      rw [Function.update_self]
      exact List.nodup_nil
    · rw [Function.update_of_ne ht]
      exact h t
  | setActiveThreadId w threadId =>
    unfold reduceThreadLifecycle
    simp only
    split <;> exact h.congr rfl
  | markProcessing threadId isProcessing timestamp =>
    unfold reduceThreadLifecycle ThreadState.markProcessing
    simp only
    split <;> exact h.congr rfl
  | setThreads w threads sortKey preserveAnchors =>
    unfold reduceThreadLifecycle ThreadState.setThreads
    simp only
    split <;> exact h.congr rfl
  | ensureThread w threadId =>
    unfold reduceThreadLifecycle
    simp only
    split <;> exact h.congr rfl
  | hideThread w threadId =>
    unfold reduceThreadLifecycle
    simp only
    split <;> exact h.congr rfl
  | setThreadParent threadId parentId =>
    unfold reduceThreadLifecycle
    simp only
    split <;> exact h.congr rfl
  | setThreadTimestamp w threadId timestamp =>
    unfold reduceThreadLifecycle
    simp only
    split <;> exact h.congr rfl
  | _ => exact h.congr rfl

theorem unique_reduceThreadConfig {action : ThreadAction} (h : Unique s) :
    Unique (reduceThreadConfig s action) := by
  unfold reduceThreadConfig
  split
  · simp only
    split
    · exact h
    · intro t
      simp only
      cases normalizeMaxItemsPerThread _ with
      | some n => exact nodup_trimItems (h t)
      | none => exact h t
  · exact h

theorem Unique.maybeRenameThreadFromAgent {workspaceId : Text} {items : List ConversationItem}
    {hasCustomName : Bool} (h : Unique s) :
    Unique (s.maybeRenameThreadFromAgent workspaceId threadId items itemId hasCustomName) := by
  unfold ThreadState.maybeRenameThreadFromAgent
  split
  · exact h
  · split <;> exact h.congr rfl

theorem Unique.putAgentMessage {workspaceId text : Text} {f : Message → Message}
    {hasCustomName : Bool} (h : Unique s)
    (honly : OnlyMessages itemId (s.itemsByThread threadId)) :
    Unique (s.putAgentMessage workspaceId threadId itemId text f hasCustomName) := by
  apply Unique.maybeRenameThreadFromAgent
  exact h.setItems (nodup_prepareThreadItems (nodup_putMessage (h threadId) honly))

theorem Unique.upsert {workspaceId : Text} {item : ConversationItem} {hasCustomName : Bool}
    (h : Unique s) : Unique (s.upsert workspaceId threadId item hasCustomName) := by
  unfold ThreadState.upsert
  simp only
  split
  · exact h
  next next nextItem hnext =>
    have hstored : Unique (s.storeItems threadId (upsertItem next nextItem)) :=
      h.storeItems (nodup_ids_upsertItem nextItem (nodup_reviewUpsert (h threadId) hnext))
    split
    · exact hstored.congr rfl
    · exact hstored

theorem unique_reduceThreadItems {action : ThreadAction} (h : Unique s)
    (hfresh : FreshIds s action) (hkinds : KindsAgree s action) :
    Unique (reduceThreadItems s action) := by
  cases action with
  | addAssistantMessage t text now => exact h.storeItems (nodup_concat (h t) hfresh)
  | appendAgentDelta w t itemId delta hasCustomName => exact h.putAgentMessage hkinds
  | completeAgentMessage w t itemId text hasCustomName => exact h.putAgentMessage hkinds
  | upsertItem w t item hasCustomName => exact h.upsert
  | setThreadItems t items => exact h.storeItems hfresh
  | appendReasoningSummary t itemId delta => exact h.storeItems (nodup_putItem (h t))
  | appendReasoningSummaryBoundary t itemId => exact h.storeItems (nodup_putItem (h t))
  | appendReasoningContent t itemId delta => exact h.storeItems (nodup_putItem (h t))
  | appendPlanDelta t itemId delta => exact h.storeItems (nodup_putItem (h t))
  | appendToolOutput t itemId delta =>
    unfold reduceThreadItems
    simp only
    split
    · apply h.storeItems
      rw [ids_updateTool]
      exact h t
    · exact h
  | _ => exact h

theorem unique_reduceThreadSnapshots {action : ThreadAction} (h : Unique s) :
    Unique (reduceThreadSnapshots s action) := by
  unfold reduceThreadSnapshots
  split
  · split
    · exact h
    · exact h.congr rfl
  · exact h

/-- The actions of the items are left to their slice. -/
theorem freshIds_slices {action : ThreadAction} (h : FreshIds s action) :
    FreshIds (reduceThreadConfig (reduceThreadLifecycle s action) action) action := by
  cases action <;> exact h

theorem kindsAgree_slices {action : ThreadAction} (h : KindsAgree s action) :
    KindsAgree (reduceThreadConfig (reduceThreadLifecycle s action) action) action := by
  cases action <;> exact h

/-- One action. -/
theorem unique_threadReducer {action : ThreadAction} (h : Unique s)
    (hfresh : FreshIds s action) (hkinds : KindsAgree s action) :
    Unique (threadReducer s action) := by
  have hlifecycle : Unique (reduceThreadLifecycle s action) := unique_reduceThreadLifecycle h
  have hconfig : Unique (reduceThreadConfig (reduceThreadLifecycle s action) action) :=
    unique_reduceThreadConfig hlifecycle
  exact unique_reduceThreadSnapshots
    (unique_reduceThreadItems hconfig (freshIds_slices hfresh) (kindsAgree_slices hkinds))

/-- **Item ids stay distinct.** In every sequence of actions with fresh ids in which no agent
    message comes with the id of an item of another kind, the items of every thread have
    distinct ids. -/
theorem item_ids_distinct (actions : List ThreadAction) (s : ThreadState)
    (hguard : threadMachine.Guarded (fun s action => FreshIds s action ∧ KindsAgree s action)
      threadMachine.init actions)
    (hrun : threadMachine.run threadMachine.init actions = some s) (threadId : Text) :
    (ids (s.itemsByThread threadId)).Nodup := by
  have hunique : Unique s := by
    refine Machine.run_invariant ?_ unique_initialState hguard hrun
    rintro s action _ h ⟨hfresh, hkinds⟩ ⟨⟩
    exact unique_threadReducer h hfresh hkinds
  exact hunique threadId

/-- An agent message in two pieces, behind a reasoning. -/
def streamedRun : List ThreadAction :=
  [.appendReasoningSummary "t".toList "r".toList "Thinking".toList,
    .appendAgentDelta "w".toList "t".toList "m".toList "Hel".toList false,
    .appendAgentDelta "w".toList "t".toList "m".toList "lo".toList false]

theorem streamedRun_guarded :
    threadMachine.Guarded (fun s action => FreshIds s action ∧ KindsAgree s action)
      threadMachine.init streamedRun := by
  refine ⟨⟨trivial, trivial⟩, ?_⟩
  rintro _ ⟨⟩
  refine ⟨⟨trivial, ?_⟩, ?_⟩
  · intro item hitem hid
    obtain rfl := List.mem_singleton.mp hitem
    cases hid
  rintro _ ⟨⟩
  refine ⟨⟨trivial, ?_⟩, fun _ _ => trivial⟩
  intro item hitem hid
  rcases List.mem_cons.mp hitem with rfl | hitem
  · cases hid
  · obtain rfl := List.mem_singleton.mp hitem
    exact ⟨_, rfl⟩

/-- The two pieces make one item. -/
theorem nodup_streamedRun :
    ∃ s, threadMachine.run threadMachine.init streamedRun = some s ∧
      ids (s.itemsByThread "t".toList) = ["r".toList, "m".toList] ∧
      (ids (s.itemsByThread "t".toList)).Nodup :=
  ⟨_, rfl, rfl, item_ids_distinct streamedRun _ streamedRun_guarded rfl "t".toList⟩

/-- A piece of an agent message with the id of a reasoning. -/
def collidingRun : List ThreadAction :=
  [.appendReasoningSummary "t".toList "x".toList "Thinking".toList,
    .appendAgentDelta "w".toList "t".toList "x".toList "Hello".toList false]

/-- **Two items with one id.** The ids of the actions are fresh, and the message is added behind
    the reasoning with its id. -/
theorem collidingRun_repeats :
    threadMachine.Guarded FreshIds threadMachine.init collidingRun ∧
      ∃ s, threadMachine.run threadMachine.init collidingRun = some s ∧
        ids (s.itemsByThread "t".toList) = ["x".toList, "x".toList] ∧
        ¬ (ids (s.itemsByThread "t".toList)).Nodup := by
  refine ⟨Machine.guarded_of_forall ?_ _, _, rfl, rfl, ?_⟩
  · intro action haction s
    simp only [collidingRun, List.mem_cons, List.not_mem_nil, or_false] at haction
    rcases haction with rfl | rfl
    · trivial
    · trivial
  · intro h
    exact (List.nodup_cons.mp h).1 List.mem_cons_self

end CodexMonitor.Conversation
