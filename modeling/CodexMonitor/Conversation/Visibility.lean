import CodexMonitor.Conversation.Reducer

namespace CodexMonitor.Conversation

open Text

/-!
# Conversation — hidden threads and the lists of threads

A thread that was hidden in a workspace does not come back into its list, and no thread is
listed twice, whatever list refreshes and live events bring.

* `Listable` — a list that a workspace may show.
* `listable_…` — the ways in which the reducer makes lists keep it.
* `visible_threadReducer`, `hidden_threads_stay_hidden` — one action, and every sequence.
-/

variable {s : ThreadState} {workspaceId : Text} {list : List ThreadSummary}

/-- The list has no hidden thread and no thread twice. -/
structure Listable (s : ThreadState) (workspaceId : Text) (list : List ThreadSummary) : Prop where
  distinct : (threadIds list).Nodup
  shown : ∀ id ∈ threadIds list, id ∉ s.hiddenThreadIdsByWorkspace workspaceId

/-- Every list of the state is one. -/
def Visible (s : ThreadState) : Prop := ∀ w, Listable s w (s.threadsByWorkspace w)

theorem visible_initialState : Visible initialState := fun _ => ⟨List.nodup_nil, nofun⟩

/-! ### Lists -/

/-- A list with some of the threads of another, in any order. -/
theorem Listable.of_subperm {other : List ThreadSummary} (h : Listable s workspaceId list)
    (hsub : (threadIds other).Subperm (threadIds list)) : Listable s workspaceId other where
  distinct := by
    obtain ⟨ids', hperm, hsublist⟩ := hsub
    exact hperm.nodup_iff.mp (hsublist.nodup h.distinct)
  shown := fun id hid => h.shown id (hsub.subset hid)

theorem threadIds_mapThread {threadId : Text} {f : ThreadSummary → ThreadSummary}
    (hf : ∀ thread, (f thread).id = thread.id) (list : List ThreadSummary) :
    threadIds (mapThread threadId f list) = threadIds list := by
  unfold threadIds mapThread
  rw [List.map_map]
  apply List.map_congr_left
  intro thread _
  show (if thread.id = threadId then f thread else thread).id = thread.id
  split
  · exact hf thread
  · rfl

theorem threadIds_bumpThread_perm (threadId : Text) (list : List ThreadSummary) :
    (threadIds (bumpThread threadId list)).Perm (threadIds list) := by
  apply List.Perm.map
  have hsplit : bumpThread threadId list = list.filter (fun thread => thread.id = threadId) ++
      list.filter (fun thread => !decide (thread.id = threadId)) := by
    unfold bumpThread
    congr 1
    apply List.filter_congr
    intro thread _
    exact decide_not
  rw [hsplit]
  exact List.filter_append_perm _ list

theorem Listable.mapThread {threadId : Text} {f : ThreadSummary → ThreadSummary}
    (h : Listable s workspaceId list) (hf : ∀ thread, (f thread).id = thread.id) :
    Listable s workspaceId (mapThread threadId f list) :=
  h.of_subperm (threadIds_mapThread hf list ▸ List.Subperm.refl _)

theorem Listable.bumpThread {threadId : Text} (h : Listable s workspaceId list) :
    Listable s workspaceId (bumpThread threadId list) :=
  h.of_subperm (threadIds_bumpThread_perm threadId list).subperm

theorem Listable.filter {p : ThreadSummary → Bool} (h : Listable s workspaceId list) :
    Listable s workspaceId (list.filter p) :=
  h.of_subperm (List.filter_sublist.map ThreadSummary.id).subperm

/-- One thread is added at the end. -/
theorem Listable.append {thread : ThreadSummary} (h : Listable s workspaceId list)
    (hnew : thread.id ∉ threadIds list)
    (hshown : thread.id ∉ s.hiddenThreadIdsByWorkspace workspaceId) :
    Listable s workspaceId (list ++ [thread]) := by
  have hids : threadIds (list ++ [thread]) = (threadIds list).concat thread.id := by
    unfold threadIds
    rw [List.map_append, List.concat_eq_append]
    rfl
  refine ⟨hids ▸ List.Nodup.concat hnew h.distinct, fun id hid => ?_⟩
  rw [hids, List.concat_eq_append] at hid
  rcases List.mem_append.mp hid with hid | hid
  · exact h.shown id hid
  · rw [List.mem_singleton.mp hid]
    exact hshown

/-! ### Refreshed lists -/

theorem freshenAnchorSummary_id (summary : ThreadSummary) :
    (s.freshenAnchorSummary summary).id = summary.id := by
  unfold ThreadState.freshenAnchorSummary
  simp only
  split <;> rfl

theorem Listable.appendExistingAnchor (h : Listable s workspaceId list) (threadId : Text) :
    Listable s workspaceId (s.appendExistingAnchor workspaceId list threadId) := by
  unfold ThreadState.appendExistingAnchor
  split
  · exact h
  next hnew =>
    split
    next summary hfound =>
      have hid : summary.id = threadId := by
        simpa using List.find?_some hfound
      simp only [Bool.or_eq_true, not_or, Bool.not_eq_true] at hnew
      refine h.append ?_ ?_
      · rw [freshenAnchorSummary_id, hid]
        simpa using hnew.2
      · rw [freshenAnchorSummary_id, hid]
        simpa [ThreadState.isHidden] using hnew.1.2
    · exact h

theorem Listable.appendParents (h : Listable s workspaceId list) (visited : List Text)
    (threadId : Text) :
    Listable s workspaceId (s.appendParents workspaceId visited threadId list) := by
  fun_induction s.appendParents workspaceId visited threadId list with
  | case1 => exact h
  | case2 => exact h
  | case3 visited threadId list parentId hparent hvisited ih => exact ih (h.appendExistingAnchor _)

/-- The threads of a payload, anchored in the old list. -/
theorem Listable.foldl {f : List ThreadSummary → Text → List ThreadSummary}
    (hf : ∀ list threadId, Listable s workspaceId list → Listable s workspaceId (f list threadId))
    (ids : List Text) (h : Listable s workspaceId list) :
    Listable s workspaceId (ids.foldl f list) := by
  induction ids generalizing list with
  | nil => exact h
  | cons id ids ih => exact ih (hf list id h)

theorem listable_visibleThreads {threads : List ThreadSummary} (h : (threadIds threads).Nodup) :
    Listable s workspaceId (threads.filter fun thread => !s.isHidden workspaceId thread.id) where
  distinct := (List.filter_sublist.map ThreadSummary.id).nodup h
  shown := by
    intro id hid
    obtain ⟨thread, hthread, rfl⟩ := List.mem_map.mp hid
    simpa [ThreadState.isHidden] using (List.mem_filter.mp hthread).2

/-! ### States -/

/-- A state with the same lists. -/
theorem Visible.congr {s' : ThreadState} (h : Visible s)
    (hhidden : s'.hiddenThreadIdsByWorkspace = s.hiddenThreadIdsByWorkspace)
    (hthreads : s'.threadsByWorkspace = s.threadsByWorkspace) : Visible s' := by
  intro w
  refine ⟨?_, ?_⟩
  · rw [hthreads]
    exact (h w).distinct
  · rw [hthreads, hhidden]
    exact (h w).shown

/-- A state with one new list. -/
theorem Visible.setThreadsOf (h : Visible s) (hlist : Listable s workspaceId list) :
    Visible (s.setThreadsOf workspaceId list) := by
  intro w
  by_cases hw : w = workspaceId
  · subst hw
    refine ⟨?_, ?_⟩
    · simpa [ThreadState.setThreadsOf] using hlist.distinct
    · simpa [ThreadState.setThreadsOf] using hlist.shown
  · refine ⟨?_, ?_⟩
    · simpa [ThreadState.setThreadsOf, hw] using (h w).distinct
    · simpa [ThreadState.setThreadsOf, hw] using (h w).shown

/-! ### Actions -/

/-- The payload of a refresh names no thread twice. -/
def DistinctPayload : ThreadAction → Prop
  | .setThreads _ threads _ _ => (threadIds threads).Nodup
  | _ => True

theorem visible_setThreads {threads : List ThreadSummary} {sortKey : ThreadListSortKey}
    {preserveAnchors : Bool} (h : Visible s) (hthreads : (threadIds threads).Nodup) :
    Visible (s.setThreads workspaceId threads sortKey preserveAnchors) := by
  have hvisible : Listable s workspaceId _ := listable_visibleThreads hthreads
  unfold ThreadState.setThreads
  simp only
  split
  · -- the anchors: the active thread, those that are processing, and the parents of all
    refine (h.setThreadsOf ?_).congr rfl rfl
    apply Listable.foldl
    · intro list threadId hlist
      exact hlist.appendParents _ threadId
    · apply Listable.foldl
      · intro list threadId hlist
        exact hlist.appendExistingAnchor threadId
      · split
        · exact hvisible.appendExistingAnchor _
        · exact hvisible
  · exact (h.setThreadsOf hvisible).congr rfl rfl

theorem visible_hideThread {threadId : Text} (h : Visible s) :
    Visible (reduceThreadLifecycle s (.hideThread workspaceId threadId)) := by
  unfold reduceThreadLifecycle
  simp only
  split
  · exact h
  · intro w
    by_cases hw : w = workspaceId
    · subst hw
      refine ⟨?_, fun id hid => ?_⟩
      · simpa [ThreadState.setThreadsOf, ThreadState.setActive] using (h w).filter.distinct
      · simp only [ThreadState.setThreadsOf, ThreadState.setActive, Function.update_self] at hid ⊢
        obtain ⟨thread, hthread, rfl⟩ := List.mem_map.mp hid
        have hne : thread.id ≠ threadId := by simpa using (List.mem_filter.mp hthread).2
        intro hmem
        rcases List.mem_cons.mp hmem with heq | hmem
        · exact hne heq
        · exact (h w).filter.shown _ hid hmem
    · refine ⟨?_, ?_⟩
      · simpa [ThreadState.setThreadsOf, ThreadState.setActive, hw] using (h w).distinct
      · simpa [ThreadState.setThreadsOf, ThreadState.setActive, hw] using (h w).shown

theorem visible_ensureThread {threadId : Text} (h : Visible s) :
    Visible (reduceThreadLifecycle s (.ensureThread workspaceId threadId)) := by
  unfold reduceThreadLifecycle
  simp only
  split
  · exact h
  next hnew =>
    simp only [Bool.or_eq_true, not_or, Bool.not_eq_true] at hnew
    have hunlisted : threadId ∉ threadIds (s.threadsByWorkspace workspaceId) := by
      simpa using hnew.2
    refine (h.setThreadsOf (show Listable s workspaceId _ from ⟨?_, ?_⟩)).congr rfl rfl
    · exact List.nodup_cons.mpr ⟨hunlisted, (h workspaceId).distinct⟩
    · intro id hid
      rcases List.mem_cons.mp hid with rfl | hid
      · simpa [ThreadState.isHidden] using hnew.1
      · exact (h workspaceId).shown id hid

theorem visible_reduceThreadLifecycle {action : ThreadAction} (h : Visible s)
    (hpayload : DistinctPayload action) : Visible (reduceThreadLifecycle s action) := by
  cases action with
  | setActiveThreadId w threadId =>
    unfold reduceThreadLifecycle
    simp only
    split <;> exact h.congr rfl rfl
  | ensureThread w threadId => exact visible_ensureThread h
  | hideThread w threadId => exact visible_hideThread h
  | removeThread w threadId => exact (h.setThreadsOf (h w).filter).congr rfl rfl
  | setThreadParent threadId parentId =>
    unfold reduceThreadLifecycle
    simp only
    split
    · exact h
    · exact h.congr rfl rfl
  | markProcessing threadId isProcessing timestamp =>
    unfold reduceThreadLifecycle ThreadState.markProcessing
    simp only
    split <;> exact h.congr rfl rfl
  | markReviewing threadId isReviewing => exact h.congr rfl rfl
  | markUnread threadId hasUnread => exact h.congr rfl rfl
  | setThreadName w threadId name => exact h.setThreadsOf ((h w).mapThread fun _ => rfl)
  | mergeThreadSummary w threadId patch => exact h.setThreadsOf ((h w).mapThread fun _ => rfl)
  | setThreadTimestamp w threadId timestamp =>
    unfold reduceThreadLifecycle
    simp only
    split
    · apply h.setThreadsOf
      split
      · apply Listable.bumpThread
        exact (h w).mapThread fun _ => rfl
      · exact (h w).mapThread fun _ => rfl
    · exact h
  | setThreads w threads sortKey preserveAnchors => exact visible_setThreads h hpayload
  | _ => exact h

theorem visible_reduceThreadConfig {action : ThreadAction} (h : Visible s) :
    Visible (reduceThreadConfig s action) := by
  unfold reduceThreadConfig
  split
  · simp only
    split
    · exact h
    · exact h.congr rfl rfl
  · exact h

theorem Visible.maybeRenameThreadFromAgent {threadId itemId : Text} {items : List ConversationItem}
    {hasCustomName : Bool} (h : Visible s) :
    Visible (s.maybeRenameThreadFromAgent workspaceId threadId items itemId hasCustomName) := by
  unfold ThreadState.maybeRenameThreadFromAgent
  split
  · exact h
  · split
    · exact h
    · apply h.setThreadsOf
      apply (h workspaceId).mapThread
      intro thread
      split <;> rfl

theorem Visible.putAgentMessage {threadId itemId text : Text} {f : Message → Message}
    {hasCustomName : Bool} (h : Visible s) :
    Visible (s.putAgentMessage workspaceId threadId itemId text f hasCustomName) := by
  apply Visible.maybeRenameThreadFromAgent
  exact h.congr rfl rfl

theorem listable_threadsAfterUserMessage {threadId text : Text} {hadUserMessage hasCustomName : Bool}
    (h : Visible s) : Listable s workspaceId
      (s.threadsAfterUserMessage workspaceId threadId text hadUserMessage hasCustomName) := by
  have hupdated : ∀ f : ThreadSummary → ThreadSummary, (∀ thread, (f thread).id = thread.id) →
      Listable s workspaceId (mapThread threadId f (s.threadsByWorkspace workspaceId)) :=
    fun _ hf => (h workspaceId).mapThread hf
  unfold ThreadState.threadsAfterUserMessage
  simp only
  split
  · apply Listable.bumpThread
    apply hupdated
    intro thread
    split <;> rfl
  · apply hupdated
    intro thread
    split <;> rfl

theorem visible_reduceThreadItems {action : ThreadAction} (h : Visible s) :
    Visible (reduceThreadItems s action) := by
  cases action with
  | appendAgentDelta w threadId itemId delta hasCustomName =>
    exact h.putAgentMessage
  | completeAgentMessage w threadId itemId text hasCustomName =>
    exact h.putAgentMessage
  | upsertItem w threadId item hasCustomName =>
    show Visible (s.upsert w threadId item hasCustomName)
    unfold ThreadState.upsert
    simp only
    split
    · exact h
    · split
      · exact (h.setThreadsOf (listable_threadsAfterUserMessage h)).congr rfl rfl
      · exact h.congr rfl rfl
  | appendToolOutput threadId itemId delta =>
    unfold reduceThreadItems
    simp only
    split
    · exact h.congr rfl rfl
    · exact h
  | _ => exact h.congr rfl rfl

theorem visible_reduceThreadSnapshots {action : ThreadAction} (h : Visible s) :
    Visible (reduceThreadSnapshots s action) := by
  unfold reduceThreadSnapshots
  split
  · split
    · exact h
    · exact h.congr rfl rfl
  · exact h

/-- One action. -/
theorem visible_threadReducer {action : ThreadAction} (h : Visible s)
    (hpayload : DistinctPayload action) : Visible (threadReducer s action) :=
  visible_reduceThreadSnapshots (visible_reduceThreadItems (visible_reduceThreadConfig
    (visible_reduceThreadLifecycle h hpayload)))

/-- **Hidden threads stay hidden, and no thread is listed twice.** After every sequence of
    actions in which each refresh names every thread once, no hidden thread of a workspace is in
    its list, and the ids of the list are distinct. -/
theorem hidden_threads_stay_hidden (actions : List ThreadAction) (s : ThreadState)
    (hpayload : ∀ action ∈ actions, DistinctPayload action)
    (hrun : threadMachine.run threadMachine.init actions = some s) (w : Text) :
    (∀ id ∈ s.hiddenThreadIdsByWorkspace w, id ∉ threadIds (s.threadsByWorkspace w)) ∧
      (threadIds (s.threadsByWorkspace w)).Nodup := by
  have hvisible : Visible s := by
    refine Machine.run_invariant (P := fun _ action => DistinctPayload action) ?_
      visible_initialState (Machine.guarded_of_forall (fun a ha _ => hpayload a ha) _) hrun
    rintro s action _ h hpayload ⟨⟩
    exact visible_threadReducer h hpayload
  exact ⟨fun id hhidden hlisted => (hvisible w).shown id hlisted hhidden, (hvisible w).distinct⟩

/-- A thread is hidden, and a refresh that keeps the anchors still lists it. -/
def hiddenRun : List ThreadAction :=
  [.ensureThread "w".toList "a".toList, .ensureThread "w".toList "b".toList,
    .hideThread "w".toList "a".toList,
    .setThreads "w".toList [{ id := "a".toList, name := [], updatedAt := 0 }] .updatedAt true]

/-- The hidden thread is left out and the active one stays. -/
theorem hiddenRun_lists :
    ∃ s, threadMachine.run threadMachine.init hiddenRun = some s ∧
      "a".toList ∈ s.hiddenThreadIdsByWorkspace "w".toList ∧
      "a".toList ∉ threadIds (s.threadsByWorkspace "w".toList) := by
  refine ⟨_, rfl, ?_, ?_⟩
  · exact List.mem_cons_self
  · refine (hidden_threads_stay_hidden hiddenRun _ ?_ rfl "w".toList).1 _ List.mem_cons_self
    intro action haction
    simp only [hiddenRun, List.mem_cons, List.not_mem_nil, or_false] at haction
    rcases haction with rfl | rfl | rfl | rfl
    · trivial
    · trivial
    · trivial
    · exact List.nodup_singleton _

end CodexMonitor.Conversation
