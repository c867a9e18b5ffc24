import CodexMonitor.Conversation.Visibility

namespace CodexMonitor.Conversation

open Text Ancestry Anchors

/-!
# Conversation — refreshing the list of threads

`threadActionHelpers.ts` makes the list of a workspace from the threads that were fetched, and
the reducer puts it in the place of the old one.  Both keep anchors: the active thread, those
that are processing, and the ancestors of all that is listed.

* `buildWorkspaceThreadListState` — the list of the fetched threads.
* `AnchoredList` — a list with its anchors, and with nothing else.
* `setThreads_anchored`, `summaries_anchored` — both lists are such ones.
* `refresh_keeps_anchors` — the two together.
-/

/-! ### The list of the fetched threads -/

/-- What the code reads of a thread that was fetched: its id as a text, its two times, and the
    preview. -/
structure ThreadRecord where
  id : Text
  timestamp : Int
  createdTimestamp : Int
  preview : Text
  deriving DecidableEq, Repr

structure ThreadPreviewUpdate where
  threadId : Text
  text : Text
  timestamp : Int
  deriving DecidableEq, Repr

structure WorkspaceThreadListState where
  didChangeActivity : Bool
  nextActivityByThread : Text → Option Int
  previewUpdates : List ThreadPreviewUpdate
  summaries : List ThreadSummary
  uniqueThreads : List ThreadRecord

/-- The first thread of each id. -/
def uniqueById (threads : List ThreadRecord) : List ThreadRecord :=
  threads.foldl (fun unique thread =>
    if thread.id.isEmpty || (unique.map ThreadRecord.id).contains thread.id then unique
    else unique ++ [thread]) []

/-- The times of the last activity, and whether one of them has changed. -/
def updateActivity (activity : (Text → Option Int) × Bool) (thread : ThreadRecord) :
    (Text → Option Int) × Bool :=
  if (activity.1 thread.id).getD 0 < thread.timestamp then
    (Function.update activity.1 thread.id (some thread.timestamp), true)
  else activity

/-- The comparison that the threads are sorted by. -/
def compareThreads (localeCompare : Text → Text → Int) (requestedSortKey : ThreadListSortKey)
    (nextActivityByThread : Text → Option Int) (a b : ThreadRecord) : Int :=
  match requestedSortKey with
  | .updatedAt =>
      let aActivity := max ((nextActivityByThread a.id).getD 0) a.timestamp
      let bActivity := max ((nextActivityByThread b.id).getD 0) b.timestamp
      bActivity - aActivity
  | .createdAt =>
      let delta := b.createdTimestamp - a.createdTimestamp
      if delta ≠ 0 then delta else localeCompare a.id b.id

/-- A map of summaries, by their ids. -/
def summaryById (built : List ThreadSummary) (threadId : Text) : Option ThreadSummary :=
  built.reverse.find? fun summary => summary.id = threadId

def appendFreshAnchor (built summaries : List ThreadSummary) (threadId : Text) :
    List ThreadSummary :=
  if threadId.isEmpty || (threadIds summaries).contains threadId then summaries
  else match summaryById built threadId with
    | some summary => summaries ++ [summary]
    | none => summaries

/-- `localeCompare` compares two ids in the order of the user's language. -/
def buildWorkspaceThreadListState (localeCompare : Text → Text → Int)
    (buildThreadSummary : Text → ThreadRecord → Nat → Option ThreadSummary)
    (activeThreadId : Option Text) (activityByThread : Text → Option Int)
    (existingThreadIds : List Text) (matchingThreads : List ThreadRecord)
    (requestedSortKey : ThreadListSortKey) (threadListTargetCount : Nat)
    (threadParentById : Registry Text Text) (threadStatusById : Text → Option ThreadStatus)
    (workspaceId : Text) : WorkspaceThreadListState :=
  let unique := uniqueById matchingThreads
  let activity := unique.foldl updateActivity (activityByThread, false)
  let uniqueThreads := unique.mergeSort fun a b =>
    compareThreads localeCompare requestedSortKey activity.1 a b ≤ 0
  let built := uniqueThreads.zipIdx.filterMap fun entry =>
    buildThreadSummary workspaceId entry.1 entry.2
  let summaries := (uniqueThreads.take threadListTargetCount).filterMap fun thread =>
    summaryById built thread.id
  let append := appendFreshAnchor built
  let withActive := match activeThreadId with
    | some threadId => append summaries threadId
    | none => summaries
  let workspaceThreadIds := threadIds built ++ existingThreadIds ++
    (activeThreadId.filter fun threadId => !threadId.isEmpty).toList
  let withProcessing := (workspaceThreadIds.filter fun threadId =>
    ((threadStatusById threadId).getD {}).isProcessing).foldl append withActive
  -- the loop over the parents of a seed goes through `walk`
  let reconciled := (threadIds withProcessing).foldl (fun summaries seed =>
    (walk threadParentById List.isEmpty [seed] seed).foldl append summaries) withProcessing
  { didChangeActivity := activity.2
    nextActivityByThread := activity.1
    previewUpdates := uniqueThreads.filterMap fun thread =>
      let text := thread.preview.jsTrim
      if text.isEmpty then none else some ⟨thread.id, text, thread.timestamp⟩
    summaries := reconciled
    uniqueThreads := uniqueThreads }

/-! ### Lists with their anchors -/

/-- **A list with its anchors**: it starts with the given threads and has each thread once; of the
    stored threads it has the anchors and the ancestors of all of its threads, and it has nothing
    else. -/
structure AnchoredList (parents : Registry Text Text) (start : List ThreadSummary)
    (stored anchor : Text → Prop) (list : List ThreadSummary) : Prop where
  starts : start <+: list
  distinct : (threadIds list).Nodup
  anchors : ∀ id, stored id → anchor id → id ∈ threadIds list
  ancestors : ∀ id ∈ threadIds list, ∀ ancestor,
    Descends (parentOf parents List.isEmpty) id ancestor → stored ancestor →
      ancestor ∈ threadIds list
  nothingElse : ∀ id ∈ threadIds list, id ∈ threadIds start ∨ stored id ∧ (anchor id ∨
    ∃ seed, (seed ∈ threadIds start ∨ stored seed ∧ anchor seed) ∧
      Descends (parentOf parents List.isEmpty) seed id)

/-- A completed list is one, if exactly the stored threads are available. -/
theorem anchoredList_anchored {parents : Registry Text Text} {start : List ThreadSummary}
    {available : Text → Option ThreadSummary} {stored anchor : Text → Prop} {asked : List Text}
    (hkey : ∀ id summary, available id = some summary → summary.id = id)
    (hstored : ∀ id, (available id).isSome = true ↔ stored id)
    (hasked : ∀ id, stored id → (id ∈ asked ↔ anchor id)) (hstart : (threadIds start).Nodup) :
    AnchoredList parents start stored anchor
      (anchored ThreadSummary.id available parents List.isEmpty start asked) where
  starts := prefix_anchored
  distinct := nodup_anchored hkey asked hstart
  anchors := by
    intro id hid hanchor
    refine (mem_anchored_iff hkey).mpr (.inl (.inr ⟨?_, (hstored id).mpr hid⟩))
    exact (hasked id hid).mpr hanchor
  ancestors := by
    intro id hid ancestor hdescends hancestor
    exact anchored_closed hkey hid hdescends ((hstored ancestor).mpr hancestor)
  nothingElse := by
    have hseed : ∀ id, id ∈ threadIds start ∨ id ∈ asked ∧ (available id).isSome = true →
        id ∈ threadIds start ∨ stored id ∧ anchor id := by
      rintro id (h | ⟨hmem, havailable⟩)
      · exact .inl h
      · have hid := (hstored id).mp havailable
        exact .inr ⟨hid, (hasked id hid).mp hmem⟩
    intro id hid
    rcases (mem_anchored_iff hkey).mp hid with hmem | ⟨⟨seed, hmem, hdescends⟩, havailable⟩
    · rcases hseed id hmem with h | ⟨hid, hanchor⟩
      · exact .inl h
      · exact .inr ⟨hid, .inl hanchor⟩
    · exact .inr ⟨(hstored id).mp havailable, .inr ⟨seed, hseed seed hmem, hdescends⟩⟩

/-! ### The reducer -/

section Reducer

variable {s : ThreadState} {workspaceId : Text}

/-- The summary that the old list has of a thread, unless the thread is hidden. -/
def existingAnchor (s : ThreadState) (workspaceId threadId : Text) : Option ThreadSummary :=
  if threadId.isEmpty || s.isHidden workspaceId threadId then none
  else ((s.threadsByWorkspace workspaceId).reverse.find? fun thread => thread.id = threadId).map
    s.freshenAnchorSummary

theorem existingAnchor_id {id : Text} {summary : ThreadSummary}
    (h : existingAnchor s workspaceId id = some summary) : summary.id = id := by
  unfold existingAnchor at h
  split at h
  · cases h
  · obtain ⟨found, hfound, rfl⟩ := Option.map_eq_some_iff.mp h
    rw [freshenAnchorSummary_id]
    have hid := List.find?_some hfound
    exact of_decide_eq_true hid

theorem existingAnchor_isSome {id : Text} : (existingAnchor s workspaceId id).isSome = true ↔
    id ≠ [] ∧ id ∈ threadIds (s.threadsByWorkspace workspaceId) ∧
      id ∉ s.hiddenThreadIdsByWorkspace workspaceId := by
  unfold existingAnchor
  by_cases hempty : id = []
  · simp [hempty]
  · by_cases hhidden : id ∈ s.hiddenThreadIdsByWorkspace workspaceId
    · simp [ThreadState.isHidden, hhidden]
    · simp [ThreadState.isHidden, hhidden, hempty, threadIds]

theorem appendExistingAnchor_eq (list : List ThreadSummary) (threadId : Text) :
    s.appendExistingAnchor workspaceId list threadId =
      anchor ThreadSummary.id (existingAnchor s workspaceId) list threadId := by
  unfold ThreadState.appendExistingAnchor anchor existingAnchor
  by_cases hlisted : threadId ∈ list.map ThreadSummary.id
  · rw [if_pos hlisted, if_pos (by simp [threadIds, hlisted])]
  · rw [if_neg hlisted]
    have hnot : (threadIds list).contains threadId = false := by
      simpa [threadIds] using hlisted
    rw [hnot, Bool.or_false]
    by_cases hskip : (threadId.isEmpty || s.isHidden workspaceId threadId) = true
    · rw [if_pos hskip, if_pos hskip]
    · rw [if_neg hskip, if_neg hskip]
      cases (s.threadsByWorkspace workspaceId).reverse.find? fun thread => thread.id = threadId with
      | none => rfl
      | some summary => rfl

theorem appendParents_eq (visited : List Text) (threadId : Text) (list : List ThreadSummary) :
    s.appendParents workspaceId visited threadId list =
      (walk s.threadParentById List.isEmpty visited threadId).foldl
        (anchor ThreadSummary.id (existingAnchor s workspaceId)) list := by
  fun_induction s.appendParents workspaceId visited threadId list with
  | case1 visited threadId list hparent =>
    unfold walk
    split
    · rfl
    next p hp =>
      rw [hparent] at hp
      cases hp
  | case2 visited threadId list parentId hparent hvisited =>
    unfold walk
    split
    · rfl
    next p hp =>
      obtain rfl := Option.some.inj (hparent.symm.trans hp)
      rw [dif_pos hvisited]
      rfl
  | case3 visited threadId list parentId hparent hvisited ih =>
    rw [ih, appendExistingAnchor_eq]
    conv_rhs => unfold walk
    split
    next hp =>
      rw [hparent] at hp
      cases hp
    next p hp =>
      obtain rfl := Option.some.inj (hparent.symm.trans hp)
      rw [dif_neg hvisited]
      rfl

/-- **A refreshed list** is the payload, completed from the old list. -/
theorem threadsByWorkspace_setThreads {threads : List ThreadSummary} {sortKey : ThreadListSortKey} :
    (s.setThreads workspaceId threads sortKey true).threadsByWorkspace workspaceId =
      anchored ThreadSummary.id (existingAnchor s workspaceId) s.threadParentById List.isEmpty
        (threads.filter fun thread => !s.isHidden workspaceId thread.id)
        ((s.activeThreadIdByWorkspace workspaceId).toList ++
          threadIds ((s.threadsByWorkspace workspaceId).filter fun thread =>
            (s.status thread.id).isProcessing)) := by
  have happend : s.appendExistingAnchor workspaceId =
      anchor ThreadSummary.id (existingAnchor s workspaceId) := by
    funext list threadId
    exact appendExistingAnchor_eq list threadId
  unfold ThreadState.setThreads anchored
  simp only [if_true, List.foldl_append, happend, appendParents_eq]
  cases s.activeThreadIdByWorkspace workspaceId with
  | none => exact Function.update_self ..
  | some threadId => exact Function.update_self ..

/-- **A refresh keeps the anchors of the old list.** -/
theorem setThreads_anchored (s : ThreadState) (workspaceId : Text) (sortKey : ThreadListSortKey)
    {threads : List ThreadSummary} (h : (threadIds threads).Nodup) :
    AnchoredList s.threadParentById
      (threads.filter fun thread => !s.isHidden workspaceId thread.id)
      (fun id => id ≠ [] ∧ id ∈ threadIds (s.threadsByWorkspace workspaceId) ∧
        id ∉ s.hiddenThreadIdsByWorkspace workspaceId)
      (fun id => s.activeThreadIdByWorkspace workspaceId = some id ∨
        (s.status id).isProcessing = true)
      ((s.setThreads workspaceId threads sortKey true).threadsByWorkspace workspaceId) := by
  rw [threadsByWorkspace_setThreads]
  apply anchoredList_anchored
  · intro id summary
    exact existingAnchor_id
  · intro id
    exact existingAnchor_isSome
  · rintro id ⟨-, hlisted, -⟩
    obtain ⟨thread, hthread, rfl⟩ := List.mem_map.mp hlisted
    rw [List.mem_append, Option.mem_toList]
    apply or_congr Iff.rfl
    constructor
    · intro hmem
      obtain ⟨other, hother, hid⟩ := List.mem_map.mp hmem
      rw [← hid]
      exact (List.mem_filter.mp hother).2
    · intro hprocessing
      exact List.mem_map.mpr ⟨thread, List.mem_filter.mpr ⟨hthread, hprocessing⟩, rfl⟩
  · exact (listable_visibleThreads h).distinct

end Reducer

/-! ### The fetched threads -/

section Fetched

variable {built : List ThreadSummary}

theorem summaryById_id {id : Text} {summary : ThreadSummary}
    (h : summaryById built id = some summary) : summary.id = id := by
  unfold summaryById at h
  have hid := List.find?_some h
  exact of_decide_eq_true hid

/-- The summary of a fetched thread. -/
def freshAnchor (built : List ThreadSummary) (threadId : Text) : Option ThreadSummary :=
  if threadId.isEmpty then none else summaryById built threadId

theorem freshAnchor_id {id : Text} {summary : ThreadSummary}
    (h : freshAnchor built id = some summary) : summary.id = id := by
  unfold freshAnchor at h
  split at h
  · cases h
  · exact summaryById_id h

theorem freshAnchor_isSome {id : Text} :
    (freshAnchor built id).isSome = true ↔ id ≠ [] ∧ id ∈ threadIds built := by
  unfold freshAnchor summaryById
  by_cases hempty : id = []
  · simp [hempty]
  · simp [hempty, threadIds]

theorem appendFreshAnchor_eq (built summaries : List ThreadSummary) (threadId : Text) :
    appendFreshAnchor built summaries threadId =
      anchor ThreadSummary.id (freshAnchor built) summaries threadId := by
  unfold appendFreshAnchor anchor freshAnchor
  by_cases hlisted : threadId ∈ summaries.map ThreadSummary.id
  · rw [if_pos hlisted, if_pos (by simp [threadIds, hlisted])]
  · rw [if_neg hlisted]
    have hnot : (threadIds summaries).contains threadId = false := by
      simpa [threadIds] using hlisted
    rw [hnot, Bool.or_false]
    by_cases hempty : threadId.isEmpty = true
    · rw [if_pos hempty, if_pos hempty]
    · rw [if_neg hempty, if_neg hempty]
      cases summaryById built threadId with
      | none => rfl
      | some summary => rfl

theorem nodup_uniqueById (threads : List ThreadRecord) :
    ((uniqueById threads).map ThreadRecord.id).Nodup := by
  have hstep : ∀ (unique : List ThreadRecord), (unique.map ThreadRecord.id).Nodup →
      ((threads.foldl (fun unique thread =>
        if thread.id.isEmpty || (unique.map ThreadRecord.id).contains thread.id then unique
        else unique ++ [thread]) unique).map ThreadRecord.id).Nodup := by
    induction threads with
    | nil => exact fun _ h => h
    | cons thread threads ih =>
      intro unique h
      rw [List.foldl_cons]
      apply ih
      split
      · exact h
      next hnew =>
        have hfresh : thread.id ∉ unique.map ThreadRecord.id := by
          intro hmem
          simp [hmem] at hnew
        rw [List.map_append]
        show (unique.map ThreadRecord.id ++ [thread.id]).Nodup
        rw [← List.concat_eq_append]
        exact List.Nodup.concat hfresh h
  exact hstep [] List.nodup_nil

/-- The summaries of threads with distinct ids have distinct ids. -/
theorem nodup_summaries {threads : List ThreadRecord}
    (h : (threads.map ThreadRecord.id).Nodup) :
    (threadIds (threads.filterMap fun thread => summaryById built thread.id)).Nodup := by
  have hsub : List.Sublist
      (threadIds (threads.filterMap fun thread => summaryById built thread.id))
      (threads.map ThreadRecord.id) := by
    clear h
    induction threads with
    | nil => exact List.Sublist.slnil
    | cons thread threads ih =>
      rw [List.filterMap_cons]
      cases hsummary : summaryById built thread.id with
      | none => exact ih.cons _
      | some summary =>
        show List.Sublist (summary.id :: _) (thread.id :: _)
        rw [summaryById_id hsummary]
        exact ih.cons_cons _
  exact hsub.nodup h

variable {localeCompare : Text → Text → Int}
  {buildThreadSummary : Text → ThreadRecord → Nat → Option ThreadSummary}
  {activeThreadId : Option Text} {activityByThread : Text → Option Int}
  {existingThreadIds : List Text} {matchingThreads : List ThreadRecord}
  {requestedSortKey : ThreadListSortKey} {threadListTargetCount : Nat}
  {threadParentById : Registry Text Text} {threadStatusById : Text → Option ThreadStatus}
  {workspaceId : Text} {state : WorkspaceThreadListState}

/-- The summaries of the sorted threads. -/
def builtSummaries (buildThreadSummary : Text → ThreadRecord → Nat → Option ThreadSummary)
    (workspaceId : Text) (threads : List ThreadRecord) : List ThreadSummary :=
  threads.zipIdx.filterMap fun entry => buildThreadSummary workspaceId entry.1 entry.2

/-- **The list of the fetched threads keeps the anchors among them.** -/
theorem summaries_anchored
    (h : buildWorkspaceThreadListState localeCompare buildThreadSummary activeThreadId
      activityByThread existingThreadIds matchingThreads requestedSortKey threadListTargetCount
      threadParentById threadStatusById workspaceId = state) :
    AnchoredList threadParentById
      ((state.uniqueThreads.take threadListTargetCount).filterMap fun thread =>
        summaryById (builtSummaries buildThreadSummary workspaceId state.uniqueThreads) thread.id)
      (fun id => id ≠ [] ∧
        id ∈ threadIds (builtSummaries buildThreadSummary workspaceId state.uniqueThreads))
      (fun id => activeThreadId = some id ∨
        ((threadStatusById id).getD {}).isProcessing = true)
      state.summaries := by
  have hunique : (state.uniqueThreads.map ThreadRecord.id).Nodup := by
    rw [← h]
    have hperm := List.mergeSort_perm (uniqueById matchingThreads) fun a b =>
      decide (compareThreads localeCompare requestedSortKey
        ((uniqueById matchingThreads).foldl updateActivity (activityByThread, false)).1 a b ≤ 0)
    exact (hperm.map ThreadRecord.id).nodup_iff.mpr (nodup_uniqueById matchingThreads)
  have hsummaries : state.summaries = anchored ThreadSummary.id
      (freshAnchor (builtSummaries buildThreadSummary workspaceId state.uniqueThreads))
      threadParentById List.isEmpty
      ((state.uniqueThreads.take threadListTargetCount).filterMap fun thread =>
        summaryById (builtSummaries buildThreadSummary workspaceId state.uniqueThreads) thread.id)
      (activeThreadId.toList ++
        (threadIds (builtSummaries buildThreadSummary workspaceId state.uniqueThreads) ++
          existingThreadIds ++ (activeThreadId.filter fun threadId => !threadId.isEmpty).toList
            ).filter fun threadId => ((threadStatusById threadId).getD {}).isProcessing) := by
    have happend : ∀ built, appendFreshAnchor built = anchor ThreadSummary.id (freshAnchor built) := by
      intro built
      funext summaries threadId
      exact appendFreshAnchor_eq built summaries threadId
    rw [← h]
    unfold buildWorkspaceThreadListState anchored builtSummaries
    simp only [List.foldl_append, happend]
    cases activeThreadId with
    | none => rfl
    | some threadId => rfl
  rw [hsummaries]
  generalize builtSummaries buildThreadSummary workspaceId state.uniqueThreads = built
  apply anchoredList_anchored
  · intro id summary
    exact freshAnchor_id
  · intro id
    exact freshAnchor_isSome
  · rintro id ⟨-, hbuilt⟩
    rw [List.mem_append, Option.mem_toList, List.mem_filter]
    apply or_congr Iff.rfl
    constructor
    · exact And.right
    · intro hprocessing
      exact ⟨List.mem_append_left _ (List.mem_append_left _ hbuilt), hprocessing⟩
  · apply nodup_summaries
    exact (List.take_sublist _ _).map ThreadRecord.id |>.nodup hunique

/-! ### Both lists -/

/-- **A refresh never drops an anchor.**  After the refresh the list of the workspace starts with
    the visible threads of the payload and has no hidden one; of the threads that were listed
    before and are not hidden it has the active one, those that are processing, and the ancestors
    of all of its threads; and it has nothing else.  The same holds of the list of the fetched
    threads, which may be a payload.  The empty text is no id. -/
theorem refresh_keeps_anchors (s : ThreadState) (workspaceId : Text) (threads : List ThreadSummary)
    (sortKey : ThreadListSortKey) (hthreads : (threadIds threads).Nodup) :
    AnchoredList s.threadParentById
        (threads.filter fun thread => !s.isHidden workspaceId thread.id)
        (fun id => id ≠ [] ∧ id ∈ threadIds (s.threadsByWorkspace workspaceId) ∧
          id ∉ s.hiddenThreadIdsByWorkspace workspaceId)
        (fun id => s.activeThreadIdByWorkspace workspaceId = some id ∨
          (s.status id).isProcessing = true)
        ((s.setThreads workspaceId threads sortKey true).threadsByWorkspace workspaceId) ∧
      (∀ id ∈ threadIds ((s.setThreads workspaceId threads sortKey true).threadsByWorkspace
        workspaceId), id ∉ s.hiddenThreadIdsByWorkspace workspaceId) ∧
      ∀ localeCompare buildThreadSummary activeThreadId activityByThread existingThreadIds
          matchingThreads requestedSortKey threadListTargetCount threadParentById threadStatusById
          state,
        buildWorkspaceThreadListState localeCompare buildThreadSummary activeThreadId
            activityByThread existingThreadIds matchingThreads requestedSortKey
            threadListTargetCount threadParentById threadStatusById workspaceId = state →
        AnchoredList threadParentById
          ((state.uniqueThreads.take threadListTargetCount).filterMap fun thread => summaryById
            (builtSummaries buildThreadSummary workspaceId state.uniqueThreads) thread.id)
          (fun id => id ≠ [] ∧
            id ∈ threadIds (builtSummaries buildThreadSummary workspaceId state.uniqueThreads))
          (fun id => activeThreadId = some id ∨
            ((threadStatusById id).getD {}).isProcessing = true)
          state.summaries := by
  have hanchored := setThreads_anchored s workspaceId sortKey hthreads
  refine ⟨hanchored, ?_, fun _ _ _ _ _ _ _ _ _ _ _ h => summaries_anchored h⟩
  intro id hid
  rcases hanchored.nothingElse id hid with hstart | ⟨⟨-, -, hshown⟩, -⟩
  · exact (listable_visibleThreads hthreads).shown id hstart
  · exact hshown

end Fetched

/-- A thread that is processing in the list of a workspace, a child of the active one. -/
def childRunning : ThreadState where
  threadsByWorkspace := fun _ => [⟨"p".toList, [], 0, none, none, none, none, none, none⟩,
    ⟨"c".toList, [], 0, none, none, none, none, none, none⟩]
  threadParentById := (∅ : Registry Text Text).insert "c".toList "p".toList
  threadStatusById := fun id => if id = "c".toList then some { isProcessing := true } else none

theorem refresh_keeps_childRunning :
    "p".toList ∈ threadIds
      ((childRunning.setThreads "w".toList [] .updatedAt true).threadsByWorkspace "w".toList) := by
  obtain ⟨hanchored, -⟩ :=
    refresh_keeps_anchors childRunning "w".toList [] .updatedAt List.nodup_nil
  have hchild : "c".toList ∈ threadIds
      ((childRunning.setThreads "w".toList [] .updatedAt true).threadsByWorkspace "w".toList) :=
    hanchored.anchors _ (by decide) (.inr rfl)
  apply hanchored.ancestors _ hchild
  · exact .of_parent (by decide) .refl
  · decide

/-- A thread whose id is empty, listed and processing. -/
def emptyIdRunning : ThreadState :=
  threadReducer (threadReducer initialState
      (.setThreads "w".toList [⟨[], [], 0, none, none, none, none, none, none⟩] .updatedAt false))
    (.markProcessing [] true 0)

/-- The empty text is not taken for an id. -/
theorem emptyIdRunning_dropped :
    [] ∈ threadIds (emptyIdRunning.threadsByWorkspace "w".toList) ∧
      (emptyIdRunning.status []).isProcessing = true ∧
      [] ∉ emptyIdRunning.hiddenThreadIdsByWorkspace "w".toList ∧
      [] ∉ threadIds ((threadReducer emptyIdRunning
        (.setThreads "w".toList [] .updatedAt true)).threadsByWorkspace "w".toList) := by
  decide +kernel

end CodexMonitor.Conversation
