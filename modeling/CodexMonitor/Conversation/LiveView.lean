import CodexMonitor.Conversation.Reducer

namespace CodexMonitor.Conversation

open Text

/-!
# Conversation — the live view and the reloaded view

The reducer prepares a thread's list after every action, so that the next update is applied to
what is shown, where commands have become explorations and neighbours have been put together.
A reload prepares the items themselves, once.

* `rawItems` — the items themselves: the updates without any preparation.
* `StandsAlone` — an item that is not put together with a neighbour.
* `summarize_upsert` — an update of such an item may be applied to the shown list.
* `live_view_eq_prepared` — every sequence of such updates.
-/

/-- The items that a sequence of updates makes. -/
def rawItems (items : List ConversationItem) : List ConversationItem := items.foldl upsertItem []

/-! ### How items are shown -/

/-- Only a command that is summarized is not shown as it is. -/
theorem display_ne {item : ConversationItem} (h : display item ≠ item) :
    ∃ tool e, item.body = .tool tool ∧ display item = { item with body := .explore e } := by
  unfold display at h ⊢
  split at h
  next tool hbody =>
    split at h
    · split at h
      next e _ =>
        refine ⟨tool, e, hbody, ?_⟩
        simp_all
      next => exact absurd rfl h
    · exact absurd rfl h
  next => exact absurd rfl h

theorem display_display (item : ConversationItem) : display (display item) = display item := by
  by_cases h : display item = item
  · rw [h, h]
  · obtain ⟨_, _, _, hdisplay⟩ := display_ne h
    rw [hdisplay]
    rfl

/-- What is summarized is shown as it is. -/
theorem map_display_summarizeExploration (items : List ConversationItem) :
    (summarizeExploration items).map display = summarizeExploration items := by
  have hshown : ∀ item ∈ summarizeExploration items, display item = item := by
    refine Combination.coalesce_forall (P := fun item => display item = item) ?_ ?_
    · intro a b c hc _ _
      obtain ⟨_, _, _, _, _, rfl⟩ := combineExplore_eq_some hc
      rfl
    · intro item hitem
      obtain ⟨source, _, rfl⟩ := List.mem_map.mp hitem
      exact display_display source
  exact (List.map_congr_left hshown).trans (List.map_id _)

/-- A summary replaced by an update, and the command itself merged with it. -/
theorem display_mergeItem_display {existing item : ConversationItem}
    (h : display existing ≠ existing → ∀ tool, item.body = .tool tool →
      display (mergeItem existing item) = display item) :
    display (mergeItem (display existing) item) = display (mergeItem existing item) := by
  by_cases hshown : display existing = existing
  · rw [hshown]
  · obtain ⟨tool, e, hbody, hdisplay⟩ := display_ne hshown
    have hreplaced : mergeItem (display existing) item = item := by
      obtain ⟨id, body⟩ := item
      rw [hdisplay]
      cases body <;> rfl
    rw [hreplaced]
    obtain ⟨id, body⟩ := item
    cases body with
    | tool t => exact (h hshown t rfl).symm
    | _ =>
      unfold mergeItem
      rw [hbody]
      rfl

/-! ### Updates of an item that stands alone -/

/-- The item between `before` and `after` is not put together with a neighbour. -/
def StandsAlone (before : List ConversationItem) (existing : ConversationItem)
    (after : List ConversationItem) : Prop :=
  (∀ last ∈ before.getLast?, combineExplore (display last) (display existing) = none) ∧
    ∀ next ∈ after.head?, combineExplore (display existing) (display next) = none

/-- **The update does not touch a merged item**: the item with its id, if there is one, stands
    alone; and if that is a command shown by its summary, an update of the command is shown like
    the command merged with it. -/
def Unmerged (raw : List ConversationItem) (item : ConversationItem) : Prop :=
  ∀ before existing after, raw = before ++ existing :: after → existing.id = item.id →
    StandsAlone before existing after ∧
      (display existing ≠ existing → ∀ tool, item.body = .tool tool →
        display (mergeItem existing item) = display item)

theorem summarizeExploration_append (l m : List ConversationItem) :
    summarizeExploration (summarizeExploration l ++ m) = summarizeExploration (l ++ m) := by
  show exploreCombination.coalesce ((summarizeExploration l ++ m).map display) =
    exploreCombination.coalesce ((l ++ m).map display)
  rw [List.map_append, List.map_append, map_display_summarizeExploration]
  exact Combination.coalesce_append _ _

theorem append_summarizeExploration (l m : List ConversationItem) :
    summarizeExploration (l ++ summarizeExploration m) = summarizeExploration (l ++ m) := by
  show exploreCombination.coalesce ((l ++ summarizeExploration m).map display) =
    exploreCombination.coalesce ((l ++ m).map display)
  rw [List.map_append, List.map_append, map_display_summarizeExploration]
  exact Combination.append_coalesce _ _

/-- The summary around an item that stands alone. -/
theorem summarizeExploration_alone {before after : List ConversationItem}
    {existing : ConversationItem} (h : StandsAlone before existing after) :
    summarizeExploration (before ++ existing :: after) =
      summarizeExploration before ++ display existing :: summarizeExploration after := by
  show exploreCombination.coalesce ((before ++ existing :: after).map display) = _
  rw [List.map_append, List.map_cons]
  refine Combination.coalesce_alone ?_ ?_
  · intro shown hshown
    rw [List.getLast?_map] at hshown
    obtain ⟨last, hlast, rfl⟩ := Option.map_eq_some_iff.mp hshown
    exact h.1 last hlast
  · intro shown hshown
    rw [List.head?_map] at hshown
    obtain ⟨next, hnext, rfl⟩ := Option.map_eq_some_iff.mp hshown
    exact h.2 next hnext

/-- The shown form of one item of a list makes no difference. -/
theorem summarizeExploration_congr {before after : List ConversationItem}
    {item item' : ConversationItem} (h : display item = display item') :
    summarizeExploration (before ++ item :: after) =
      summarizeExploration (before ++ item' :: after) := by
  unfold summarizeExploration
  rw [List.map_append, List.map_append, List.map_cons, List.map_cons, h]

/-- **An update of the shown list** gives the summary of the updated items, if it does not touch
    a merged one. -/
theorem summarize_upsert {raw : List ConversationItem} {item : ConversationItem}
    (hunmerged : Unmerged raw item) :
    summarizeExploration (upsertItem (summarizeExploration raw) item) =
      summarizeExploration (upsertItem raw item) := by
  by_cases hmem : item.id ∈ ids raw
  · obtain ⟨before, existing, after, rfl, hid, hbefore⟩ := exists_first_of_mem_ids hmem
    obtain ⟨halone, hshown⟩ := hunmerged before existing after rfl hid
    have hbefore' : item.id ∉ ids (summarizeExploration before) := fun h =>
      hbefore ((ids_summarizeExploration_sublist before).subset h)
    rw [summarizeExploration_alone halone,
      upsertItem_append hbefore' ((display_id existing).trans hid),
      upsertItem_append hbefore hid]
    calc summarizeExploration (summarizeExploration before ++
          mergeItem (display existing) item :: summarizeExploration after)
        = summarizeExploration (before ++
            mergeItem (display existing) item :: summarizeExploration after) :=
          summarizeExploration_append _ _
      _ = summarizeExploration ((before ++ [mergeItem (display existing) item]) ++
            summarizeExploration after) := by rw [List.append_assoc, List.singleton_append]
      _ = summarizeExploration (before ++ mergeItem (display existing) item :: after) := by
          rw [append_summarizeExploration, List.append_assoc, List.singleton_append]
      _ = summarizeExploration (before ++ mergeItem existing item :: after) :=
          summarizeExploration_congr (display_mergeItem_display hshown)
  · have hmem' : item.id ∉ ids (summarizeExploration raw) := fun h =>
      hmem ((ids_summarizeExploration_sublist raw).subset h)
    rw [upsertItem_of_not_mem hmem, upsertItem_of_not_mem hmem', summarizeExploration_append]

/-! ### Plain items -/

theorem longerText_eq (existing incoming : Text) :
    longerText existing incoming = existing ∨ longerText existing incoming = incoming := by
  unfold longerText
  split
  · exact .inr rfl
  · exact .inl rfl

theorem unlessBlank_eq (incoming existing : Text) :
    unlessBlank incoming existing = existing ∨ unlessBlank incoming existing = incoming := by
  unfold unlessBlank
  split
  · exact .inl rfl
  · exact .inr rfl

/-- A bound on both texts bounds the one that is chosen. -/
theorem longerText_le {existing incoming : Text} {n : Nat} (he : existing.utf16Len ≤ n)
    (hi : incoming.utf16Len ≤ n) : (longerText existing incoming).utf16Len ≤ n := by
  rcases longerText_eq existing incoming with h | h <;> rw [h] <;> assumption

theorem unlessBlank_le {incoming existing : Text} {n : Nat} (hi : incoming.utf16Len ≤ n)
    (he : existing.utf16Len ≤ n) : (unlessBlank incoming existing).utf16Len ≤ n := by
  rcases unlessBlank_eq incoming existing with h | h <;> rw [h] <;> assumption

/-- The lengths of the texts of a question. -/
def Question.WithinLimits (q : Question) : Prop :=
  q.header.utf16Len ≤ 300 ∧ q.question.utf16Len ≤ 2000 ∧
    ∀ answer ∈ q.answers, answer.utf16Len ≤ 2000

theorem withinLimits_mergeUserInputQuestions {existing incoming : List Question}
    (he : ∀ q ∈ existing, q.WithinLimits) (hi : ∀ q ∈ incoming, q.WithinLimits) :
    ∀ q ∈ mergeUserInputQuestions existing incoming, q.WithinLimits := by
  intro q hq
  rcases List.mem_append.mp hq with hq | hq
  · obtain ⟨question, hquestion, rfl⟩ := List.mem_map.mp hq
    obtain ⟨hheader, htext, hanswers⟩ := hi question hquestion
    split
    next prior hprior =>
      obtain ⟨hheader', htext', hanswers'⟩ :=
        he prior (List.mem_reverse.mp (List.mem_of_find?_eq_some hprior))
      refine ⟨unlessBlank_le hheader hheader', unlessBlank_le htext htext', ?_⟩
      show ∀ answer ∈ (if question.answers.isEmpty then prior.answers else question.answers), _
      split
      · exact hanswers'
      · exact hanswers
    next => exact ⟨hheader, htext, hanswers⟩
  · exact he q (List.mem_of_mem_filter hq)

/-- Of two lists of changes one is chosen. -/
theorem changes_or_le {existing incoming : Option (List Change)} {n : Nat}
    (he : ∀ cs ∈ existing, ∀ c ∈ cs, ∀ d ∈ c.diff, d.utf16Len ≤ n)
    (hi : ∀ cs ∈ incoming, ∀ c ∈ cs, ∀ d ∈ c.diff, d.utf16Len ≤ n) :
    ∀ cs ∈ (incoming.filter fun cs => !cs.isEmpty).or existing,
      ∀ c ∈ cs, ∀ d ∈ c.diff, d.utf16Len ≤ n := by
  intro cs hcs
  rcases Option.or_eq_some_iff.mp hcs with hcs | ⟨_, hcs⟩
  · exact hi cs (Option.eq_some_of_filter_eq_some hcs)
  · exact he cs hcs

theorem getD_le {text : Option Text} {n : Nat} (h : ∀ t ∈ text, t.utf16Len ≤ n) :
    (text.getD []).utf16Len ≤ n := by
  cases text with
  | none => exact Nat.zero_le n
  | some t => exact h t rfl

theorem withinLimits_mergeItem {existing item : ConversationItem} (he : WithinLimits existing)
    (hi : WithinLimits item) : WithinLimits (mergeItem existing item) := by
  obtain ⟨id, existing⟩ := existing
  obtain ⟨id', item⟩ := item
  cases existing <;> cases item <;> try exact hi
  case message.message e i => exact longerText_le he hi
  case userInput.userInput e i => exact withinLimits_mergeUserInputQuestions he hi
  case reasoning.reasoning e i => exact ⟨longerText_le he.1 hi.1, longerText_le he.2 hi.2⟩
  case diff.diff e i => exact longerText_le he hi
  case tool.tool e i =>
    obtain ⟨htitle, hdetail, houtput, hchanges⟩ := (show e.title.utf16Len ≤ _ ∧ _ from he)
    obtain ⟨htitle', hdetail', houtput', hchanges'⟩ := (show i.title.utf16Len ≤ _ ∧ _ from hi)
    refine ⟨unlessBlank_le htitle' htitle, unlessBlank_le hdetail' hdetail, ?_,
      changes_or_le hchanges hchanges'⟩
    rintro output ⟨⟩
    exact unlessBlank_le (getD_le houtput') (getD_le houtput)

theorem Plain.mergeItem {existing item : ConversationItem} (he : Plain existing) (hi : Plain item) :
    Plain (mergeItem existing item) := by
  refine ⟨withinLimits_mergeItem he.1 hi.1, ?_⟩
  obtain ⟨id, existing⟩ := existing
  obtain ⟨id', item⟩ := item
  intro r hr
  cases existing <;> cases item <;> first | exact absurd rfl (hi.2 _) | cases hr

theorem plain_upsertItem {list : List ConversationItem} {item : ConversationItem}
    (hlist : ∀ i ∈ list, Plain i) (hitem : Plain item) : ∀ i ∈ upsertItem list item, Plain i := by
  induction list with
  | nil =>
    intro i hi
    rwa [List.mem_singleton.mp hi]
  | cons existing rest ih =>
    unfold upsertItem
    intro i hi
    split at hi
    · rcases List.mem_cons.mp hi with rfl | hi
      · exact (hlist existing List.mem_cons_self).mergeItem hitem
      · exact hlist i (List.mem_cons_of_mem _ hi)
    · rcases List.mem_cons.mp hi with rfl | hi
      · exact hlist i List.mem_cons_self
      · exact ih (fun j hj => hlist j (List.mem_cons_of_mem _ hj)) i hi

/-! ### Sequences of updates -/

/-- An update of a thread. -/
structure Update where
  workspaceId : Text
  item : ConversationItem
  hasCustomName : Bool

def Update.action (threadId : Text) (update : Update) : ThreadAction :=
  .upsertItem update.workspaceId threadId update.item update.hasCustomName

/-- None of the updates touches a merged item. -/
def UnmergedUpdates : List ConversationItem → List ConversationItem → Prop
  | _, [] => True
  | raw, item :: rest => Unmerged raw item ∧ UnmergedUpdates (upsertItem raw item) rest

/-- What the reducer does with an item that is no review. -/
theorem threadReducer_upsertItem {s : ThreadState} {update : Update} (threadId : Text)
    (hplain : Plain update.item) (hmax : s.maxItemsPerThread = none) :
    (threadReducer s (update.action threadId)).itemsByThread threadId =
        prepareThreadItems none (upsertItem (s.itemsByThread threadId) update.item) ∧
      (threadReducer s (update.action threadId)).maxItemsPerThread = none := by
  have hreview : ∀ list, reviewUpsert list update.item = some (list, update.item) := by
    intro list
    unfold reviewUpsert
    split
    next review hbody => exact absurd hbody (hplain.2 review)
    next => rfl
  show (s.upsert update.workspaceId threadId update.item update.hasCustomName).itemsByThread
      threadId = _ ∧
    (s.upsert update.workspaceId threadId update.item update.hasCustomName).maxItemsPerThread = none
  unfold ThreadState.upsert
  simp only [normalizeItem_of_withinLimits hplain.1, hreview]
  split
  · refine ⟨?_, hmax⟩
    simp [ThreadState.setThreadsOf, ThreadState.storeItems, ThreadState.setItems, hmax]
  · refine ⟨?_, hmax⟩
    simp [ThreadState.storeItems, ThreadState.setItems, hmax]

/-- The updates from a state whose list is the view of the items so far. -/
theorem live_view_from {s : ThreadState} {threadId : Text} {raw : List ConversationItem}
    (updates : List Update) (hmax : s.maxItemsPerThread = none)
    (hraw : ∀ item ∈ raw, Plain item)
    (hview : s.itemsByThread threadId = prepareThreadItems none raw)
    (hplain : ∀ update ∈ updates, Plain update.item)
    (hunmerged : UnmergedUpdates raw (updates.map Update.item)) :
    ((updates.map (Update.action threadId)).foldl threadReducer s).itemsByThread threadId =
      prepareThreadItems none ((updates.map Update.item).foldl upsertItem raw) := by
  induction updates generalizing s raw with
  | nil => exact hview
  | cons update updates ih =>
    obtain ⟨hfirst, hrest⟩ := hunmerged
    have hitem := hplain update List.mem_cons_self
    have hraw' := plain_upsertItem hraw hitem
    obtain ⟨hitems, hmax'⟩ := threadReducer_upsertItem threadId hitem hmax
    refine ih hmax' hraw' ?_ (fun u hu => hplain u (List.mem_cons_of_mem _ hu)) hrest
    have hshown := plain_summarizeExploration hraw
    rw [hitems, hview, prepareThreadItems_plain hraw, prepareThreadItems_plain hraw',
      prepareThreadItems_plain (plain_upsertItem hshown hitem), summarize_upsert hfirst]

/-- **The live view is the reloaded view.** For every sequence of updates of one thread, with
    texts within the limits and no reviews, that does not touch a merged item: the list that
    the reducer makes, which prepares it after every update, is the prepared list of the
    normalised items put in one after the other. -/
theorem live_view_eq_prepared (s : ThreadState) (threadId : Text) (updates : List Update)
    (hmax : s.maxItemsPerThread = none) (hempty : s.itemsByThread threadId = [])
    (hplain : ∀ update ∈ updates, Plain update.item)
    (hunmerged : UnmergedUpdates [] (updates.map fun update => normalizeItem update.item)) :
    ((updates.map (Update.action threadId)).foldl threadReducer s).itemsByThread threadId =
      prepareThreadItems none (rawItems (updates.map fun update => normalizeItem update.item)) := by
  have hnormalized : (updates.map fun update => normalizeItem update.item) =
      updates.map Update.item :=
    List.map_congr_left fun update hu => normalizeItem_of_withinLimits (hplain update hu).1
  rw [hnormalized] at hunmerged ⊢
  exact live_view_from updates hmax (fun _ h => absurd h List.not_mem_nil) hempty hplain hunmerged

/-! ### Commands one after the other and at the same time -/

/-- A command that reads a file. -/
def readCommand (id command status : String) : Update where
  workspaceId := "w".toList
  item := ⟨id.toList, .tool
    { toolType := "commandExecution".toList, title := command.toList, detail := [],
      status := some status.toList }⟩
  hasCustomName := false

/-- The list of a thread is not limited. -/
def unlimited : ThreadState := { initialState with maxItemsPerThread := none }

/-- A command that starts and completes. -/
def oneCommand : List Update :=
  [readCommand "a" "Command: cat a" "inProgress", readCommand "a" "Command: cat a" "completed"]

/-- Two commands that run at the same time; the first completes. -/
def twoCommands : List Update :=
  [readCommand "a" "Command: cat a" "inProgress", readCommand "b" "Command: cat b" "inProgress",
    readCommand "a" "Command: cat a" "completed"]

theorem plain_readCommand {id command status : String}
    (h : Text.utf16Len command.toList ≤ 200) : Plain (readCommand id command status).item := by
  have hlimits : WithinLimits (readCommand id command status).item := by
    refine ⟨h, Nat.zero_le _, ?_, ?_⟩
    · intro _ houtput
      cases houtput
    · intro _ hchanges
      cases hchanges
  exact ⟨hlimits, nofun⟩

theorem plain_oneCommand : ∀ update ∈ oneCommand, Plain update.item := by
  intro update hupdate
  simp only [oneCommand, List.mem_cons, List.not_mem_nil, or_false] at hupdate
  rcases hupdate with rfl | rfl <;> exact plain_readCommand (by decide +kernel)

theorem plain_twoCommands : ∀ update ∈ twoCommands, Plain update.item := by
  intro update hupdate
  simp only [twoCommands, List.mem_cons, List.not_mem_nil, or_false] at hupdate
  rcases hupdate with rfl | rfl | rfl <;> exact plain_readCommand (by decide +kernel)

/-- There is nothing to touch in an empty list. -/
theorem unmerged_nil (item : ConversationItem) : Unmerged [] item := by
  intro before existing after hraw
  simp at hraw

/-- A list of one item has no merged one. -/
theorem unmerged_singleton {existing item : ConversationItem}
    (hshown : display (mergeItem existing item) = display item) : Unmerged [existing] item := by
  intro before found after hraw _
  obtain ⟨rfl, hrest⟩ : before = [] ∧ found :: after = [existing] := by
    cases before with
    | nil => exact ⟨rfl, hraw.symm⟩
    | cons first rest => simp at hraw
  obtain ⟨rfl, rfl⟩ := List.cons_eq_cons.mp hrest
  have halone : StandsAlone [] found [] := ⟨by simp, by simp⟩
  exact ⟨halone, fun _ _ _ => hshown⟩

/-- An item and an update of it. -/
theorem unmergedUpdates_pair {first second : ConversationItem}
    (hshown : display (mergeItem first second) = display second) :
    UnmergedUpdates [] [first, second] :=
  ⟨unmerged_nil first, unmerged_singleton hshown, trivial⟩

/-- A command that starts and completes is shown live as it is after a reload. -/
theorem live_view_oneCommand :
    ((oneCommand.map (Update.action "t".toList)).foldl threadReducer unlimited).itemsByThread
        "t".toList =
      prepareThreadItems none
        (rawItems (oneCommand.map fun update => normalizeItem update.item)) := by
  refine live_view_eq_prepared unlimited "t".toList oneCommand rfl rfl plain_oneCommand ?_
  exact unmergedUpdates_pair (by decide +kernel)

/-- **The live view is not the reloaded view.** The summaries of two commands that run at the
    same time are put together under the id of the first.  When the first completes, its update
    replaces both, and the second is no longer shown; a reload shows it. -/
theorem twoCommands_differ :
    (∀ update ∈ twoCommands, Plain update.item) ∧
      unlimited.maxItemsPerThread = none ∧ unlimited.itemsByThread "t".toList = [] ∧
      ids (((twoCommands.map (Update.action "t".toList)).foldl threadReducer
        unlimited).itemsByThread "t".toList) = ["a".toList] ∧
      ids (prepareThreadItems none (rawItems (twoCommands.map fun update =>
        normalizeItem update.item))) = ["a".toList, "b".toList] :=
  ⟨plain_twoCommands, rfl, rfl, by decide +kernel, by decide +kernel⟩

end CodexMonitor.Conversation
