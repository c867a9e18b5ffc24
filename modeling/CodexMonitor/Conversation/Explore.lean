import CodexMonitor.Conversation.Commands

namespace CodexMonitor.Conversation

open Text

/-!
# Conversation — the view of a thread

`prepareThreadItems` of `utils/threadItems.explore.ts`: the list that is shown for the items of
a thread.  Commands that explore are shown as their entries, and neighbours of one status are
put together under the id of the first.

* `display` — how one item is shown.
* `exploreCombination` — two neighbours that are put together, as a `Combination`.
* `summarizeExploration`, `prepareThreadItems` — the view.
* `ids_prepareThreadItems_sublist` — preparing a list makes no new ids.
* `prepareThreadItems_plain` — for short items and without reviews, only the summary is left.
-/

/-! ### Exploration -/

def ExploreKind.name : ExploreKind → Text
  | .read => "read".toList
  | .search => "search".toList
  | .list => "list".toList
  | .run => "run".toList

def entryKey (entry : ExploreEntry) : Text :=
  entry.kind.name ++ "|".toList ++ entry.label ++ "|".toList ++ entry.detail.getD []

def mergeExploreEntries (base next : List ExploreEntry) : List ExploreEntry :=
  dedupOn entryKey (base ++ next)

theorem mergeExploreEntries_assoc (a b c : List ExploreEntry) :
    mergeExploreEntries (mergeExploreEntries a b) c =
      mergeExploreEntries a (mergeExploreEntries b c) := by
  unfold mergeExploreEntries
  rw [dedupOn_dedupOn_append, dedupOn_append_dedupOn, List.append_assoc]

/-- How an item is shown. -/
def display (item : ConversationItem) : ConversationItem :=
  match item.body with
  | .tool tool =>
      if tool.toolType = "commandExecution".toList then
        match summarizeCommandExecution tool with
        | some summary => { item with body := .explore summary }
        | none => item
      else item
  | _ => item

/-- The item `last`, which shows `e`, with the entries of `f`. -/
def joinExplore (last : ConversationItem) (e f : Explore) : ConversationItem :=
  { last with body := .explore { e with entries := mergeExploreEntries e.entries f.entries } }

theorem joinExplore_body (last : ConversationItem) (e f : Explore) :
    (joinExplore last e f).body =
      .explore { e with entries := mergeExploreEntries e.entries f.entries } :=
  rfl

/-- Two explorations of one status are put together, under the id of the first. -/
def combineExplore (last item : ConversationItem) : Option ConversationItem :=
  match last.body, item.body with
  | .explore e, .explore f => if e.status = f.status then some (joinExplore last e f) else none
  | _, _ => none

theorem combineExplore_eq_some {last item combined : ConversationItem}
    (h : combineExplore last item = some combined) :
    ∃ e f, last.body = .explore e ∧ item.body = .explore f ∧ e.status = f.status ∧
      combined = joinExplore last e f := by
  unfold combineExplore at h
  split at h
  next e f hlast hitem =>
    split at h
    next hstatus =>
      cases h
      exact ⟨e, f, hlast, hitem, hstatus, rfl⟩
    next => cases h
  next => cases h

theorem combineExplore_of_status {last item : ConversationItem} {e f : Explore}
    (hlast : last.body = .explore e) (hitem : item.body = .explore f)
    (hstatus : e.status = f.status) :
    combineExplore last item = some (joinExplore last e f) := by
  unfold combineExplore
  simp only [hlast, hitem, hstatus, if_true]

theorem combineExplore_eq_none {last item : ConversationItem} :
    combineExplore last item = none ↔
      ∀ e f, last.body = .explore e → item.body = .explore f → e.status ≠ f.status := by
  constructor
  · intro h e f hlast hitem hstatus
    rw [combineExplore_of_status hlast hitem hstatus] at h
    cases h
  · intro h
    cases hcombined : combineExplore last item with
    | none => rfl
    | some combined =>
      obtain ⟨e, f, hlast, hitem, hstatus, _⟩ := combineExplore_eq_some hcombined
      exact absurd hstatus (h e f hlast hitem)

/-- Putting explorations together, with its laws. -/
def exploreCombination : Combination ConversationItem where
  combine := combineExplore
  assoc := by
    intro a b c ab bc hab hbc
    obtain ⟨e, f, ha, hb, hef, rfl⟩ := combineExplore_eq_some hab
    obtain ⟨f', g, hb', hc, hfg, rfl⟩ := combineExplore_eq_some hbc
    obtain rfl : f = f' := Body.explore.inj (hb.symm.trans hb')
    have hleft : combineExplore (joinExplore a e f) c = some (joinExplore (joinExplore a e f) _ g) :=
      combineExplore_of_status (joinExplore_body a e f) hc (hef.trans hfg)
    have hright : combineExplore a (joinExplore b f g) = some (joinExplore a e _) :=
      combineExplore_of_status ha (joinExplore_body b f g) hef
    rw [hleft, hright]
    simp only [joinExplore, mergeExploreEntries_assoc, Option.isSome_some, and_self]
  left := by
    intro a b c bc hab hbc
    obtain ⟨f, g, hb, _, _, rfl⟩ := combineExplore_eq_some hbc
    rw [combineExplore_eq_none] at hab ⊢
    rintro e _ ha ⟨⟩
    exact hab e f ha hb
  right := by
    intro a b c ab hbc hab
    obtain ⟨e, f, _, hb, hef, rfl⟩ := combineExplore_eq_some hab
    rw [combineExplore_eq_none] at hbc ⊢
    rintro _ g ⟨⟩ hc
    show e.status ≠ g.status
    rw [hef]
    exact hbc f g hb hc

def summarizeExploration (items : List ConversationItem) : List ConversationItem :=
  exploreCombination.coalesce (items.map display)

/-! ### Preparing a list -/

/-- An assistant message that repeats the text of the completed review before it. -/
def echoesReview (last : Option ConversationItem) (item : ConversationItem) : Bool :=
  match item.body, last.map ConversationItem.body with
  | .message m, some (.review r) =>
      m.role = .assistant && r.state = .completed && m.text.jsTrim = r.text.jsTrim
  | _, _ => false

/-- The list without the messages that repeat a review; `last` is the last item kept. -/
def dropReviewEchoes (last : Option ConversationItem) :
    List ConversationItem → List ConversationItem
  | [] => []
  | item :: rest =>
      if echoesReview last item then dropReviewEchoes last rest
      else item :: dropReviewEchoes (some item) rest

def chatScrollbackDefault : Nat := 200

/-- `items.slice(-n)` of a list that is longer than `n`. -/
def lastItems (n : Nat) (items : List ConversationItem) : List ConversationItem :=
  items.drop (items.length - n)

/-- The number of items that are kept, if it is limited. -/
def limitItems (maxItemsPerThread : Option Nat) (items : List ConversationItem) :
    List ConversationItem :=
  match maxItemsPerThread with
  | none => items
  | some n => lastItems (if 0 < n then n else chatScrollbackDefault) items

def toolOutputRecentItems : Nat := 40

/-- The texts of a tool that is not among the last items. -/
def truncateOldTool (item : ConversationItem) : ConversationItem :=
  match item.body with
  | .tool t =>
      { item with body := .tool { t with
        output := t.output.map (truncateText · maxItemText)
        changes := t.changes.map (List.map (Change.truncate (truncateText · maxItemText))) } }
  | _ => item

def truncateOldTools (items : List ConversationItem) : List ConversationItem :=
  let cutoff := items.length - toolOutputRecentItems
  (items.take cutoff).map truncateOldTool ++ items.drop cutoff

/-- **The view of a thread.** -/
def prepareThreadItems (maxItemsPerThread : Option Nat) (items : List ConversationItem) :
    List ConversationItem :=
  let normalized := (dropReviewEchoes none items).map normalizeItem
  truncateOldTools (summarizeExploration (limitItems maxItemsPerThread normalized))

/-! ### Ids -/

theorem display_id (item : ConversationItem) : (display item).id = item.id := by
  unfold display
  split
  · split
    · split <;> rfl
    · rfl
  · rfl

theorem ids_summarizeExploration_sublist (items : List ConversationItem) :
    List.Sublist (ids (summarizeExploration items)) (ids items) := by
  have hdisplay : ids (items.map display) = ids items := by
    unfold ids
    rw [List.map_map]
    exact List.map_congr_left fun item _ => display_id item
  rw [← hdisplay]
  refine Combination.map_coalesce_sublist ?_ _
  intro a b c h
  obtain ⟨_, _, _, _, _, rfl⟩ := combineExplore_eq_some h
  rfl

theorem dropReviewEchoes_sublist (last : Option ConversationItem)
    (items : List ConversationItem) : List.Sublist (dropReviewEchoes last items) items := by
  induction items generalizing last with
  | nil => exact List.Sublist.refl _
  | cons item rest ih =>
    unfold dropReviewEchoes
    split
    · exact (ih last).cons _
    · exact (ih (some item)).cons_cons _

theorem limitItems_sublist (n : Option Nat) (items : List ConversationItem) :
    List.Sublist (limitItems n items) items := by
  cases n with
  | none => exact List.Sublist.refl _
  | some n => exact List.drop_sublist _ _

theorem truncateOldTool_id (item : ConversationItem) : (truncateOldTool item).id = item.id := by
  unfold truncateOldTool
  split <;> rfl

theorem ids_truncateOldTools (items : List ConversationItem) :
    ids (truncateOldTools items) = ids items := by
  unfold truncateOldTools ids
  simp only [List.map_append, List.map_map]
  rw [show ConversationItem.id ∘ truncateOldTool = ConversationItem.id from
    funext truncateOldTool_id, ← List.map_append, List.take_append_drop]

/-- **Preparing a list makes no new ids.** -/
theorem ids_prepareThreadItems_sublist (n : Option Nat) (items : List ConversationItem) :
    List.Sublist (ids (prepareThreadItems n items)) (ids items) := by
  have hnormalized : ∀ l, ids (l.map normalizeItem) = ids l := by
    intro l
    unfold ids
    rw [List.map_map]
    rfl
  unfold prepareThreadItems
  rw [ids_truncateOldTools]
  refine (ids_summarizeExploration_sublist _).trans ?_
  refine ((limitItems_sublist n _).map ConversationItem.id).trans ?_
  show List.Sublist (ids ((dropReviewEchoes none items).map normalizeItem)) _
  rw [hnormalized]
  exact (dropReviewEchoes_sublist none items).map ConversationItem.id

/-! ### Short items without reviews -/

/-- An item that only the summary of explorations touches. -/
def Plain (item : ConversationItem) : Prop := WithinLimits item ∧ ∀ r, item.body ≠ .review r

theorem Plain.display {item : ConversationItem} (h : Plain item) : Plain (display item) := by
  unfold Conversation.display
  split
  · split
    · split
      · exact ⟨trivial, nofun⟩
      · exact h
    · exact h
  · exact h

theorem plain_summarizeExploration {items : List ConversationItem} (h : ∀ item ∈ items, Plain item) :
    ∀ item ∈ summarizeExploration items, Plain item := by
  refine Combination.coalesce_forall (P := Plain) ?_ ?_
  · intro a b c hc _ _
    obtain ⟨_, _, _, _, _, rfl⟩ := combineExplore_eq_some hc
    exact ⟨trivial, nofun⟩
  · intro item hitem
    obtain ⟨source, hsource, rfl⟩ := List.mem_map.mp hitem
    exact (h source hsource).display

theorem truncateOldTool_of_plain {item : ConversationItem} (h : Plain item) :
    truncateOldTool item = item := by
  obtain ⟨id, body⟩ := item
  cases body with
  | tool t =>
    obtain ⟨_, _, houtput, hchanges⟩ := (show t.title.utf16Len ≤ _ ∧ _ from h.1)
    have hout : t.output.map (truncateText · maxItemText) = t.output :=
      map_eq_self_of_mem fun output ho => truncateText_of_le (houtput output ho)
    have hch : t.changes.map (List.map (Change.truncate (truncateText · maxItemText))) =
        t.changes :=
      map_truncate_eq_self fun cs hcs c hc d hd => truncateText_of_le (hchanges cs hcs c hc d hd)
    simp only [truncateOldTool, hout, hch]
  | _ => rfl

theorem dropReviewEchoes_of_plain {items : List ConversationItem} {last : Option ConversationItem}
    (h : ∀ item ∈ items, Plain item) (hlast : ∀ item ∈ last, Plain item) :
    dropReviewEchoes last items = items := by
  induction items generalizing last with
  | nil => rfl
  | cons item rest ih =>
    have hno : echoesReview last item = false := by
      unfold echoesReview
      split
      next m r _ heq =>
        obtain ⟨review, hreview, hbody⟩ := Option.map_eq_some_iff.mp heq
        exact absurd hbody ((hlast review hreview).2 r)
      next => rfl
    rw [dropReviewEchoes, hno, if_neg Bool.false_ne_true]
    rw [ih (fun i hi => h i (List.mem_cons_of_mem _ hi))]
    rintro i ⟨⟩
    exact h item List.mem_cons_self

/-- **Of a list of plain items the view is the summary.** -/
theorem prepareThreadItems_plain {items : List ConversationItem}
    (h : ∀ item ∈ items, Plain item) :
    prepareThreadItems none items = summarizeExploration items := by
  have hnormalized : items.map normalizeItem = items :=
    (List.map_congr_left fun item hi => normalizeItem_of_withinLimits (h item hi).1).trans
      (List.map_id items)
  have hold : ∀ l : List ConversationItem, (∀ item ∈ l, Plain item) → truncateOldTools l = l := by
    intro l hl
    have hmap : (l.take (l.length - toolOutputRecentItems)).map truncateOldTool =
        l.take (l.length - toolOutputRecentItems) :=
      (List.map_congr_left fun item hi =>
        truncateOldTool_of_plain (hl item (List.mem_of_mem_take hi))).trans (List.map_id _)
    unfold truncateOldTools
    simp only [hmap, List.take_append_drop]
  unfold prepareThreadItems
  rw [dropReviewEchoes_of_plain h (fun _ hlast => by cases hlast), hnormalized]
  exact hold _ (plain_summarizeExploration h)

end CodexMonitor.Conversation
