import CodexMonitor.Conversation.Explore
import Mathlib.Data.List.Nodup

namespace CodexMonitor.Conversation

open Text

/-!
# Conversation — updating an item of a list

`utils/threadItems.listOps.ts`: an item is put into a list under its id, where it is merged
with the item of that id if the two are of one kind.

* `mergeItem` — the item that takes the place of the existing one.
* `upsertItem` — the list with the item.
* `nodup_ids_upsertItem` — distinct ids stay distinct.
-/

/-- The longer of two texts; the incoming one if they are of one length. -/
def longerText (existing incoming : Text) : Text :=
  if existing.utf16Len ≤ incoming.utf16Len then incoming else existing

/-- The incoming text unless it is blank. -/
def unlessBlank (incoming existing : Text) : Text :=
  if incoming.jsTrim.isEmpty then existing else incoming

/-- The incoming status unless there is none or it is blank. -/
def mergeStatus (incoming existing : Option Text) : Option Text :=
  (incoming.filter fun status => !status.jsTrim.isEmpty).or existing

def mergeQuestion (prior question : Question) : Question where
  id := question.id
  header := unlessBlank question.header prior.header
  question := unlessBlank question.question prior.question
  answers := if question.answers.isEmpty then prior.answers else question.answers

def mergeUserInputQuestions (existing incoming : List Question) : List Question :=
  let merged := incoming.map fun question =>
    match existing.reverse.find? fun prior => prior.id = question.id with
    | some prior => mergeQuestion prior question
    | none => question
  merged ++ existing.filter fun question => !(incoming.map Question.id).contains question.id

def mergeMessage (existing item : Message) : Message where
  role := item.role
  text := longerText existing.text item.text
  images := (item.images.filter fun images => !images.isEmpty).or existing.images

def mergeReasoning (existing item : Reasoning) : Reasoning where
  summary := longerText existing.summary item.summary
  content := longerText existing.content item.content

def mergeTool (existing item : Tool) : Tool where
  toolType := item.toolType
  title := unlessBlank item.title existing.title
  detail := unlessBlank item.detail existing.detail
  status := mergeStatus item.status existing.status
  output := some (unlessBlank (item.output.getD []) (existing.output.getD []))
  durationMs := item.durationMs.or existing.durationMs
  changes := (item.changes.filter fun changes => !changes.isEmpty).or existing.changes
  collab := item.collab.or existing.collab

def mergeDiff (existing item : Diff) : Diff where
  title := unlessBlank item.title existing.title
  diff := longerText existing.diff item.diff
  status := mergeStatus item.status existing.status

def mergeReview (existing item : Review) : Review where
  state := item.state
  text := longerText existing.text item.text

/-- What takes the place of an item.  An exploration, like an item of another kind, is
    replaced. -/
def mergeBody (existing item : Body) : Body :=
  match existing, item with
  | .message e, .message i => .message (mergeMessage e i)
  | .userInput e, .userInput i => .userInput (mergeUserInputQuestions e i)
  | .reasoning e, .reasoning i => .reasoning (mergeReasoning e i)
  | .tool e, .tool i => .tool (mergeTool e i)
  | .diff e, .diff i => .diff (mergeDiff e i)
  | .review e, .review i => .review (mergeReview e i)
  | _, item => item

def mergeItem (existing item : ConversationItem) : ConversationItem :=
  { item with body := mergeBody existing.body item.body }

/-- The item under its id: in the place of the first item with that id, or at the end. -/
def upsertItem : List ConversationItem → ConversationItem → List ConversationItem
  | [], item => [item]
  | existing :: rest, item =>
      if existing.id = item.id then mergeItem existing item :: rest
      else existing :: upsertItem rest item

/-! ### Places and ids -/

theorem upsertItem_of_not_mem {list : List ConversationItem} {item : ConversationItem}
    (h : item.id ∉ ids list) : upsertItem list item = list ++ [item] := by
  induction list with
  | nil => rfl
  | cons existing rest ih =>
    obtain ⟨hne, hrest⟩ := not_or.mp (List.mem_cons.not.mp h)
    rw [upsertItem, if_neg fun heq => hne heq.symm, ih hrest, List.cons_append]

theorem upsertItem_append {before after : List ConversationItem} {existing item : ConversationItem}
    (hbefore : item.id ∉ ids before) (hid : existing.id = item.id) :
    upsertItem (before ++ existing :: after) item =
      before ++ mergeItem existing item :: after := by
  induction before with
  | nil => exact if_pos hid
  | cons first before ih =>
    obtain ⟨hne, hrest⟩ := not_or.mp (List.mem_cons.not.mp hbefore)
    rw [List.cons_append, upsertItem, if_neg fun heq => hne heq.symm, ih hrest, List.cons_append]

/-- The first item with an id of the list. -/
theorem exists_first_of_mem_ids {list : List ConversationItem} {id : Text} (h : id ∈ ids list) :
    ∃ before existing after, list = before ++ existing :: after ∧ existing.id = id ∧
      id ∉ ids before := by
  obtain ⟨first, last, hlist, hfirst⟩ := List.eq_append_cons_of_mem h
  obtain ⟨before, rest, rfl, rfl, hrest⟩ := List.map_eq_append_iff.mp hlist
  obtain ⟨existing, after, rfl, hid, _⟩ := List.map_eq_cons_iff.mp hrest
  exact ⟨before, existing, after, rfl, hid, hfirst⟩

theorem ids_append (l m : List ConversationItem) : ids (l ++ m) = ids l ++ ids m :=
  List.map_append

theorem ids_upsertItem_of_mem {list : List ConversationItem} {item : ConversationItem}
    (h : item.id ∈ ids list) : ids (upsertItem list item) = ids list := by
  obtain ⟨before, existing, after, rfl, hid, hbefore⟩ := exists_first_of_mem_ids h
  rw [upsertItem_append hbefore hid, ids_append, ids_append]
  show _ ++ item.id :: _ = _ ++ existing.id :: _
  rw [hid]

/-- An item with a new id is added at the end. -/
theorem nodup_concat {list : List ConversationItem} {item : ConversationItem} (h : (ids list).Nodup)
    (hnew : item.id ∉ ids list) : (ids (list ++ [item])).Nodup := by
  have hids : ids (list ++ [item]) = (ids list).concat item.id := by
    rw [ids_append, List.concat_eq_append]
    rfl
  exact hids ▸ List.Nodup.concat hnew h

/-- **Distinct ids stay distinct.** -/
theorem nodup_ids_upsertItem {list : List ConversationItem} (item : ConversationItem)
    (h : (ids list).Nodup) : (ids (upsertItem list item)).Nodup := by
  by_cases hmem : item.id ∈ ids list
  · rw [ids_upsertItem_of_mem hmem]
    exact h
  · rw [upsertItem_of_not_mem hmem]
    exact nodup_concat h hmem

end CodexMonitor.Conversation
