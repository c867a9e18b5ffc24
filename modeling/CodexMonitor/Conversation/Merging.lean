import CodexMonitor.Conversation.ListOps
import CodexMonitor.Lib.KeyedUnion

namespace CodexMonitor.Conversation

open Text

/-!
# Conversation — merging the items of a server with the local ones

`utils/threadItems.listOps.ts`: two lists of items are put together under their ids, and of two
items with one id the richer one is chosen, field by field for some kinds.

* `chooseRicherItem`, `mergeThreadItems` — the merge.
* `chooseRicherItem_again` — the same local item is not chosen over the result.
* `chooseRicherItem_self` — an item merged with itself.
* `mergeThreadItems_union` — what is in the merge, and what merging once more does.
-/

/-! ### The merge -/

/-- The length of the answers to some questions, each with its question. -/
def questionsScore (questions : List Question) : Nat :=
  (questions.map fun q => q.question.utf16Len + (joinWith "\n".toList q.answers).utf16Len).sum

def reasoningLength (r : Reasoning) : Nat := r.summary.utf16Len + r.content.utf16Len

/-- The list unless it is empty or absent. -/
def unlessNone {α : Type*} (remote localList : Option (List α)) : Option (List α) :=
  if (remote.getD []).isEmpty then localList else remote

/-- The fields of a collaboration call.  Where both items have none of them, so has the merge. -/
def richerCollab (remote localCollab : Option Collab) : Option Collab :=
  if remote.isNone && localCollab.isNone then none
  else
    let r := remote.getD {}
    let l := localCollab.getD {}
    some
      { sender := r.sender.or l.sender
        receiver := r.receiver.or l.receiver
        receivers := unlessNone r.receivers l.receivers
        statuses := unlessNone r.statuses l.statuses }

def richerTool (remote localTool : Tool) : Tool :=
  { remote with
    status := mergeStatus remote.status localTool.status
    output := some (unlessBlank (remote.output.getD []) (localTool.output.getD []))
    changes := remote.changes.or localTool.changes
    collab := richerCollab remote.collab localTool.collab }

/-- The local text if it is longer. -/
def richerText (remote localText : Text) : Text :=
  if remote.utf16Len < localText.utf16Len then localText else remote

def richerDiff (remote localDiff : Diff) : Diff :=
  { remote with
    diff := richerText remote.diff localDiff.diff
    status := mergeStatus remote.status localDiff.status }

/-- **The richer of two items** of one id. -/
def chooseRicherItem (remote localItem : ConversationItem) : ConversationItem :=
  match remote.body, localItem.body with
  | .message r, .message l => if r.text.utf16Len < l.text.utf16Len then localItem else remote
  | .userInput r, .userInput l => if questionsScore r < questionsScore l then localItem else remote
  | .reasoning r, .reasoning l =>
      if reasoningLength r < reasoningLength l then localItem else remote
  | .tool r, .tool l => { remote with body := .tool (richerTool r l) }
  | .diff r, .diff l => { remote with body := .diff (richerDiff r l) }
  | _, _ => remote

def mergeThreadItems (remoteItems localItems : List ConversationItem) : List ConversationItem :=
  if localItems.isEmpty then remoteItems
  else
    remoteItems.map (fun item =>
      match localItems.reverse.find? fun localItem => localItem.id = item.id with
      | some localItem => chooseRicherItem item localItem
      | none => item) ++
    localItems.filter fun item => item.id ∉ ids remoteItems

/-- The items that a resumed thread is shown with, `buildResumeHydrationPlan`. -/
def hydratedItems (replaceLocal : Bool) (items localItems : List ConversationItem) :
    List ConversationItem :=
  if !localItems.isEmpty && !replaceLocal then localItems
  else
    let hasOverlap := items.any fun item => localItems.any fun localItem => localItem.id = item.id
    if items.isEmpty then localItems
    else if replaceLocal then items
    else if !localItems.isEmpty && !hasOverlap then localItems
    else mergeThreadItems items localItems

/-! ### Two items of one id -/

theorem chooseRicherItem_id {remote localItem : ConversationItem} (h : localItem.id = remote.id) :
    (chooseRicherItem remote localItem).id = remote.id := by
  unfold chooseRicherItem
  split <;> try split
  all_goals first | rfl | exact h

theorem mergeStatus_self (status : Option Text) : mergeStatus status status = status := by
  unfold mergeStatus
  cases status with
  | none => rfl
  | some status =>
    rw [Option.filter_some]
    split <;> rfl

theorem mergeStatus_again (remote localStatus : Option Text) :
    mergeStatus (mergeStatus remote localStatus) localStatus =
      mergeStatus remote localStatus := by
  unfold mergeStatus
  cases hremote : remote.filter fun status => !status.jsTrim.isEmpty with
  | some status =>
    have hkept := (Option.filter_eq_some_iff.mp hremote).2
    rw [Option.some_or, Option.filter_some, if_pos hkept]
    rfl
  | none =>
    rw [Option.none_or]
    exact mergeStatus_self localStatus

theorem unlessBlank_again (remote localText : Text) :
    unlessBlank (unlessBlank remote localText) localText = unlessBlank remote localText := by
  unfold unlessBlank
  by_cases hblank : remote.jsTrim.isEmpty = true
  · rw [if_pos hblank, ite_self]
  · rw [if_neg hblank, if_neg hblank]

theorem unlessNone_again {α : Type*} (remote localList : Option (List α)) :
    unlessNone (unlessNone remote localList) localList = unlessNone remote localList := by
  unfold unlessNone
  by_cases hempty : (remote.getD []).isEmpty = true
  · rw [if_pos hempty, ite_self]
  · rw [if_neg hempty, if_neg hempty]

theorem richerCollab_again (remote localCollab : Option Collab) :
    richerCollab (richerCollab remote localCollab) localCollab =
      richerCollab remote localCollab := by
  unfold richerCollab
  by_cases hnone : (remote.isNone && localCollab.isNone) = true
  · rw [if_pos hnone]
    obtain ⟨-, hlocal⟩ := Bool.and_eq_true_iff.mp hnone
    rw [hlocal]
    rfl
  · rw [if_neg hnone]
    simp only [Option.isNone_some, Bool.false_and, Bool.false_eq_true, if_false, Option.getD_some,
      unlessNone_again, Option.or_assoc, Option.or_self]

theorem richerTool_again (remote localTool : Tool) :
    richerTool (richerTool remote localTool) localTool = richerTool remote localTool := by
  simp only [richerTool, mergeStatus_again, richerCollab_again, Option.getD_some,
    unlessBlank_again, Option.or_assoc, Option.or_self]

theorem richerText_again (remote localText : Text) :
    richerText (richerText remote localText) localText = richerText remote localText := by
  unfold richerText
  by_cases hlonger : remote.utf16Len < localText.utf16Len
  · rw [if_pos hlonger, ite_self]
  · rw [if_neg hlonger, if_neg hlonger]

theorem richerDiff_again (remote localDiff : Diff) :
    richerDiff (richerDiff remote localDiff) localDiff = richerDiff remote localDiff := by
  simp only [richerDiff, mergeStatus_again, richerText_again]

/-- A choice between two items, made again. -/
theorem choice_again {f : ConversationItem → ConversationItem} {remote localItem : ConversationItem}
    {m n : Nat} (hremote : f remote = if m < n then localItem else remote)
    (hlocal : f localItem = localItem) : f (f remote) = f remote := by
  rw [hremote]
  by_cases hlonger : m < n
  · rw [if_pos hlonger, hlocal]
  · rw [if_neg hlonger, hremote, if_neg hlonger]

/-- **The choice is made once**: the same local item changes nothing of its result. -/
theorem chooseRicherItem_again (remote localItem : ConversationItem) :
    chooseRicherItem (chooseRicherItem remote localItem) localItem =
      chooseRicherItem remote localItem := by
  obtain ⟨id, remote⟩ := remote
  obtain ⟨localId, localBody⟩ := localItem
  cases remote <;> cases localBody
  case message.message r l =>
    exact choice_again (f := fun item => chooseRicherItem item ⟨localId, .message l⟩) rfl
      (if_neg (Nat.lt_irrefl _))
  case userInput.userInput r l =>
    exact choice_again (f := fun item => chooseRicherItem item ⟨localId, .userInput l⟩) rfl
      (if_neg (Nat.lt_irrefl _))
  case reasoning.reasoning r l =>
    exact choice_again (f := fun item => chooseRicherItem item ⟨localId, .reasoning l⟩) rfl
      (if_neg (Nat.lt_irrefl _))
  case tool.tool r l =>
    show ConversationItem.mk id (.tool (richerTool (richerTool r l) l)) =
      ⟨id, .tool (richerTool r l)⟩
    rw [richerTool_again]
  case diff.diff r l =>
    show ConversationItem.mk id (.diff (richerDiff (richerDiff r l) l)) =
      ⟨id, .diff (richerDiff r l)⟩
    rw [richerDiff_again]
  all_goals rfl

/-- A tool item with an output, if only an empty one. -/
def giveOutput (item : ConversationItem) : ConversationItem :=
  match item.body with
  | .tool t => { item with body := .tool { t with output := some (t.output.getD []) } }
  | _ => item

theorem giveOutput_eq_self_iff {item : ConversationItem} :
    giveOutput item = item ↔ ∀ t, item.body = .tool t → t.output ≠ none := by
  obtain ⟨id, body⟩ := item
  cases body with
  | tool t =>
    show ConversationItem.mk id (.tool { t with output := some (t.output.getD []) }) =
      ⟨id, .tool t⟩ ↔ _
    rw [ConversationItem.mk.injEq, Body.tool.injEq, and_iff_right rfl]
    constructor
    · rintro h u ⟨⟩ hnone
      have houtput : some (t.output.getD []) = t.output := congrArg Tool.output h
      rw [hnone] at houtput
      cases houtput
    · intro h
      obtain ⟨output, houtput⟩ := Option.ne_none_iff_exists'.mp (h t rfl)
      obtain ⟨toolType, title, detail, status, _, durationMs, changes, collab⟩ := t
      obtain rfl := houtput
      rfl
  | _ =>
    refine iff_of_true rfl ?_
    intro t ht
    cases ht

theorem unlessNone_self {α : Type*} (list : Option (List α)) : unlessNone list list = list := by
  unfold unlessNone
  rw [ite_self]

theorem richerCollab_self (collab : Option Collab) : richerCollab collab collab = collab := by
  unfold richerCollab
  cases collab with
  | none => rfl
  | some c => simp [unlessNone_self]

theorem richerTool_self (t : Tool) :
    richerTool t t = { t with output := some (t.output.getD []) } := by
  simp only [richerTool, mergeStatus_self, richerCollab_self, Option.or_self, unlessBlank, ite_self]

/-- **An item merged with itself** is given an output if it is a tool without one. -/
theorem chooseRicherItem_self (item : ConversationItem) :
    chooseRicherItem item item = giveOutput item := by
  obtain ⟨id, body⟩ := item
  cases body with
  | tool t =>
    show ConversationItem.mk id (.tool (richerTool t t)) = _
    rw [richerTool_self]
    rfl
  | diff d =>
    show ConversationItem.mk id (.diff (richerDiff d d)) = ⟨id, .diff d⟩
    simp only [richerDiff, richerText, mergeStatus_self, ite_self]
  | message m => exact if_neg (Nat.lt_irrefl _)
  | userInput questions => exact if_neg (Nat.lt_irrefl _)
  | reasoning r => exact if_neg (Nat.lt_irrefl _)
  | _ => rfl

/-! ### The longer text -/

/-- Two items of one kind. -/
def sameKind : Body → Body → Bool
  | .message _, .message _ => true
  | .userInput _, .userInput _ => true
  | .reasoning _, .reasoning _ => true
  | .diff _, .diff _ => true
  | .review _, .review _ => true
  | .explore _, .explore _ => true
  | .tool _, .tool _ => true
  | _, _ => false

/-- The texts that the choice compares by their length: of a message, of a reasoning, which has
    two, and of a diff. -/
def comparedTexts : Body → Option (List Text)
  | .message m => some [m.text]
  | .reasoning r => some [r.summary, r.content]
  | .diff d => some [d.diff]
  | _ => none

def totalLength (texts : List Text) : Nat := (texts.map utf16Len).sum

/-- The texts of one of two items, and no shorter than those of the other. -/
def LongerOf (remote localTexts kept : List Text) : Prop :=
  (kept = remote ∨ kept = localTexts) ∧
    totalLength kept = max (totalLength remote) (totalLength localTexts)

theorem longerOf_ite (remote localTexts : List Text) :
    LongerOf remote localTexts
      (if totalLength remote < totalLength localTexts then localTexts else remote) := by
  unfold LongerOf
  split
  · exact ⟨.inr rfl, by omega⟩
  · exact ⟨.inl rfl, by omega⟩

theorem totalLength_singleton (t : Text) : totalLength [t] = t.utf16Len := by simp [totalLength]

/-- **The longer text is kept** of two messages, reasonings or diffs. -/
theorem comparedTexts_chooseRicherItem {remote localItem : ConversationItem}
    (hkind : sameKind remote.body localItem.body = true) {t u : List Text}
    (ht : comparedTexts remote.body = some t) (hu : comparedTexts localItem.body = some u) :
    ∃ v, comparedTexts (chooseRicherItem remote localItem).body = some v ∧ LongerOf t u v := by
  obtain ⟨id, remote⟩ := remote
  obtain ⟨localId, localBody⟩ := localItem
  have hchoice : ∀ {r l : ConversationItem} {m n : Nat}, comparedTexts r.body = some t →
      comparedTexts l.body = some u → m = totalLength t → n = totalLength u →
      ∃ v, comparedTexts (if m < n then l else r).body = some v ∧ LongerOf t u v := by
    rintro r l m n hr hl rfl rfl
    refine ⟨_, ?_, longerOf_ite _ _⟩
    split
    · exact hl
    · exact hr
  cases remote <;> cases localBody <;> cases hkind
  case message r l =>
    cases ht
    cases hu
    exact hchoice rfl rfl (totalLength_singleton _).symm (totalLength_singleton _).symm
  case reasoning r l =>
    cases ht
    cases hu
    have hlength : ∀ r : Reasoning, reasoningLength r = totalLength [r.summary, r.content] := by
      intro r
      simp [reasoningLength, totalLength]
    exact hchoice rfl rfl (hlength r) (hlength l)
  case diff r l =>
    cases ht
    cases hu
    refine ⟨[richerText r.diff l.diff], rfl, ?_⟩
    have hlonger := longerOf_ite [r.diff] [l.diff]
    rw [totalLength_singleton, totalLength_singleton] at hlonger
    unfold richerText
    split at hlonger
    next h =>
      rw [if_pos h]
      exact hlonger
    next h =>
      rw [if_neg h]
      exact hlonger
  all_goals cases ht

/-! ### The lists -/

variable {remoteItems localItems : List ConversationItem}

theorem mergeThreadItems_eq_keyedUnion (remoteItems localItems : List ConversationItem) :
    mergeThreadItems remoteItems localItems =
      keyedUnion ConversationItem.id chooseRicherItem remoteItems localItems := by
  unfold mergeThreadItems
  cases localItems with
  | nil =>
    have halone : ∀ item ∈ remoteItems,
        joinedWith ConversationItem.id chooseRicherItem [] item = id item := fun _ _ => rfl
    show remoteItems = keyedUnion ConversationItem.id chooseRicherItem remoteItems []
    unfold keyedUnion
    rw [List.map_congr_left halone, List.map_id]
    exact (List.append_nil _).symm
  | cons first rest =>
    show _ ++ _ = _ ++ _
    congr 1
    · refine List.map_congr_left fun item _ => ?_
      unfold joinedWith lastWithKey
      cases (first :: rest).reverse.find? fun localItem => localItem.id = item.id with
      | none => rfl
      | some localItem => rfl
    · exact List.filter_congr fun item _ => decide_eq_decide.mpr Iff.rfl

/-- **The merge is a stable union**, of lists with distinct ids: it has the ids of the one list and
    then the new ones of the other, and items with an id of their own as they are; of two
    messages, reasonings or diffs it keeps the longer text.  Merging once more gives the local
    tools that have none an empty output, and changes nothing else. -/
theorem mergeThreadItems_union (hremote : (ids remoteItems).Nodup)
    (hlocal : (ids localItems).Nodup) :
    ids (mergeThreadItems remoteItems localItems) =
        ids remoteItems ++ (ids localItems).filter (· ∉ ids remoteItems) ∧
      (ids (mergeThreadItems remoteItems localItems)).Nodup ∧
      (∀ item ∈ localItems, item.id ∉ ids remoteItems →
        item ∈ mergeThreadItems remoteItems localItems) ∧
      (∀ item ∈ remoteItems, item.id ∉ ids localItems →
        item ∈ mergeThreadItems remoteItems localItems) ∧
      (∀ r ∈ remoteItems, ∀ l ∈ localItems, l.id = r.id → sameKind r.body l.body = true →
        ∀ t u, comparedTexts r.body = some t → comparedTexts l.body = some u →
          ∃ item ∈ mergeThreadItems remoteItems localItems, item.id = r.id ∧
            ∃ v, comparedTexts item.body = some v ∧ LongerOf t u v) ∧
      mergeThreadItems (mergeThreadItems remoteItems localItems) localItems =
        (mergeThreadItems remoteItems localItems).map (fun item =>
          if item.id ∈ ids remoteItems then item else giveOutput item) ∧
      (mergeThreadItems (mergeThreadItems remoteItems localItems) localItems =
          mergeThreadItems remoteItems localItems ↔
        ∀ item ∈ localItems, item.id ∉ ids remoteItems →
          ∀ t, item.body = .tool t → t.output ≠ none) := by
  have hid : ∀ r l : ConversationItem, l.id = r.id → (chooseRicherItem r l).id = r.id :=
    fun r l h => chooseRicherItem_id h
  have hagain : ∀ r l : ConversationItem, l.id = r.id →
      chooseRicherItem (chooseRicherItem r l) l = chooseRicherItem r l :=
    fun r l _ => chooseRicherItem_again r l
  simp only [mergeThreadItems_eq_keyedUnion]
  refine ⟨?_, nodup_keys_keyedUnion hid hremote hlocal, ?_, ?_, ?_, ?_, ?_⟩
  · refine (keys_keyedUnion hid).trans (congrArg _ ?_)
    exact List.filter_congr fun item _ => decide_eq_decide.mpr Iff.rfl
  · intro item hitem hnew
    exact List.mem_append_right _ (mem_withNewKeys.mpr ⟨hitem, hnew⟩)
  · intro item hitem hnew
    refine List.mem_append_left _ (List.mem_map.mpr ⟨item, hitem, joinedWith_of_not_mem hnew⟩)
  · intro r hr l hl hsame hkind t u ht hu
    have hjoined : joinedWith ConversationItem.id chooseRicherItem localItems r =
        chooseRicherItem r l := joinedWith_of_mem hlocal hl hsame.symm
    refine ⟨chooseRicherItem r l, ?_, hid r l hsame, comparedTexts_chooseRicherItem hkind ht hu⟩
    exact List.mem_append_left _ (List.mem_map.mpr ⟨r, hr, hjoined⟩)
  · rw [keyedUnion_keyedUnion hid hlocal hagain, keyedUnion, List.map_append, List.map_map]
    congr 1
    · refine List.map_congr_left fun item hitem => ?_
      have hmem : (joinedWith ConversationItem.id chooseRicherItem localItems item).id ∈
          ids remoteItems := by
        rw [key_joinedWith hid]
        exact List.mem_map_of_mem hitem
      exact (if_pos hmem).symm
    · refine List.map_congr_left fun item hitem => ?_
      have hnew : item.id ∉ ids remoteItems := (mem_withNewKeys.mp hitem).2
      rw [if_neg hnew, chooseRicherItem_self]
  · rw [keyedUnion_keyedUnion_eq_iff hid hlocal hagain]
    simp only [chooseRicherItem_self, giveOutput_eq_self_iff]
    rfl

/-- A message of the server, and the same message with a tool that runs here. -/
def serverItems : List ConversationItem := [⟨"m".toList, .message ⟨.user, "Hi".toList, none⟩⟩]

def itemsHere : List ConversationItem :=
  [⟨"m".toList, .message ⟨.user, "Hi".toList, none⟩⟩,
    ⟨"t".toList, .tool { toolType := "commandExecution".toList, title := [], detail := [] }⟩]

theorem mergeThreadItems_union_serverItems :
    ids (mergeThreadItems serverItems itemsHere) = ["m".toList, "t".toList] ∧
      mergeThreadItems (mergeThreadItems serverItems itemsHere) itemsHere =
        (mergeThreadItems serverItems itemsHere).map (fun item =>
          if item.id ∈ ids serverItems then item else giveOutput item) := by
  obtain ⟨hids, -, -, -, -, hagain, -⟩ :=
    @mergeThreadItems_union serverItems itemsHere (by decide) (by decide)
  exact ⟨hids.trans (by decide), hagain⟩

/-- A tool without an output has one after the second merge. -/
theorem serverItems_mergedTwice :
    (ids serverItems).Nodup ∧ (ids itemsHere).Nodup ∧
      mergeThreadItems (mergeThreadItems serverItems itemsHere) itemsHere ≠
        mergeThreadItems serverItems itemsHere := by
  refine ⟨by decide, by decide, ?_⟩
  decide +kernel

/-! ### Resuming a thread -/

/-- **A resumed thread is never merged**: its items are the local ones, or else those of the
    server. -/
theorem hydratedItems_eq (replaceLocal : Bool) (items localItems : List ConversationItem) :
    hydratedItems replaceLocal items localItems =
      if items.isEmpty || !localItems.isEmpty && !replaceLocal then localItems else items := by
  unfold hydratedItems
  cases items with
  | nil => simp
  | cons item items =>
    cases localItems with
    | nil => simp [mergeThreadItems]
    | cons localItem rest => cases replaceLocal <;> simp

end CodexMonitor.Conversation
