import CodexMonitor.Conversation.LiveView
import CodexMonitor.Lib.Prefixes
import CodexMonitor.Lib.TextLength

namespace CodexMonitor.Conversation

open Text

/-!
# Conversation — texts that are streamed

The text of an item arrives in pieces, and each piece is merged with the text so far.

* `mergeStreamingText_iff` — when a piece is appended.
* `mem_prepareThreadItems`, `not_mem_prepareThreadItems` — one item of a list, in the view.
* `Stream` — the five actions that stream a text.
* `AtMost.step` — what is lost of a text stays lost.
* `stream_reassembles_iff` — when the item has the whole text that was streamed.
-/

/-! ### Merging a piece -/

/-- An end of the one text is a beginning of the other. -/
def Overlaps (existing delta : Text) : Prop :=
  ∃ part : Text, part ≠ [] ∧ part <:+ existing ∧ part <+: delta

theorem overlaps_iff {existing delta : Text} : Overlaps existing delta ↔
    ∃ length ∈ (List.range' 1 (min existing.length delta.length)).reverse,
      endsWith existing (delta.take length) = true := by
  unfold endsWith
  simp only [List.mem_reverse, List.mem_range'_1, List.isSuffixOf_iff_suffix]
  constructor
  · rintro ⟨part, hne, hend, hbegin⟩
    have hpos : 0 < part.length := List.length_pos_of_ne_nil hne
    have hle := hend.length_le
    have hle' := hbegin.length_le
    refine ⟨part.length, by omega, ?_⟩
    rw [← List.prefix_iff_eq_take.mp hbegin]
    exact hend
  · rintro ⟨length, hlength, hend⟩
    refine ⟨delta.take length, ?_, hend, List.take_prefix _ _⟩
    intro hnil
    have hzero := congrArg List.length hnil
    rw [List.length_take, List.length_nil] at hzero
    omega

/-- **What becomes of a piece**: it is appended, or a part of it or of the text is lost. -/
theorem mergeStreamingText_cases (existing : Text) {delta : Text} (hdelta : delta ≠ []) :
    (mergeStreamingText existing delta = existing ++ delta ∧ ¬ delta <+: existing ∧
      ¬ Overlaps existing delta) ∨
    ((delta <+: existing ∨ Overlaps existing delta) ∧ ∃ lost : Text, lost ≠ [] ∧
      (mergeStreamingText existing delta).utf16Len + lost.utf16Len =
        existing.utf16Len + delta.utf16Len) := by
  unfold mergeStreamingText startsWith
  rw [if_neg (by simpa using hdelta)]
  by_cases hempty : existing = []
  · subst hempty
    rw [if_pos (show ([] : Text).isEmpty = true from rfl)]
    refine .inl ⟨rfl, ?_, ?_⟩
    · intro h
      exact hdelta (List.prefix_nil.mp h)
    · rintro ⟨part, hne, hend, -⟩
      exact hne (List.suffix_nil.mp hend)
  · rw [if_neg (by simpa using hempty)]
    by_cases hgrown : existing <+: delta
    · rw [if_pos (by simpa using hgrown)]
      have hoverlaps : Overlaps existing delta := ⟨existing, hempty, List.suffix_rfl, hgrown⟩
      exact .inr ⟨.inr hoverlaps, existing, hempty, Nat.add_comm _ _⟩
    · rw [if_neg (by simpa using hgrown)]
      by_cases hrepeats : delta <+: existing
      · rw [if_pos (by simpa using hrepeats)]
        exact .inr ⟨.inl hrepeats, delta, hdelta, rfl⟩
      · rw [if_neg (by simpa using hrepeats)]
        simp only
        cases hfind : (List.range' 1 (min existing.length delta.length)).reverse.find?
            fun length => endsWith existing (delta.take length) with
        | none =>
          refine .inl ⟨rfl, hrepeats, ?_⟩
          rw [overlaps_iff]
          rintro ⟨length, hmem, hend⟩
          exact absurd hend (List.find?_eq_none.mp hfind length hmem)
        | some length =>
          have hmem := List.mem_of_find?_eq_some hfind
          have hend := List.find?_some hfind
          have hlength := List.mem_range'_1.mp (List.mem_reverse.mp hmem)
          have hcut : delta.take length ≠ [] := by
            intro hnil
            have hzero := congrArg List.length hnil
            rw [List.length_take, List.length_nil] at hzero
            omega
          have hsplit := utf16Len_append (delta.take length) (delta.drop length)
          rw [List.take_append_drop] at hsplit
          refine .inr ⟨.inr (overlaps_iff.mpr ⟨length, hmem, hend⟩), delta.take length, hcut, ?_⟩
          rw [utf16Len_append]
          omega

/-- **A piece is appended** exactly if it neither repeats the beginning of the text nor begins with
    an end of it.  Otherwise the text is shorter. -/
theorem mergeStreamingText_iff (existing : Text) {delta : Text} (hdelta : delta ≠ []) :
    (mergeStreamingText existing delta = existing ++ delta ↔
      ¬ delta <+: existing ∧ ¬ Overlaps existing delta) ∧
    (mergeStreamingText existing delta ≠ existing ++ delta →
      (mergeStreamingText existing delta).utf16Len < (existing ++ delta).utf16Len) := by
  rcases mergeStreamingText_cases existing hdelta with ⟨heq, hnot⟩ | ⟨hlost, lost, hne, hlength⟩
  · exact ⟨iff_of_true heq hnot, fun h => absurd heq h⟩
  · have hpos := utf16Len_pos hne
    have hlt : (mergeStreamingText existing delta).utf16Len < (existing ++ delta).utf16Len := by
      rw [utf16Len_append]
      omega
    refine ⟨iff_of_false ?_ ?_, fun _ => hlt⟩
    · intro heq
      rw [heq] at hlt
      exact Nat.lt_irrefl _ hlt
    · rintro ⟨hrepeats, hoverlaps⟩
      exact hlost.elim hrepeats hoverlaps

/-! ### Cut texts -/

theorem utf16Len_truncateText_lt {t : Text} {n : Nat} (hn : 3 ≤ n) (h : n < t.utf16Len) :
    (truncateText t n).utf16Len < t.utf16Len := by
  have hdots : Text.utf16Len "...".toList = 3 := by decide
  have htake := utf16Len_utf16Take_le (n - 3) t
  unfold truncateText
  rw [if_neg (Nat.not_le.mpr h), utf16Len_append, hdots]
  omega

/-- A text is cut to a shorter one exactly if it is too long. -/
theorem truncateText_cases (t : Text) {n : Nat} (hn : 3 ≤ n) :
    truncateText t n = t ∧ t.utf16Len ≤ n ∨ (truncateText t n).utf16Len < t.utf16Len := by
  by_cases h : t.utf16Len ≤ n
  · exact .inl ⟨truncateText_of_le h, h⟩
  · exact .inr (utf16Len_truncateText_lt hn (Nat.lt_of_not_le h))

theorem utf16Len_truncateText_le (t : Text) {n : Nat} (hn : 3 ≤ n) :
    (truncateText t n).utf16Len ≤ t.utf16Len := by
  rcases truncateText_cases t hn with ⟨heq, -⟩ | hlt
  · rw [heq]
  · exact Nat.le_of_lt hlt

theorem ne_of_utf16Len_lt {t u : Text} (h : t.utf16Len < u.utf16Len) : t ≠ u := by
  rintro rfl
  exact Nat.lt_irrefl _ h

/-! ### One item in the view -/

variable {before after list : List ConversationItem} {item : ConversationItem} {max : Option Nat}

/-- The item that is kept last. -/
def lastKept (last : Option ConversationItem) (items : List ConversationItem) :
    Option ConversationItem :=
  (dropReviewEchoes last items).getLast?.or last

theorem dropReviewEchoes_append (last : Option ConversationItem)
    (l m : List ConversationItem) :
    dropReviewEchoes last (l ++ m) =
      dropReviewEchoes last l ++ dropReviewEchoes (lastKept last l) m := by
  induction l generalizing last with
  | nil => rfl
  | cons first l ih =>
    unfold lastKept
    rw [List.cons_append, dropReviewEchoes, dropReviewEchoes]
    by_cases hecho : echoesReview last first = true
    · rw [if_pos hecho, if_pos hecho, ih]
      rfl
    · rw [if_neg hecho, if_neg hecho, ih, List.cons_append]
      have hlast : lastKept (some first) l =
          (first :: dropReviewEchoes (some first) l).getLast?.or last := by
        unfold lastKept
        cases hl : dropReviewEchoes (some first) l with
        | nil => rfl
        | cons a rest =>
          rw [List.getLast?_cons_cons]
          cases h : (a :: rest).getLast? with
          | none => simp at h
          | some b => rfl
      rw [hlast]

/-- The number of items that are kept at most. -/
def itemLimit (n : Nat) : Nat := if 0 < n then n else chatScrollbackDefault

theorem limitItems_keep (before : List ConversationItem) (item : ConversationItem)
    (h : ∀ n ∈ max, after.length < itemLimit n) :
    ∃ front, front <:+ before ∧
      limitItems max (before ++ item :: after) = front ++ item :: after := by
  cases max with
  | none => exact ⟨before, List.suffix_rfl, rfl⟩
  | some n =>
    have hlt := h n rfl
    refine ⟨before.drop ((before ++ item :: after).length - itemLimit n), List.drop_suffix _ _, ?_⟩
    show (before ++ item :: after).drop ((before ++ item :: after).length - itemLimit n) = _
    rw [List.drop_append_of_le_length]
    rw [List.length_append, List.length_cons]
    omega

theorem limitItems_drop (before : List ConversationItem) (item : ConversationItem) {n : Nat}
    (h : itemLimit n ≤ after.length) :
    limitItems (some n) (before ++ item :: after) <:+ after := by
  show (before ++ item :: after).drop ((before ++ item :: after).length - itemLimit n) <:+ _
  have hsplit : before ++ item :: after = (before ++ [item]) ++ after := by simp
  have hlen : (before ++ item :: after).length = (before ++ [item]).length + after.length := by
    rw [hsplit, List.length_append]
  rw [hlen, hsplit]
  have hge : (before ++ [item]).length ≤ (before ++ [item]).length + after.length - itemLimit n := by
    omega
  rw [List.drop_append, List.drop_eq_nil_of_le hge, List.nil_append]
  exact List.drop_suffix _ _

/-- An item that is shown as it is, and is no exploration. -/
def ShownAsItself (item : ConversationItem) : Prop :=
  display item = item ∧ ∀ e, item.body ≠ .explore e

theorem ShownAsItself.standsAlone (h : ShownAsItself item) (before after : List ConversationItem) :
    StandsAlone before item after := by
  obtain ⟨hdisplay, hnot⟩ := h
  constructor
  · intro last _
    rw [hdisplay]
    exact combineExplore_eq_none.mpr fun e f _ hf => absurd hf (hnot f)
  · intro next _
    rw [hdisplay]
    exact combineExplore_eq_none.mpr fun e f he _ => absurd he (hnot e)

/-- The texts of an item are cut again once it is old. -/
theorem mem_truncateOldTools :
    (if toolOutputRecentItems ≤ after.length then truncateOldTool item else item) ∈
      truncateOldTools (before ++ item :: after) := by
  have hitem : (before ++ item :: after)[before.length]? = some item := by simp
  have hcount : (before ++ item :: after).length = before.length + (after.length + 1) := by simp
  refine List.mem_of_getElem? (i := before.length) ?_
  unfold truncateOldTools
  by_cases hold : toolOutputRecentItems ≤ after.length
  · rw [if_pos hold, List.getElem?_append_left, List.getElem?_map, List.getElem?_take_of_lt, hitem]
    · rfl
    · omega
    · rw [List.length_map, List.length_take]
      omega
  · have hcut : ((before ++ item :: after).take
        ((before ++ item :: after).length - toolOutputRecentItems)).length =
        (before ++ item :: after).length - toolOutputRecentItems :=
      List.length_take_of_le (Nat.sub_le _ _)
    rw [if_neg hold, List.getElem?_append_right, List.length_map, hcut, List.getElem?_drop]
    · rw [show (before ++ item :: after).length - toolOutputRecentItems +
        (before.length - ((before ++ item :: after).length - toolOutputRecentItems)) =
          before.length by omega, hitem]
    · rw [List.length_map, hcut]
      omega

/-- The items shown behind an item. -/
def shownAfter (item : ConversationItem) (after : List ConversationItem) :
    List ConversationItem :=
  summarizeExploration ((dropReviewEchoes (some item) after).map normalizeItem)

/-- **The item is kept in the view**: it does not repeat the review kept before it, and there are
    not too many items behind it. -/
def KeptInView (max : Option Nat) (before : List ConversationItem) (item : ConversationItem)
    (after : List ConversationItem) : Prop :=
  echoesReview (lastKept none before) item = false ∧
    ∀ n ∈ max, (dropReviewEchoes (some item) after).length < itemLimit n

theorem dropReviewEchoes_keep (h : echoesReview (lastKept none before) item = false) :
    dropReviewEchoes none (before ++ item :: after) =
      dropReviewEchoes none before ++ item :: dropReviewEchoes (some item) after := by
  rw [dropReviewEchoes_append, dropReviewEchoes, if_neg (by rw [h]; exact Bool.false_ne_true)]

/-- **An item that is kept and shown as itself** has its texts cut. -/
theorem mem_prepareThreadItems (h : KeptInView max before item after)
    (hself : ShownAsItself (normalizeItem item)) :
    (if toolOutputRecentItems ≤ (shownAfter item after).length then
      truncateOldTool (normalizeItem item) else normalizeItem item) ∈
        prepareThreadItems max (before ++ item :: after) := by
  obtain ⟨hecho, hrecent⟩ := h
  unfold prepareThreadItems
  simp only
  rw [dropReviewEchoes_keep hecho, List.map_append, List.map_cons]
  have hlength : ∀ n ∈ max,
      ((dropReviewEchoes (some item) after).map normalizeItem).length < itemLimit n := by
    intro n hn
    rw [List.length_map]
    exact hrecent n hn
  obtain ⟨front, -, hlimit⟩ := limitItems_keep
    ((dropReviewEchoes none before).map normalizeItem) (normalizeItem item) hlength
  rw [hlimit, summarizeExploration_alone (hself.standsAlone _ _), hself.1]
  exact mem_truncateOldTools

/-- The ids that are left of a list whose review echoes are dropped. -/
theorem ids_prepareThreadItems_subset (n : Option Nat) (items : List ConversationItem) :
    List.Sublist (ids (prepareThreadItems n items))
      (ids (limitItems n ((dropReviewEchoes none items).map normalizeItem))) := by
  unfold prepareThreadItems
  rw [ids_truncateOldTools]
  exact ids_summarizeExploration_sublist _

theorem ids_map_normalizeItem (items : List ConversationItem) :
    ids (items.map normalizeItem) = ids items := by
  unfold ids
  rw [List.map_map]
  rfl

/-- **An item that is not kept is gone.** -/
theorem not_mem_prepareThreadItems (hbefore : item.id ∉ ids before) (hafter : item.id ∉ ids after)
    (h : ¬ KeptInView max before item after) :
    item.id ∉ ids (prepareThreadItems max (before ++ item :: after)) := by
  have hdrop : ∀ last items, item.id ∉ ids items → item.id ∉ ids (dropReviewEchoes last items) := by
    intro last items hnot hmem
    exact hnot (((dropReviewEchoes_sublist last items).map ConversationItem.id).subset hmem)
  intro hmem
  have hlimit := (ids_prepareThreadItems_subset _ _).subset hmem
  unfold KeptInView at h
  by_cases hecho : echoesReview (lastKept none before) item = true
  · rw [dropReviewEchoes_append, dropReviewEchoes, if_pos hecho] at hlimit
    have hkept := ((limitItems_sublist _ _).map ConversationItem.id).subset hlimit
    have hids : item.id ∈ ids (dropReviewEchoes none before ++
        dropReviewEchoes (lastKept none before) after) := by
      rw [← ids_map_normalizeItem]
      exact hkept
    rw [ids_append] at hids
    rcases List.mem_append.mp hids with hfront | hback
    · exact hdrop _ _ hbefore hfront
    · exact hdrop _ _ hafter hback
  · rw [eq_false_of_ne_true hecho] at h
    have hmany : ∃ n ∈ max, itemLimit n ≤ (dropReviewEchoes (some item) after).length := by
      by_contra hnone
      refine h ⟨rfl, fun n hn => ?_⟩
      by_contra hge
      exact hnone ⟨n, hn, Nat.le_of_not_lt hge⟩
    obtain ⟨n, hn, hle⟩ := hmany
    obtain rfl := Option.mem_def.mp hn
    rw [dropReviewEchoes_keep (eq_false_of_ne_true hecho), List.map_append, List.map_cons] at hlimit
    rw [← List.length_map (f := normalizeItem)] at hle
    have hsuffix := limitItems_drop ((dropReviewEchoes none before).map normalizeItem)
      (normalizeItem item) hle
    have hids : item.id ∈ ids ((dropReviewEchoes (some item) after).map normalizeItem) :=
      (hsuffix.sublist.map ConversationItem.id).subset hlimit
    rw [ids_map_normalizeItem] at hids
    exact hdrop _ _ hafter hids

/-- An item with an id that no other item has. -/
theorem eq_of_unique {id : Text} {c : ConversationItem} (hbefore : id ∉ ids before)
    (hafter : id ∉ ids after) (hmem : c ∈ before ++ item :: after) (hid : c.id = id) : c = item := by
  rcases List.mem_append.mp hmem with hfront | hrest
  · exact absurd (List.mem_map.mpr ⟨c, hfront, hid⟩) hbefore
  · rcases List.mem_cons.mp hrest with heq | hback
    · exact heq
    · exact absurd (List.mem_map.mpr ⟨c, hback, hid⟩) hafter

/-- **A command that explores** is not shown as a tool. -/
theorem explore_of_mem_prepareThreadItems (hbefore : item.id ∉ ids before)
    (hafter : item.id ∉ ids after) (hexplores : ∃ e, (display (normalizeItem item)).body = .explore e)
    {c : ConversationItem} (hc : c ∈ prepareThreadItems max (before ++ item :: after))
    (hid : c.id = item.id) : ∃ e, c.body = .explore e := by
  have hsummary : ∀ c ∈ summarizeExploration (limitItems max
      ((dropReviewEchoes none (before ++ item :: after)).map normalizeItem)),
      c.id = item.id → ∃ e, c.body = .explore e := by
    refine Combination.coalesce_forall
      (P := fun c : ConversationItem => c.id = item.id → ∃ e, c.body = .explore e) ?_ ?_
    · intro a b c hcombined _ _ _
      obtain ⟨e, f, -, -, -, rfl⟩ := combineExplore_eq_some hcombined
      exact ⟨_, joinExplore_body a e f⟩
    · intro shown hshown hid
      obtain ⟨normal, hnormal, rfl⟩ := List.mem_map.mp hshown
      obtain ⟨kept, hkept, rfl⟩ := List.mem_map.mp ((limitItems_sublist _ _).subset hnormal)
      have hmem := (dropReviewEchoes_sublist none _).subset hkept
      rw [display_id] at hid
      rw [eq_of_unique hbefore hafter hmem hid]
      exact hexplores
  unfold prepareThreadItems truncateOldTools at hc
  simp only at hc
  rcases List.mem_append.mp hc with hold | hnew
  · obtain ⟨shown, hshown, rfl⟩ := List.mem_map.mp hold
    rw [truncateOldTool_id] at hid
    obtain ⟨e, he⟩ := hsummary shown (List.mem_of_mem_take hshown) hid
    refine ⟨e, ?_⟩
    unfold truncateOldTool
    simp only [he]
  · exact hsummary c (List.mem_of_mem_drop hnew) hid

/-! ### Streams -/

/-- The actions that stream a text. -/
inductive Stream
  | agentMessage (workspaceId : Text) (hasCustomName : Bool)
  | reasoningSummary
  | reasoningContent
  | plan
  | toolOutput

namespace Stream

/-- A piece of the text of an item. -/
def action (stream : Stream) (threadId itemId delta : Text) : ThreadAction :=
  match stream with
  | agentMessage workspaceId hasCustomName =>
      .appendAgentDelta workspaceId threadId itemId delta hasCustomName
  | reasoningSummary => .appendReasoningSummary threadId itemId delta
  | reasoningContent => .appendReasoningContent threadId itemId delta
  | plan => .appendPlanDelta threadId itemId delta
  | toolOutput => .appendToolOutput threadId itemId delta

/-- The text that is streamed into an item, if it is one of the stream's kind. -/
def text (stream : Stream) : Body → Option Text
  | .message m =>
      match stream with
      | agentMessage _ _ => some m.text
      | _ => none
  | .reasoning r =>
      match stream with
      | reasoningSummary => some r.summary
      | reasoningContent => some r.content
      | _ => none
  | .tool t =>
      match stream with
      | plan => some (t.output.getD [])
      | toolOutput => some (t.output.getD [])
      | _ => none
  | _ => none

/-- The item after a piece, with another text. -/
def withText (stream : Stream) (f : Text → Text) : Body → Body
  | .message m => .message { m with text := f m.text }
  | .reasoning r =>
      match stream with
      | reasoningSummary => .reasoning { r with summary := f r.summary }
      | _ => .reasoning { r with content := f r.content }
  | .tool t =>
      match stream with
      | plan =>
          .tool { t with
            toolType := "plan".toList
            title := "Plan".toList
            detail := "Generating plan...".toList
            status := some "in_progress".toList
            output := some (f (t.output.getD [])) }
      | _ => .tool { t with output := some (f (t.output.getD [])) }
  | body => body

variable {stream : Stream} {body : Body} {e : Text} {f : Text → Text}

theorem text_withText (h : stream.text body = some e) :
    stream.text (stream.withText f body) = some (f e) := by
  cases stream <;> cases body <;> cases h <;> rfl

theorem withText_congr {g : Text → Text} (h : stream.text body = some e) (hfg : f e = g e) :
    stream.withText f body = stream.withText g body := by
  cases stream <;> cases body <;> cases h <;> simp only [withText, hfg]

/-- The length that the texts of an item are cut to first. -/
def limit : Body → Nat
  | .tool t => maxToolText t.toolType
  | _ => maxItemText

theorem maxToolText_ge (toolType : Text) : 3 ≤ maxToolText toolType :=
  le_trans (by decide) (maxItemText_le_maxToolText toolType)

theorem limit_ge (body : Body) : 3 ≤ limit body := by
  cases body with
  | tool t => exact maxToolText_ge _
  | _ => exact le_trans (by decide) (Nat.le_refl maxItemText)

theorem text_normalizeBody (body : Body) :
    stream.text (normalizeBody body) = (stream.text body).map (truncateText · (limit body)) := by
  have houtput : ∀ t : Tool, (t.output.map (truncateToolText t.toolType)).getD [] =
      truncateText (t.output.getD []) (maxToolText t.toolType) := by
    intro t
    cases t.output with
    | none => exact (truncateText_of_le (Nat.zero_le _)).symm
    | some output => rfl
  cases body with
  | tool t =>
    cases stream with
    | plan => exact congrArg some (houtput t)
    | toolOutput => exact congrArg some (houtput t)
    | _ => rfl
  | _ => cases stream <;> rfl

def isTool : Body → Bool
  | .tool _ => true
  | _ => false

theorem isTool_normalizeBody (body : Body) : isTool (normalizeBody body) = isTool body := by
  cases body with
  | _ => rfl

theorem text_truncateOldTool (item : ConversationItem) :
    stream.text (truncateOldTool item).body = (stream.text item.body).map
      (if isTool item.body then (truncateText · maxItemText) else id) := by
  unfold truncateOldTool
  cases hbody : item.body with
  | tool t =>
    have houtput : (t.output.map (truncateText · maxItemText)).getD [] =
        truncateText (t.output.getD []) maxItemText := by
      cases t.output with
      | none => exact (truncateText_of_le (Nat.zero_le _)).symm
      | some output => rfl
    cases stream with
    | plan => exact congrArg some houtput
    | toolOutput => exact congrArg some houtput
    | _ => rfl
  | _ =>
    show stream.text item.body = Option.map id _
    rw [Option.map_id, hbody]
    rfl

/-- The text is not cut: not when it is stored, and not when it is the output of a tool that is
    old. -/
def Fits (body : Body) (text : Text) (behind : Nat) : Prop :=
  text.utf16Len ≤ limit body ∧
    (toolOutputRecentItems ≤ behind → isTool body = true → text.utf16Len ≤ maxItemText)

/-- The item as it is shown with `behind` items behind it. -/
def shownItem (item : ConversationItem) (behind : Nat) : ConversationItem :=
  if toolOutputRecentItems ≤ behind then truncateOldTool (normalizeItem item)
  else normalizeItem item

/-- **The shown text** is the text if it fits, and is shorter otherwise. -/
theorem text_shownItem (item : ConversationItem) (behind : Nat) (h : stream.text item.body = some e) :
    ∃ shown, stream.text (shownItem item behind).body = some shown ∧
      (shown = e ∨ shown.utf16Len < e.utf16Len) ∧ (shown = e ↔ Fits item.body e behind) := by
  have hnormal : stream.text (normalizeItem item).body =
      some (truncateText e (limit item.body)) := by
    show stream.text (normalizeBody item.body) = _
    rw [text_normalizeBody, h]
    rfl
  have hkind : isTool (normalizeItem item).body = isTool item.body := isTool_normalizeBody _
  have hlimit : maxItemText ≤ limit item.body := by
    cases hbody : item.body with
    | tool t => exact maxItemText_le_maxToolText _
    | _ => exact Nat.le_refl _
  unfold shownItem Fits
  by_cases hold : toolOutputRecentItems ≤ behind ∧ isTool item.body = true
  · obtain ⟨hbehind, htool⟩ := hold
    have htwice : stream.text (truncateOldTool (normalizeItem item)).body =
        some (truncateText (truncateText e (limit item.body)) maxItemText) := by
      rw [text_truncateOldTool, hnormal, hkind, htool]
      rfl
    have hthree : 3 ≤ maxItemText := by decide
    rw [if_pos hbehind]
    refine ⟨_, htwice, ?_⟩
    rcases truncateText_cases e (limit_ge item.body) with ⟨hfirst, hle⟩ | hlt
    · rw [hfirst]
      rcases truncateText_cases e hthree with ⟨hsecond, hle'⟩ | hlt'
      · exact ⟨.inl hsecond, iff_of_true hsecond ⟨hle, fun _ _ => hle'⟩⟩
      · refine ⟨.inr hlt', iff_of_false (ne_of_utf16Len_lt hlt') ?_⟩
        rintro ⟨-, hshort⟩
        rw [truncateText_of_le (hshort hbehind htool)] at hlt'
        exact Nat.lt_irrefl _ hlt'
    · have hshorter := Nat.lt_of_le_of_lt
        (utf16Len_truncateText_le (truncateText e (limit item.body)) hthree) hlt
      refine ⟨.inr hshorter, iff_of_false (ne_of_utf16Len_lt hshorter) ?_⟩
      rintro ⟨hshort, -⟩
      rw [truncateText_of_le hshort] at hlt
      exact Nat.lt_irrefl _ hlt
  · have hshown : stream.text (if toolOutputRecentItems ≤ behind then
        truncateOldTool (normalizeItem item) else normalizeItem item).body =
          some (truncateText e (limit item.body)) := by
      by_cases hbehind : toolOutputRecentItems ≤ behind
      · have hother : ¬ isTool item.body = true := fun htool => hold ⟨hbehind, htool⟩
        rw [if_pos hbehind, text_truncateOldTool, hnormal, hkind, if_neg hother]
        rfl
      · rw [if_neg hbehind]
        exact hnormal
    refine ⟨_, hshown, ?_⟩
    rcases truncateText_cases e (limit_ge item.body) with ⟨hwhole, hle⟩ | hlt
    · refine ⟨.inl hwhole, iff_of_true hwhole ⟨hle, ?_⟩⟩
      exact fun hbehind htool => absurd ⟨hbehind, htool⟩ hold
    · refine ⟨.inr hlt, iff_of_false (ne_of_utf16Len_lt hlt) ?_⟩
      rintro ⟨hshort, -⟩
      rw [truncateText_of_le hshort] at hlt
      exact Nat.lt_irrefl _ hlt

/-! ### The actions on an item -/

variable {s : ThreadState} {threadId itemId delta : Text}

theorem maybeRenameThreadFromAgent_items {workspaceId : Text} {items : List ConversationItem}
    {hasCustomName : Bool} :
    (s.maybeRenameThreadFromAgent workspaceId threadId items itemId hasCustomName).itemsByThread =
      s.itemsByThread := by
  unfold ThreadState.maybeRenameThreadFromAgent
  split
  · rfl
  · split
    · rfl
    · rfl

theorem putItem_append {f : Option Body → Body} (hbefore : itemId ∉ ids before)
    (hid : item.id = itemId) : putItem itemId f (before ++ item :: after) =
      before ++ ⟨itemId, f (some item.body)⟩ :: after := by
  induction before with
  | nil => exact if_pos hid
  | cons first before ih =>
    obtain ⟨hne, hrest⟩ := not_or.mp (List.mem_cons.not.mp hbefore)
    rw [List.cons_append, putItem, if_neg fun heq => hne heq.symm, ih hrest, List.cons_append]

theorem putMessage_append {f : Message → Message} {added : Text} {m : Message}
    (hbefore : itemId ∉ ids before) (hid : item.id = itemId) (hbody : item.body = .message m) :
    putMessage itemId f added (before ++ item :: after) =
      before ++ ⟨itemId, .message (f m)⟩ :: after := by
  induction before with
  | nil =>
    rw [List.nil_append, putMessage, if_pos hid, hbody, hid]
    rfl
  | cons first before ih =>
    obtain ⟨hne, hrest⟩ := not_or.mp (List.mem_cons.not.mp hbefore)
    rw [List.cons_append, putMessage, if_neg fun heq => hne heq.symm, ih hrest, List.cons_append]

theorem updateTool_append {f : Tool → Tool} {t : Tool} (hbefore : itemId ∉ ids before)
    (hid : item.id = itemId) (hbody : item.body = .tool t) :
    updateTool itemId f (before ++ item :: after) = before ++ ⟨itemId, .tool (f t)⟩ :: after := by
  induction before with
  | nil =>
    rw [List.nil_append, updateTool, if_pos hid, hbody, hid]
    rfl
  | cons first before ih =>
    obtain ⟨hne, hrest⟩ := not_or.mp (List.mem_cons.not.mp hbefore)
    rw [List.cons_append, updateTool, if_neg fun heq => hne heq.symm, ih hrest, List.cons_append]

theorem find_append (hbefore : itemId ∉ ids before) (hid : item.id = itemId) :
    (before ++ item :: after).find? (fun i => i.id = itemId) = some item := by
  rw [List.find?_append, List.find?_eq_none.mpr, Option.none_or, List.find?_cons_of_pos]
  · exact decide_eq_true hid
  · intro i hi heq
    exact hbefore (List.mem_map.mpr ⟨i, hi, of_decide_eq_true heq⟩)

/-- **A piece of a text** changes the item in its place. -/
theorem threadReducer_items (hlist : s.itemsByThread threadId = before ++ item :: after)
    (hid : item.id = itemId) (hbefore : itemId ∉ ids before) (htext : stream.text item.body = some e) :
    (threadReducer s (stream.action threadId itemId delta)).itemsByThread threadId =
      prepareThreadItems s.maxItemsPerThread (before ++
        ⟨itemId, stream.withText (fun t => mergeStreamingText t delta) item.body⟩ :: after) := by
  have hstored : ∀ items, (s.storeItems threadId items).itemsByThread threadId =
      prepareThreadItems s.maxItemsPerThread items := by
    intro items
    exact Function.update_self ..
  cases stream with
  | agentMessage workspaceId hasCustomName =>
    show (s.putAgentMessage workspaceId threadId itemId delta _ hasCustomName).itemsByThread
      threadId = _
    unfold ThreadState.putAgentMessage
    simp only
    rw [maybeRenameThreadFromAgent_items]
    cases hbody : item.body with
    | message m =>
      rw [hlist, putMessage_append hbefore hid hbody]
      exact hstored _
    | _ =>
      rw [hbody] at htext
      cases htext
  | reasoningSummary =>
    show (s.storeItems threadId (putReasoning itemId _ (s.itemsByThread threadId))).itemsByThread
      threadId = _
    unfold putReasoning
    rw [hstored, hlist, putItem_append hbefore hid]
    cases hbody : item.body with
    | reasoning r => rfl
    | _ =>
      rw [hbody] at htext
      cases htext
  | reasoningContent =>
    show (s.storeItems threadId (putReasoning itemId _ (s.itemsByThread threadId))).itemsByThread
      threadId = _
    unfold putReasoning
    rw [hstored, hlist, putItem_append hbefore hid]
    cases hbody : item.body with
    | reasoning r => rfl
    | _ =>
      rw [hbody] at htext
      cases htext
  | plan =>
    show (s.storeItems threadId (putPlan itemId delta (s.itemsByThread threadId))).itemsByThread
      threadId = _
    unfold putPlan
    rw [hstored, hlist, putItem_append hbefore hid]
    cases hbody : item.body with
    | tool t => rfl
    | _ =>
      rw [hbody] at htext
      cases htext
  | toolOutput =>
    show (reduceThreadItems s (.appendToolOutput threadId itemId delta)).itemsByThread threadId = _
    unfold reduceThreadItems
    simp only
    rw [hlist, find_append hbefore hid]
    cases hbody : item.body with
    | tool t =>
      obtain ⟨id, body⟩ := item
      obtain rfl : body = .tool t := hbody
      simp only
      rw [updateTool_append hbefore hid rfl]
      exact hstored _
    | _ =>
      rw [hbody] at htext
      cases htext

/-! ### The text of the item -/

/-- One item of the list has the id, and it has the text. -/
def HasText (stream : Stream) (list : List ConversationItem) (itemId text : Text) : Prop :=
  ∃ before item after, list = before ++ item :: after ∧ item.id = itemId ∧ itemId ∉ ids before ∧
    itemId ∉ ids after ∧ stream.text item.body = some text

theorem hasText_of_mem {shown : List ConversationItem} {c : ConversationItem}
    (hsub : List.Sublist (ids shown) (ids (before ++ item :: after))) (hid : item.id = itemId)
    (hbefore : itemId ∉ ids before) (hafter : itemId ∉ ids after) (hc : c ∈ shown)
    (hcid : c.id = itemId) (htext : stream.text c.body = some e) :
    stream.HasText shown itemId e := by
  obtain ⟨front, back, rfl⟩ := List.append_of_mem hc
  have hcount := hsub.count_le itemId
  have hone : (ids (before ++ item :: after)).count itemId = 1 := by
    rw [ids_append, List.count_append, List.count_eq_zero.mpr hbefore]
    show 0 + (item.id :: ids after).count itemId = 1
    rw [hid, List.count_cons_self, List.count_eq_zero.mpr hafter]
  rw [hone, ids_append, List.count_append] at hcount
  have hcons : (ids (c :: back)).count itemId = (ids back).count itemId + 1 := by
    show (c.id :: ids back).count itemId = _
    rw [hcid, List.count_cons_self]
  rw [hcons] at hcount
  exact ⟨front, c, back, rfl, hcid, List.count_eq_zero.mp (by omega),
    List.count_eq_zero.mp (by omega), htext⟩

theorem display_cases (item : ConversationItem) :
    display item = item ∨ ∃ e, (display item).body = .explore e := by
  unfold display
  split
  · split
    · split
      · exact .inr ⟨_, rfl⟩
      · exact .inl rfl
    · exact .inl rfl
  · exact .inl rfl

theorem text_explore {explore : Explore} (h : body = .explore explore) :
    stream.text body = none := by
  rw [h]
  cases stream with
  | _ => rfl

/-- **The text in the view.** -/
theorem hasText_view_iff {text : Text} (hid : item.id = itemId) (hbefore : itemId ∉ ids before)
    (hafter : itemId ∉ ids after) (htext : stream.text item.body = some e) :
    stream.HasText (prepareThreadItems max (before ++ item :: after)) itemId text ↔
      KeptInView max before item after ∧ ShownAsItself (normalizeItem item) ∧
        stream.text (shownItem item (shownAfter item after).length).body = some text := by
  subst hid
  have hsub := ids_prepareThreadItems_sublist max (before ++ item :: after)
  have hshownId : (shownItem item (shownAfter item after).length).id = item.id := by
    unfold shownItem
    split
    · exact truncateOldTool_id _
    · rfl
  constructor
  · rintro ⟨front, c, back, hlist, hcid, hfront, hback, hc⟩
    have hmem : c ∈ prepareThreadItems max (before ++ item :: after) := by
      rw [hlist]
      exact List.mem_append_right _ List.mem_cons_self
    have hkept : KeptInView max before item after := by
      by_contra hnot
      exact not_mem_prepareThreadItems hbefore hafter hnot (List.mem_map.mpr ⟨c, hmem, hcid⟩)
    have hself : ShownAsItself (normalizeItem item) := by
      have hnormal : stream.text (normalizeItem item).body =
          (stream.text item.body).map (truncateText · (limit item.body)) := text_normalizeBody _
      rcases display_cases (normalizeItem item) with heq | hexplores
      · refine ⟨heq, fun explore hexplore => ?_⟩
        rw [text_explore hexplore, htext] at hnormal
        cases hnormal
      · obtain ⟨explore, hexplore⟩ :=
          explore_of_mem_prepareThreadItems hbefore hafter hexplores hmem hcid
        rw [text_explore hexplore] at hc
        cases hc
    refine ⟨hkept, hself, ?_⟩
    have hshown : shownItem item (shownAfter item after).length ∈ front ++ c :: back := by
      rw [← hlist]
      exact mem_prepareThreadItems hkept hself
    rw [eq_of_unique hfront hback hshown hshownId]
    exact hc
  · rintro ⟨hkept, hself, hshown⟩
    exact hasText_of_mem hsub rfl hbefore hafter (mem_prepareThreadItems hkept hself) hshownId
      hshown

/-! ### One piece after the other -/

/-- The item with the text and the piece behind it is shown, with all of its text: it is kept in
    the view, is no command that explores, and fits the lengths that texts are cut to. -/
def StaysShown (stream : Stream) (s : ThreadState) (threadId itemId text delta : Text) : Prop :=
  ∃ before item after, s.itemsByThread threadId = before ++ item :: after ∧ item.id = itemId ∧
    itemId ∉ ids before ∧ itemId ∉ ids after ∧ stream.text item.body = some text ∧
      KeptInView s.maxItemsPerThread before ⟨itemId, stream.withText (· ++ delta) item.body⟩ after ∧
      ShownAsItself (normalizeItem ⟨itemId, stream.withText (· ++ delta) item.body⟩) ∧
      Fits (stream.withText (· ++ delta) item.body) (text ++ delta)
        (shownAfter ⟨itemId, stream.withText (· ++ delta) item.body⟩ after).length

/-- After a piece the item has the text with the piece behind it, or a shorter one. -/
theorem hasText_step_cases {t : Text} (hdelta : delta ≠ [])
    (h : stream.HasText (s.itemsByThread threadId) itemId e)
    (hafter : stream.HasText
      ((threadReducer s (stream.action threadId itemId delta)).itemsByThread threadId) itemId t) :
    t = e ++ delta ∨ t.utf16Len < (e ++ delta).utf16Len := by
  obtain ⟨happended, hshorter⟩ := mergeStreamingText_iff e hdelta
  obtain ⟨before, item, after, hlist, hid, hbefore, hbehind, htext⟩ := h
  have hmergedText : stream.text (stream.withText (fun t => mergeStreamingText t delta)
      item.body) = some (mergeStreamingText e delta) := text_withText htext
  rw [threadReducer_items hlist hid hbefore htext,
    hasText_view_iff rfl hbefore hbehind hmergedText] at hafter
  obtain ⟨-, -, hshown⟩ := hafter
  obtain ⟨shown, hshownText, hle, -⟩ := text_shownItem
    ⟨itemId, stream.withText (fun t => mergeStreamingText t delta) item.body⟩ _ hmergedText
  obtain rfl := Option.some.inj (hshownText.symm.trans hshown)
  by_cases hmerged : mergeStreamingText e delta = e ++ delta
  · rw [hmerged] at hle
    exact hle
  · have hlt := hshorter hmerged
    rcases hle with rfl | hle
    · exact .inr hlt
    · exact .inr (hle.trans hlt)

/-- **One piece.** -/
theorem hasText_step_iff (hdelta : delta ≠ [])
    (h : stream.HasText (s.itemsByThread threadId) itemId e) :
    stream.HasText ((threadReducer s (stream.action threadId itemId delta)).itemsByThread threadId)
        itemId (e ++ delta) ↔
      ¬ delta <+: e ∧ ¬ Overlaps e delta ∧ stream.StaysShown s threadId itemId e delta := by
  obtain ⟨happended, hshorter⟩ := mergeStreamingText_iff e hdelta
  constructor
  · intro hafterwards
    obtain ⟨before, item, after, hlist, hid, hbefore, hafter, htext⟩ := h
    have hmergedText : stream.text (stream.withText (fun t => mergeStreamingText t delta)
        item.body) = some (mergeStreamingText e delta) := text_withText htext
    rw [threadReducer_items hlist hid hbefore htext,
      hasText_view_iff rfl hbefore hafter hmergedText] at hafterwards
    obtain ⟨hkept, hself, hshown⟩ := hafterwards
    obtain ⟨shown, hshownText, hle, hfits⟩ := text_shownItem
      ⟨itemId, stream.withText (fun t => mergeStreamingText t delta) item.body⟩ _ hmergedText
    obtain rfl := Option.some.inj (hshownText.symm.trans hshown)
    have hmerged : mergeStreamingText e delta = e ++ delta := by
      by_contra hne
      have hlt := hshorter hne
      rcases hle with heq | hle
      · exact hne heq.symm
      · exact Nat.lt_asymm hlt hle
    obtain ⟨hrepeats, hoverlaps⟩ := happended.mp hmerged
    have hbody : stream.withText (fun t => mergeStreamingText t delta) item.body =
        stream.withText (· ++ delta) item.body := withText_congr htext hmerged
    rw [hbody] at hkept hself hfits
    refine ⟨hrepeats, hoverlaps, before, item, after, hlist, hid, hbefore, hafter, htext, hkept,
      hself, ?_⟩
    have hfit := hfits.mp hmerged.symm
    rw [hmerged] at hfit
    exact hfit
  · rintro ⟨hrepeats, hoverlaps, before, item, after, hlist, hid, hbefore, hafter, htext, hkept,
      hself, hfit⟩
    have hmerged := happended.mpr ⟨hrepeats, hoverlaps⟩
    have hbody : stream.withText (fun t => mergeStreamingText t delta) item.body =
        stream.withText (· ++ delta) item.body := withText_congr htext hmerged
    have hextended : stream.text (stream.withText (· ++ delta) item.body) = some (e ++ delta) :=
      text_withText htext
    rw [threadReducer_items hlist hid hbefore htext, hbody,
      hasText_view_iff rfl hbefore hafter hextended]
    obtain ⟨shown, hshown, -, hfits⟩ := text_shownItem
      ⟨itemId, stream.withText (· ++ delta) item.body⟩ _ hextended
    rw [hfits.mpr hfit] at hshown
    exact ⟨hkept, hself, hshown⟩

/-! ### What is lost stays lost -/

/-- No item with the id has a longer text. -/
def AtMost (stream : Stream) (list : List ConversationItem) (itemId : Text) (n : Nat) : Prop :=
  ∀ c ∈ list, c.id = itemId → ∀ t ∈ stream.text c.body, t.utf16Len ≤ n

variable {list : List ConversationItem} {n : Nat}

theorem text_display (item : ConversationItem) :
    ∀ t ∈ stream.text (display item).body, t ∈ stream.text item.body := by
  intro t ht
  rcases display_cases item with heq | ⟨e, he⟩
  · rw [heq] at ht
    exact ht
  · rw [text_explore he] at ht
    cases ht

theorem AtMost.prepareThreadItems (h : stream.AtMost list itemId n) (max : Option Nat) :
    stream.AtMost (prepareThreadItems max list) itemId n := by
  have hsummary : stream.AtMost (summarizeExploration (limitItems max
      ((dropReviewEchoes none list).map normalizeItem))) itemId n := by
    refine Combination.coalesce_forall
      (P := fun c : ConversationItem => c.id = itemId →
        ∀ t ∈ stream.text c.body, t.utf16Len ≤ n) ?_ ?_
    · intro a b c hcombined _ _ _ t ht
      obtain ⟨e, f, -, -, -, rfl⟩ := combineExplore_eq_some hcombined
      rw [text_explore (joinExplore_body a e f)] at ht
      cases ht
    · intro shown hshown hid t ht
      obtain ⟨normal, hnormal, rfl⟩ := List.mem_map.mp hshown
      obtain ⟨kept, hkept, rfl⟩ := List.mem_map.mp ((limitItems_sublist _ _).subset hnormal)
      have hnormalText : t ∈ stream.text (normalizeBody kept.body) := text_display _ t ht
      rw [text_normalizeBody] at hnormalText
      obtain ⟨whole, hwhole, rfl⟩ := Option.mem_map.mp hnormalText
      rw [display_id] at hid
      exact (utf16Len_truncateText_le whole (limit_ge kept.body)).trans
        (h kept ((dropReviewEchoes_sublist none _).subset hkept) hid whole hwhole)
  intro c hc hid t ht
  unfold Conversation.prepareThreadItems truncateOldTools at hc
  simp only at hc
  rcases List.mem_append.mp hc with hold | hnew
  · obtain ⟨shown, hshown, rfl⟩ := List.mem_map.mp hold
    rw [truncateOldTool_id] at hid
    rw [text_truncateOldTool] at ht
    obtain ⟨whole, hwhole, rfl⟩ := Option.mem_map.mp ht
    have hle := hsummary shown (List.mem_of_mem_take hshown) hid whole hwhole
    split
    · exact (utf16Len_truncateText_le whole (by decide)).trans hle
    · exact hle
  · exact hsummary c (List.mem_of_mem_drop hnew) hid t ht

/-- Where an item of the list comes from. -/
theorem mem_putItem {f : Option Body → Body} {c : ConversationItem}
    (h : c ∈ putItem itemId f list) :
    c ∈ list ∨ c.body = f none ∨ ∃ old ∈ list, old.id = itemId ∧ c.body = f (some old.body) := by
  induction list with
  | nil =>
    obtain rfl := List.mem_singleton.mp h
    exact .inr (.inl rfl)
  | cons first list ih =>
    unfold putItem at h
    split at h
    next hid =>
      rcases List.mem_cons.mp h with rfl | h
      · exact .inr (.inr ⟨first, List.mem_cons_self, hid, rfl⟩)
      · exact .inl (List.mem_cons_of_mem _ h)
    next =>
      rcases List.mem_cons.mp h with rfl | h
      · exact .inl List.mem_cons_self
      · rcases ih h with hold | hnew | ⟨old, hold, hid, hbody⟩
        · exact .inl (List.mem_cons_of_mem _ hold)
        · exact .inr (.inl hnew)
        · exact .inr (.inr ⟨old, List.mem_cons_of_mem _ hold, hid, hbody⟩)

theorem mem_putMessage {f : Message → Message} {added : Text} {c : ConversationItem}
    (h : c ∈ putMessage itemId f added list) :
    c ∈ list ∨ c.body = .message { role := .assistant, text := added } ∨
      ∃ old ∈ list, ∃ m, old.id = itemId ∧ old.body = .message m ∧ c.body = .message (f m) := by
  induction list with
  | nil =>
    obtain rfl := List.mem_singleton.mp h
    exact .inr (.inl rfl)
  | cons first list ih =>
    unfold putMessage at h
    split at h
    next hid =>
      split at h
      next m hbody =>
        rcases List.mem_cons.mp h with rfl | h
        · exact .inr (.inr ⟨first, List.mem_cons_self, m, hid, hbody, rfl⟩)
        · exact .inl (List.mem_cons_of_mem _ h)
      next =>
        rcases List.mem_append.mp h with h | h
        · exact .inl h
        · rw [List.mem_singleton.mp h]
          exact .inr (.inl rfl)
    next =>
      rcases List.mem_cons.mp h with rfl | h
      · exact .inl List.mem_cons_self
      · rcases ih h with hold | hnew | ⟨old, hold, m, hid, hbody, hc⟩
        · exact .inl (List.mem_cons_of_mem _ hold)
        · exact .inr (.inl hnew)
        · exact .inr (.inr ⟨old, List.mem_cons_of_mem _ hold, m, hid, hbody, hc⟩)

theorem mem_updateTool {f : Tool → Tool} {c : ConversationItem} (h : c ∈ updateTool itemId f list) :
    c ∈ list ∨ ∃ old ∈ list, ∃ t, old.id = itemId ∧ old.body = .tool t ∧ c.body = .tool (f t) := by
  induction list with
  | nil => exact .inl h
  | cons first list ih =>
    unfold updateTool at h
    split at h
    next hid =>
      split at h
      next t hbody =>
        rcases List.mem_cons.mp h with rfl | h
        · exact .inr ⟨first, List.mem_cons_self, t, hid, hbody, rfl⟩
        · exact .inl (List.mem_cons_of_mem _ h)
      next => exact .inl h
    next =>
      rcases List.mem_cons.mp h with rfl | h
      · exact .inl List.mem_cons_self
      · rcases ih h with hold | ⟨old, hold, t, hid, hbody, hc⟩
        · exact .inl (List.mem_cons_of_mem _ hold)
        · exact .inr ⟨old, List.mem_cons_of_mem _ hold, t, hid, hbody, hc⟩

theorem utf16Len_mergeStreamingText_le (existing delta : Text) :
    (mergeStreamingText existing delta).utf16Len ≤ existing.utf16Len + delta.utf16Len := by
  by_cases hdelta : delta = []
  · subst hdelta
    exact Nat.le_add_right _ _
  · rcases mergeStreamingText_cases existing hdelta with ⟨heq, -⟩ | ⟨-, lost, -, hlen⟩
    · rw [heq, utf16Len_append]
    · omega

theorem AtMost.putItem {f : Option Body → Body} {m : Nat} (h : stream.AtMost list itemId n)
    (hle : n ≤ m) (hnew : ∀ t ∈ stream.text (f none), t.utf16Len ≤ m)
    (hchanged : ∀ body, (∀ e ∈ stream.text body, e.utf16Len ≤ n) →
      ∀ t ∈ stream.text (f (some body)), t.utf16Len ≤ m) :
    stream.AtMost (putItem itemId f list) itemId m := by
  intro c hc hid t ht
  rcases mem_putItem hc with hmem | hbody | ⟨old, hold, holdId, hbody⟩
  · exact (h c hmem hid t ht).trans hle
  · rw [hbody] at ht
    exact hnew t ht
  · rw [hbody] at ht
    exact hchanged old.body (h old hold holdId) t ht

/-- **A piece makes the texts longer by its length at most.** -/
theorem AtMost.step (h : stream.AtMost (s.itemsByThread threadId) itemId n) (delta : Text) :
    stream.AtMost ((threadReducer s (stream.action threadId itemId delta)).itemsByThread threadId)
      itemId (n + delta.utf16Len) := by
  have hstored : ∀ items, stream.AtMost items itemId (n + delta.utf16Len) →
      stream.AtMost ((s.storeItems threadId items).itemsByThread threadId) itemId
        (n + delta.utf16Len) := by
    intro items hitems
    have hlist : (s.storeItems threadId items).itemsByThread threadId =
        Conversation.prepareThreadItems s.maxItemsPerThread items := Function.update_self ..
    rw [hlist]
    exact hitems.prepareThreadItems _
  have hle : n ≤ n + delta.utf16Len := Nat.le_add_right _ _
  have hmerged : ∀ e : Text, e.utf16Len ≤ n →
      (mergeStreamingText e delta).utf16Len ≤ n + delta.utf16Len := by
    intro e he
    exact (utf16Len_mergeStreamingText_le e delta).trans (Nat.add_le_add_right he _)
  have hfresh := hmerged [] (Nat.zero_le n)
  cases stream with
  | agentMessage workspaceId hasCustomName =>
    show (agentMessage workspaceId hasCustomName).AtMost
      ((s.putAgentMessage workspaceId threadId itemId delta _ hasCustomName).itemsByThread threadId)
      itemId _
    unfold ThreadState.putAgentMessage
    simp only
    rw [maybeRenameThreadFromAgent_items]
    refine hstored _ ?_
    intro c hc hid t ht
    rcases mem_putMessage hc with hmem | hbody | ⟨old, hold, m, holdId, holdBody, hbody⟩
    · exact (h c hmem hid t ht).trans hle
    · rw [hbody] at ht
      obtain rfl := Option.some.inj ht
      exact Nat.le_add_left _ _
    · rw [hbody] at ht
      obtain rfl := Option.some.inj ht
      refine hmerged m.text (h old hold holdId _ ?_)
      rw [holdBody]
      rfl
  | reasoningSummary =>
    refine hstored _ (h.putItem hle ?_ ?_)
    · rintro t ⟨⟩
      exact hfresh
    · intro body hbody
      cases body with
      | reasoning r =>
        rintro t ⟨⟩
        exact hmerged _ (hbody _ rfl)
      | _ =>
        rintro t ⟨⟩
        exact hfresh
  | reasoningContent =>
    refine hstored _ (h.putItem hle ?_ ?_)
    · rintro t ⟨⟩
      exact hfresh
    · intro body hbody
      cases body with
      | reasoning r =>
        rintro t ⟨⟩
        exact hmerged _ (hbody _ rfl)
      | _ =>
        rintro t ⟨⟩
        exact hfresh
  | plan =>
    refine hstored _ (h.putItem hle ?_ ?_)
    · rintro t ⟨⟩
      exact hfresh
    · intro body hbody
      cases body with
      | tool tool =>
        rintro t ⟨⟩
        exact hmerged _ (hbody _ rfl)
      | _ =>
        rintro t ⟨⟩
        exact hfresh
  | toolOutput =>
    show toolOutput.AtMost
      ((reduceThreadItems s (.appendToolOutput threadId itemId delta)).itemsByThread threadId) _ _
    unfold reduceThreadItems
    simp only
    split
    · refine hstored _ ?_
      intro c hc hid t ht
      rcases mem_updateTool hc with hmem | ⟨old, hold, tool, holdId, holdBody, hbody⟩
      · exact (h c hmem hid t ht).trans hle
      · rw [hbody] at ht
        obtain rfl := Option.some.inj ht
        refine hmerged _ (h old hold holdId _ ?_)
        rw [holdBody]
        rfl
    · intro c hc hid t ht
      exact (h c hc hid t ht).trans hle

theorem AtMost.not_hasText {text : Text} (h : stream.AtMost list itemId n)
    (hlong : n < text.utf16Len) : ¬ stream.HasText list itemId text := by
  rintro ⟨before, item, after, rfl, hid, -, -, htext⟩
  have hle := h item (List.mem_append_right _ List.mem_cons_self) hid text htext
  exact Nat.lt_irrefl _ (Nat.lt_of_lt_of_le hlong hle)

/-- A piece that is not appended leaves every text shorter. -/
theorem atMost_of_lost (hdelta : delta ≠ [])
    (h : stream.HasText (s.itemsByThread threadId) itemId e)
    (hlost : ¬ stream.HasText
      ((threadReducer s (stream.action threadId itemId delta)).itemsByThread threadId) itemId
        (e ++ delta)) :
    ∃ n < (e ++ delta).utf16Len, stream.AtMost
      ((threadReducer s (stream.action threadId itemId delta)).itemsByThread threadId) itemId n := by
  have hpos := utf16Len_pos hdelta
  have hlen := utf16Len_append e delta
  refine ⟨(e ++ delta).utf16Len - 1, by omega, ?_⟩
  intro c hc hid t ht
  have hafter : stream.HasText
      ((threadReducer s (stream.action threadId itemId delta)).itemsByThread threadId) itemId t := by
    obtain ⟨before, item, after, hlist, hitem, hbefore, hbehind, htext⟩ := h
    rw [threadReducer_items hlist hitem hbefore htext] at hc ⊢
    exact hasText_of_mem (ids_prepareThreadItems_sublist _ _) rfl hbefore hbehind hc hid ht
  rcases hasText_step_cases hdelta h hafter with rfl | hlt
  · exact absurd hafter hlost
  · omega

/-! ### A whole text -/

/-- The pieces, in their order. -/
def deliver (stream : Stream) (threadId itemId : Text) (s : ThreadState) (deltas : List Text) :
    ThreadState :=
  deltas.foldl (fun s delta => threadReducer s (stream.action threadId itemId delta)) s

/-- **When a streamed text is reassembled.**  In the end the item has exactly the text that was
    streamed if and only if no piece is a beginning of the text before it or begins with an end
    of that text, and the item stays shown. -/
theorem stream_reassembles_iff {deltas : List Text}
    (hempty : stream.HasText (s.itemsByThread threadId) itemId [])
    (hdeltas : ∀ delta ∈ deltas, delta ≠ []) :
    stream.HasText ((stream.deliver threadId itemId s deltas).itemsByThread threadId) itemId
        deltas.flatten ↔
    ∀ front delta rest, deltas = front ++ delta :: rest →
      ¬ delta <+: front.flatten ∧ ¬ Overlaps front.flatten delta ∧
        stream.StaysShown (stream.deliver threadId itemId s front) threadId itemId front.flatten
          delta := by
  have hflatten : ∀ (front : List Text) delta, (front ++ [delta]).flatten =
      front.flatten ++ delta := by
    intro front delta
    simp
  have hnonempty : ∀ front delta, front ++ [delta] <+: deltas → delta ≠ [] := by
    intro front delta hbegins
    exact hdeltas delta (hbegins.subset (by simp))
  refine prefixes_last_iff
    (fun front : List Text => stream.HasText
      ((stream.deliver threadId itemId s front).itemsByThread threadId) itemId front.flatten)
    (fun front : List Text => ∃ n < Text.utf16Len front.flatten, stream.AtMost
      ((stream.deliver threadId itemId s front).itemsByThread threadId) itemId n)
    hempty ?_ ?_ ?_ ?_
  · intro front delta hbegins hfront
    unfold deliver at hfront ⊢
    rw [List.foldl_concat, hflatten]
    exact hasText_step_iff (hnonempty front delta hbegins) hfront
  · intro front delta hbegins hfront hnot
    unfold deliver at hfront hnot ⊢
    rw [List.foldl_concat, hflatten] at hnot ⊢
    exact atMost_of_lost (hnonempty front delta hbegins) hfront hnot
  · rintro front delta - ⟨n, hlt, hmost⟩
    unfold deliver at hmost ⊢
    rw [List.foldl_concat, hflatten, utf16Len_append]
    exact ⟨n + delta.utf16Len, Nat.add_lt_add_right hlt _, hmost.step delta⟩
  · rintro front ⟨n, hlt, hmost⟩
    exact hmost.not_hasText hlt

/-- A thread with one message, whose text is still to come. -/
def awaitingText : ThreadState :=
  initialState.setItems "t".toList [⟨"m".toList, .message { role := .assistant, text := [] }⟩]

theorem awaitingText_hasText : (agentMessage "w".toList false).HasText
    (awaitingText.itemsByThread "t".toList) "m".toList [] :=
  ⟨[], _, [], rfl, rfl, nofun, nofun, rfl⟩

theorem stream_reassembles_greeting :
    (agentMessage "w".toList false).HasText
        (((agentMessage "w".toList false).deliver "t".toList "m".toList awaitingText
          ["Hi".toList, " you".toList]).itemsByThread "t".toList) "m".toList
        ["Hi".toList, " you".toList].flatten ∧
    ∀ front delta rest, ["Hi".toList, " you".toList] = front ++ delta :: rest →
      ¬ delta <+: front.flatten ∧ ¬ Overlaps front.flatten delta ∧
        (agentMessage "w".toList false).StaysShown
          ((agentMessage "w".toList false).deliver "t".toList "m".toList awaitingText front)
          "t".toList "m".toList front.flatten delta := by
  have hdeltas : ∀ delta ∈ ["Hi".toList, " you".toList], delta ≠ [] := by simp
  have hwhole : (agentMessage "w".toList false).HasText
      (((agentMessage "w".toList false).deliver "t".toList "m".toList awaitingText
        ["Hi".toList, " you".toList]).itemsByThread "t".toList) "m".toList
      ["Hi".toList, " you".toList].flatten :=
    ⟨[], ⟨"m".toList, .message { role := .assistant, text := "Hi you".toList }⟩, [], by rfl, rfl,
      nofun, nofun, rfl⟩
  exact ⟨hwhole, (stream_reassembles_iff awaitingText_hasText hdeltas).mp hwhole⟩

/-- The second of two equal pieces is taken for a repetition. -/
theorem equalPieces_lost :
    (agentMessage "w".toList false).HasText (awaitingText.itemsByThread "t".toList) "m".toList [] ∧
    ¬ (agentMessage "w".toList false).HasText
      (((agentMessage "w".toList false).deliver "t".toList "m".toList awaitingText
        ["a".toList, "a".toList]).itemsByThread "t".toList) "m".toList
      ["a".toList, "a".toList].flatten := by
  refine ⟨awaitingText_hasText, ?_⟩
  have hshown : ((agentMessage "w".toList false).deliver "t".toList "m".toList awaitingText
      ["a".toList, "a".toList]).itemsByThread "t".toList =
        [⟨"m".toList, .message { role := .assistant, text := "a".toList }⟩] := by rfl
  rw [hshown]
  have hmost : (agentMessage "w".toList false).AtMost
      [⟨"m".toList, .message { role := .assistant, text := "a".toList }⟩] "m".toList 1 := by
    intro c hc _ t ht
    obtain rfl := List.mem_singleton.mp hc
    obtain rfl := Option.some.inj ht
    decide
  exact hmost.not_hasText (by decide)

end Stream

end CodexMonitor.Conversation
