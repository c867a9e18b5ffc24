import CodexMonitor.Lib.Text

namespace CodexMonitor.Conversation

open Text

/-!
# Conversation — the items of a thread

`types.ts` and `utils/threadItems.shared.ts`: the items that a thread's view consists of, and
the lengths their texts are cut to.

* `ConversationItem` — an id and a `Body`, one for each kind of item.
* `normalizeItem` — the item with its texts cut.
* `WithinLimits` — no text of the item is cut (`normalizeItem_of_withinLimits`).
-/

/-! ### Items -/

inductive Role
  | user
  | assistant
  deriving DecidableEq, Repr

structure Message where
  role : Role
  text : Text
  images : Option (List Text) := none
  deriving DecidableEq, Repr

structure Question where
  id : Text
  header : Text
  question : Text
  answers : List Text
  deriving DecidableEq, Repr

structure Reasoning where
  summary : Text
  content : Text
  deriving DecidableEq, Repr

structure Diff where
  title : Text
  diff : Text
  status : Option Text := none
  deriving DecidableEq, Repr

inductive ReviewState
  | started
  | completed
  deriving DecidableEq, Repr

structure Review where
  state : ReviewState
  text : Text
  deriving DecidableEq, Repr

inductive ExploreStatus
  | exploring
  | explored
  deriving DecidableEq, Repr

inductive ExploreKind
  | read
  | search
  | list
  | run
  deriving DecidableEq, Repr

structure ExploreEntry where
  kind : ExploreKind
  label : Text
  detail : Option Text := none
  deriving DecidableEq, Repr

structure Explore where
  status : ExploreStatus
  entries : List ExploreEntry
  deriving DecidableEq, Repr

structure Change where
  path : Text
  kind : Option Text := none
  diff : Option Text := none
  deriving DecidableEq, Repr

structure CollabAgentRef where
  threadId : Text
  nickname : Option Text := none
  role : Option Text := none
  deriving DecidableEq, Repr

/-- The fields of a tool item that only collaboration calls have; these have all of them. -/
structure Collab where
  sender : Option CollabAgentRef := none
  receiver : Option CollabAgentRef := none
  receivers : Option (List CollabAgentRef) := none
  statuses : Option (List (CollabAgentRef × Text)) := none
  deriving DecidableEq, Repr

structure Tool where
  toolType : Text
  title : Text
  detail : Text
  status : Option Text := none
  output : Option Text := none
  durationMs : Option Int := none
  changes : Option (List Change) := none
  collab : Option Collab := none
  deriving DecidableEq, Repr

/-- What an item is, by its kind. -/
inductive Body
  | message (message : Message)
  /-- Questions that were answered. -/
  | userInput (questions : List Question)
  | reasoning (reasoning : Reasoning)
  | diff (diff : Diff)
  | review (review : Review)
  | explore (explore : Explore)
  | tool (tool : Tool)
  deriving DecidableEq, Repr

structure ConversationItem where
  id : Text
  body : Body
  deriving DecidableEq, Repr

/-- The ids of a list of items. -/
def ids (items : List ConversationItem) : List Text := items.map ConversationItem.id

/-! ### Cutting texts -/

def maxItemText : Nat := 20000

def maxLargeToolText : Nat := 200000

def truncateText (text : Text) (maxLength : Nat) : Text :=
  if text.utf16Len ≤ maxLength then text
  else text.utf16Take (maxLength - 3) ++ "...".toList

def maxToolText (toolType : Text) : Nat :=
  if toolType = "fileChange".toList ∨ toolType = "commandExecution".toList then maxLargeToolText
  else maxItemText

def truncateToolText (toolType text : Text) : Text := truncateText text (maxToolText toolType)

def Change.truncate (cut : Text → Text) (change : Change) : Change :=
  { change with diff := change.diff.map cut }

def Question.normalize (q : Question) : Question :=
  { q with
    header := truncateText q.header 300
    question := truncateText q.question 2000
    answers := q.answers.map (truncateText · 2000) }

/-- An empty output is left alone, which cutting it does too. -/
def Tool.normalize (t : Tool) : Tool :=
  { t with
    title := truncateText t.title 200
    detail := truncateText t.detail 2000
    output := t.output.map (truncateToolText t.toolType)
    changes := t.changes.map (List.map (Change.truncate (truncateToolText t.toolType))) }

def normalizeBody : Body → Body
  | .message m => .message { m with text := truncateText m.text maxItemText }
  | .userInput questions => .userInput (questions.map Question.normalize)
  | .explore e => .explore e
  | .reasoning r =>
      .reasoning ⟨truncateText r.summary maxItemText, truncateText r.content maxItemText⟩
  | .diff d => .diff { d with diff := truncateText d.diff maxItemText }
  | .tool t => .tool t.normalize
  | .review r => .review r

def normalizeItem (item : ConversationItem) : ConversationItem :=
  { item with body := normalizeBody item.body }

/-! ### Short texts -/

/-- No text of the item is longer than any of the lengths it is cut to.  The outputs of tools
    are cut twice, first to a length that depends on the type of the tool. -/
def WithinLimits (item : ConversationItem) : Prop :=
  match item.body with
  | .message m => m.text.utf16Len ≤ maxItemText
  | .userInput questions => ∀ q ∈ questions, q.header.utf16Len ≤ 300 ∧ q.question.utf16Len ≤ 2000 ∧
      ∀ answer ∈ q.answers, answer.utf16Len ≤ 2000
  | .explore _ | .review _ => True
  | .reasoning r => r.summary.utf16Len ≤ maxItemText ∧ r.content.utf16Len ≤ maxItemText
  | .diff d => d.diff.utf16Len ≤ maxItemText
  | .tool t => t.title.utf16Len ≤ 200 ∧ t.detail.utf16Len ≤ 2000 ∧
      (∀ output ∈ t.output, output.utf16Len ≤ maxItemText) ∧
      ∀ changes ∈ t.changes, ∀ change ∈ changes, ∀ diff ∈ change.diff, diff.utf16Len ≤ maxItemText

theorem truncateText_of_le {text : Text} {maxLength : Nat} (h : text.utf16Len ≤ maxLength) :
    truncateText text maxLength = text :=
  if_pos h

theorem maxItemText_le_maxToolText (toolType : Text) : maxItemText ≤ maxToolText toolType := by
  unfold maxToolText
  split
  · decide
  · exact Nat.le_refl _

theorem map_eq_self_of_mem {α : Type*} {f : α → α} {l : Option α} (h : ∀ a ∈ l, f a = a) :
    l.map f = l := by
  cases l with
  | none => rfl
  | some a => exact congrArg some (h a rfl)

theorem Change.truncate_eq_self {cut : Text → Text} {change : Change}
    (h : ∀ diff ∈ change.diff, cut diff = diff) : change.truncate cut = change := by
  obtain ⟨path, kind, diff⟩ := change
  exact congrArg (Change.mk path kind) (map_eq_self_of_mem h)

/-- The changes of a tool, none of which is cut. -/
theorem map_truncate_eq_self {cut : Text → Text} {changes : Option (List Change)}
    (h : ∀ cs ∈ changes, ∀ change ∈ cs, ∀ diff ∈ change.diff, cut diff = diff) :
    changes.map (List.map (Change.truncate cut)) = changes := by
  refine map_eq_self_of_mem fun cs hcs => ?_
  refine (List.map_congr_left fun change hchange => ?_).trans (List.map_id cs)
  exact Change.truncate_eq_self (h cs hcs change hchange)

theorem Question.normalize_eq_self {q : Question} (hheader : q.header.utf16Len ≤ 300)
    (hquestion : q.question.utf16Len ≤ 2000) (hanswers : ∀ a ∈ q.answers, a.utf16Len ≤ 2000) :
    q.normalize = q := by
  have hmap : q.answers.map (truncateText · 2000) = q.answers :=
    (List.map_congr_left fun a ha => truncateText_of_le (hanswers a ha)).trans (List.map_id _)
  simp only [normalize, truncateText_of_le hheader, truncateText_of_le hquestion, hmap]

/-- **A short item is its own normal form.** -/
theorem normalizeItem_of_withinLimits {item : ConversationItem} (h : WithinLimits item) :
    normalizeItem item = item := by
  obtain ⟨id, body⟩ := item
  refine congrArg (ConversationItem.mk id) ?_
  cases body with
  | message m => simp only [normalizeBody, truncateText_of_le (show m.text.utf16Len ≤ _ from h)]
  | userInput questions =>
    refine congrArg Body.userInput ?_
    refine (List.map_congr_left fun q hq => ?_).trans (List.map_id questions)
    obtain ⟨hheader, hquestion, hanswers⟩ := (show ∀ q ∈ questions, _ from h) q hq
    exact Question.normalize_eq_self hheader hquestion hanswers
  | reasoning r =>
    obtain ⟨hsummary, hcontent⟩ := (show r.summary.utf16Len ≤ _ ∧ _ from h)
    simp only [normalizeBody, truncateText_of_le hsummary, truncateText_of_le hcontent]
  | diff d => simp only [normalizeBody, truncateText_of_le (show d.diff.utf16Len ≤ _ from h)]
  | review r => rfl
  | explore e => rfl
  | tool t =>
    obtain ⟨htitle, hdetail, houtput, hchanges⟩ := (show t.title.utf16Len ≤ _ ∧ _ from h)
    have hout : t.output.map (truncateToolText t.toolType) = t.output :=
      map_eq_self_of_mem fun output ho => truncateText_of_le
        ((houtput output ho).trans (maxItemText_le_maxToolText _))
    have hch : t.changes.map (List.map (Change.truncate (truncateToolText t.toolType))) =
        t.changes :=
      map_truncate_eq_self fun cs hcs c hc d hd => truncateText_of_le
        ((hchanges cs hcs c hc d hd).trans (maxItemText_le_maxToolText _))
    simp only [normalizeBody, Tool.normalize, truncateText_of_le htitle,
      truncateText_of_le hdetail, hout, hch]

end CodexMonitor.Conversation
