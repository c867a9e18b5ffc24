import CodexMonitor.Lib.Coalesce
import CodexMonitor.Lib.Text
import CodexMonitor.StreamParser.InlineTags

namespace CodexMonitor.StreamParser

/-!
# Stream parsers — tags that stand alone on a line

`utils/stream-parser/src/tagged_line_parser.rs` and `proposed_plan.rs`: a parser that buffers a
line until it can no longer be a tag, and splits the text into normal text and tag blocks.

* `TaggedLineSegment`, `segmentCombination` — the output, and which neighbours are put together.
* `parseStep`, `parse` — the loop over the characters, with the run of text that is not yet put
  out.
* `feedStep`, `feed` — the same without a run, each piece of text on its own.
* `parse_feed` — `parse` puts out what `feed` does, up to joining neighbours.
* `ProposedPlanSegment`, `mapSegments` — the plan parser.
-/

variable {T : Type} [DecidableEq T]

/-! ### Segments -/

structure TagSpec (T : Type) where
  openTag : Text
  closeTag : Text
  tag : T

inductive TaggedLineSegment (T : Type) where
  | normal (text : Text)
  | tagStart (tag : T)
  | tagDelta (tag : T) (text : Text)
  | tagEnd (tag : T)
  deriving DecidableEq, Repr

/-- Two pieces of normal text, or of the same tag, are one piece. -/
def combineSegments : TaggedLineSegment T → TaggedLineSegment T → Option (TaggedLineSegment T)
  | .normal existing, .normal delta => some (.normal (existing ++ delta))
  | .tagDelta existingTag existing, .tagDelta tag delta =>
      if existingTag = tag then some (.tagDelta existingTag (existing ++ delta)) else none
  | _, _ => none

/-- A segment with a text that is empty. -/
def TaggedLineSegment.isEmptyText : TaggedLineSegment T → Bool
  | .normal text => text.isEmpty
  | .tagDelta _ text => text.isEmpty
  | _ => false

def pushSegment (segments : List (TaggedLineSegment T)) (segment : TaggedLineSegment T) :
    List (TaggedLineSegment T) :=
  if segment.isEmptyText then segments
  else
    match segments.getLast? with
    | some last =>
        match combineSegments last segment with
        | some combined => segments.dropLast ++ [combined]
        | none => segments ++ [segment]
    | none => [segment]

/-! ### The parser -/

/-- The state of the parser; its tags never change and are an argument. -/
structure TaggedLineParser (T : Type) where
  activeTag : Option T
  detectTag : Bool
  lineBuffer : Text
  deriving DecidableEq, Repr

namespace TaggedLineParser

def new : TaggedLineParser T := { activeTag := none, detectTag := true, lineBuffer := [] }

variable (specs : List (TagSpec T)) (parser : TaggedLineParser T)

/-- The segment of a text at this place. -/
def textSegment (text : Text) : TaggedLineSegment T :=
  match parser.activeTag with
  | some tag => .tagDelta tag text
  | none => .normal text

def pushText (text : Text) (segments : List (TaggedLineSegment T)) :
    List (TaggedLineSegment T) :=
  pushSegment segments (parser.textSegment text)

/-- Whether the line, which is not blank, may still become a tag. -/
def isTagPrefix (slug : Text) : Bool :=
  specs.any fun spec =>
    spec.openTag.startsWith slug.trimEnd || spec.closeTag.startsWith slug.trimEnd

def matchOpen (slug : Text) : Option T :=
  (specs.find? fun spec => spec.openTag == slug).map TagSpec.tag

def matchClose (slug : Text) : Option T :=
  (specs.find? fun spec => spec.closeTag == slug).map TagSpec.tag

/-- The line without its newline and the blanks around it. -/
def lineSlug (line : Text) : Text :=
  let withoutNewline : Text := if line.getLast? = some '\n' then line.dropLast else line
  withoutNewline.trimStart.trimEnd

/-- What a whole line is: the start or end of a block, or text; the next line may be a tag. -/
def closeLine : TaggedLineParser T × TaggedLineSegment T :=
  let slug := lineSlug parser.lineBuffer
  let cleared : TaggedLineParser T := { parser with lineBuffer := [], detectTag := true }
  match matchOpen specs slug, parser.activeTag with
  | some tag, none => ({ cleared with activeTag := some tag }, .tagStart tag)
  | _, _ =>
      match matchClose specs slug with
      | some tag =>
          if parser.activeTag = some tag then ({ cleared with activeTag := none }, .tagEnd tag)
          else (cleared, parser.textSegment parser.lineBuffer)
      | none => (cleared, parser.textSegment parser.lineBuffer)

/-- The variables of `parse`: the parser, the run of text and the segments. -/
structure ParseState (T : Type) where
  parser : TaggedLineParser T
  run : Text
  segments : List (TaggedLineSegment T)

/-- The run of text goes to the segments. -/
def flushRun (state : ParseState T) : List (TaggedLineSegment T) :=
  if state.run.isEmpty then state.segments
  else state.parser.pushText state.run state.segments

/-- The body of the loop of `parse`. -/
def parseStep (state : ParseState T) (ch : Char) : ParseState T :=
  if state.parser.detectTag then
    let segments := flushRun state
    let parser := { state.parser with lineBuffer := state.parser.lineBuffer ++ [ch] }
    if ch = '\n' then
      let closed := closeLine specs parser
      { parser := closed.1, run := [], segments := pushSegment segments closed.2 }
    else
      let slug := parser.lineBuffer.trimStart
      if slug.isEmpty || isTagPrefix specs slug then
        { parser := parser, run := [], segments := segments }
      else
        { parser := { parser with lineBuffer := [], detectTag := false }
          run := []
          segments := parser.pushText parser.lineBuffer segments }
  else
    let run := state.run ++ [ch]
    if ch = '\n' then
      { parser := { state.parser with detectTag := true }
        run := []
        segments := state.parser.pushText run state.segments }
    else { state with run := run }

def parse (delta : Text) : TaggedLineParser T × List (TaggedLineSegment T) :=
  let state := delta.foldl (parseStep specs) { parser := parser, run := [], segments := [] }
  (state.parser, flushRun state)

/-- The line that is left is closed, and then the block that is open. -/
def finish : TaggedLineParser T × List (TaggedLineSegment T) :=
  let closed :=
    if parser.lineBuffer.isEmpty then (parser, [])
    else ((closeLine specs parser).1, pushSegment [] (closeLine specs parser).2)
  match closed.1.activeTag with
  | some tag =>
      ({ closed.1 with activeTag := none, detectTag := true },
        pushSegment closed.2 (.tagEnd tag))
  | none => ({ closed.1 with detectTag := true }, closed.2)

/-! ### Pieces of text on their own -/

/-- One character, without a run: at most one segment is put out. -/
def feedStep (ch : Char) : TaggedLineParser T × List (TaggedLineSegment T) :=
  if parser.detectTag then
    let buffered := { parser with lineBuffer := parser.lineBuffer ++ [ch] }
    if ch = '\n' then
      ((closeLine specs buffered).1, [(closeLine specs buffered).2])
    else
      let slug := buffered.lineBuffer.trimStart
      if slug.isEmpty || isTagPrefix specs slug then (buffered, [])
      else
        ({ buffered with lineBuffer := [], detectTag := false },
          [parser.textSegment buffered.lineBuffer])
  else ({ parser with detectTag := ch = '\n' }, [parser.textSegment [ch]])

/-- The text character by character. -/
def feed (parser : TaggedLineParser T) : Text → TaggedLineParser T × List (TaggedLineSegment T)
  | [] => (parser, [])
  | ch :: text =>
      let rest := feed (parser.feedStep specs ch).1 text
      (rest.1, (parser.feedStep specs ch).2 ++ rest.2)

end TaggedLineParser

/-! ### Joining segments -/

/-- The combination of neighbouring segments. -/
def segmentCombination (T : Type) [DecidableEq T] : Combination (TaggedLineSegment T) where
  combine := combineSegments
  assoc := by
    intro a b c ab bc hab hbc
    cases a <;> cases b <;> simp only [combineSegments, reduceCtorEq] at hab
    · cases c <;> simp only [combineSegments, reduceCtorEq] at hbc
      obtain rfl := Option.some.inj hab
      obtain rfl := Option.some.inj hbc
      exact ⟨by simp [combineSegments], rfl⟩
    · cases c <;> simp only [combineSegments, reduceCtorEq] at hbc
      rw [Option.ite_none_right_eq_some] at hab hbc
      obtain ⟨rfl, hab⟩ := hab
      obtain ⟨rfl, hbc⟩ := hbc
      obtain rfl := Option.some.inj hab
      obtain rfl := Option.some.inj hbc
      exact ⟨by simp [combineSegments], by simp [combineSegments]⟩
  left := by
    intro a b c bc hab hbc
    cases b <;> cases c <;> simp only [combineSegments, reduceCtorEq] at hbc
    · obtain rfl := Option.some.inj hbc
      cases a <;> simp [combineSegments] at hab ⊢
    · rw [Option.ite_none_right_eq_some] at hbc
      obtain ⟨rfl, hbc⟩ := hbc
      obtain rfl := Option.some.inj hbc
      cases a <;> simp [combineSegments] at hab ⊢
      exact hab
  right := by
    intro a b c ab hbc hab
    cases a <;> cases b <;> simp only [combineSegments, reduceCtorEq] at hab
    · obtain rfl := Option.some.inj hab
      cases c <;> simp [combineSegments] at hbc ⊢
    · rw [Option.ite_none_right_eq_some] at hab
      obtain ⟨rfl, hab⟩ := hab
      obtain rfl := Option.some.inj hab
      cases c <;> simp [combineSegments] at hbc ⊢
      exact hbc

variable {parser : TaggedLineParser T} {specs : List (TagSpec T)}
  {segments segments' : List (TaggedLineSegment T)} {segment : TaggedLineSegment T}

/-- Two outputs that are the same up to joining neighbours. -/
def SameSegments (segments segments' : List (TaggedLineSegment T)) : Prop :=
  (segmentCombination T).coalesce segments = (segmentCombination T).coalesce segments'

theorem SameSegments.append {newer newer' : List (TaggedLineSegment T)}
    (h : SameSegments segments segments') (hnewer : SameSegments newer newer') :
    SameSegments (segments ++ newer) (segments' ++ newer') := by
  unfold SameSegments at *
  rw [← Combination.coalesce_append, h, Combination.coalesce_append,
    ← Combination.append_coalesce, hnewer, Combination.append_coalesce]

/-- Two neighbours that combine may be put out as one. -/
theorem sameSegments_combine {last combined : TaggedLineSegment T}
    (hcombine : combineSegments last segment = some combined) :
    SameSegments [last, segment] [combined] := by
  have hpush : (segmentCombination T).push [last] segment = [combined] :=
    Combination.push_some hcombine
  show ((segmentCombination T).push [last] segment).reverse = [combined].reverse
  rw [hpush]

theorem sameSegments_pushSegment (segments : List (TaggedLineSegment T))
    (hsegment : segment.isEmptyText = false) :
    SameSegments (pushSegment segments segment) (segments ++ [segment]) := by
  unfold pushSegment
  rw [hsegment, if_neg (by simp)]
  cases hlast : segments.getLast? with
  | none =>
    rw [List.getLast?_eq_none_iff.mp hlast]
    rfl
  | some last =>
    simp only
    cases hcombine : combineSegments last segment with
    | none => rfl
    | some combined =>
      have hsplit : segments = segments.dropLast ++ [last] :=
        (List.dropLast_append_getLast? last hlast).symm
      have hsame := SameSegments.append (Eq.refl _ : SameSegments segments.dropLast _)
        (sameSegments_combine hcombine)
      conv_rhs => rw [hsplit, List.append_assoc]
      exact hsame.symm

/-! ### The loop puts out what each character does -/

open TaggedLineParser

omit [DecidableEq T] in
theorem isEmptyText_textSegment (parser : TaggedLineParser T) (text : Text) :
    (parser.textSegment text).isEmptyText = text.isEmpty := by
  unfold textSegment
  cases parser.activeTag <;> rfl

theorem isEmptyText_closeLine (h : parser.lineBuffer ≠ []) :
    (parser.closeLine specs).2.isEmptyText = false := by
  have htext : (parser.textSegment parser.lineBuffer).isEmptyText = false := by
    rw [isEmptyText_textSegment]
    exact List.isEmpty_eq_false_iff.mpr h
  unfold closeLine
  simp only
  split
  · rfl
  · split
    · split
      · rfl
      · exact htext
    · exact htext

theorem combineSegments_textSegment (parser : TaggedLineParser T) (text text' : Text) :
    combineSegments (parser.textSegment text) (parser.textSegment text') =
      some (parser.textSegment (text ++ text')) := by
  unfold textSegment
  cases parser.activeTag with
  | none => rfl
  | some tag => exact if_pos rfl

/-- A run of text that is one character longer. -/
theorem sameSegments_run (state : ParseState T) (ch : Char) :
    SameSegments (state.parser.pushText (state.run ++ [ch]) state.segments)
      (flushRun state ++ [state.parser.textSegment [ch]]) := by
  have hlong : (state.parser.textSegment (state.run ++ [ch])).isEmptyText = false := by
    rw [isEmptyText_textSegment]
    simp
  unfold flushRun pushText
  by_cases hrun : state.run = []
  · rw [hrun, List.nil_append]
    rw [hrun, List.nil_append] at hlong
    exact sameSegments_pushSegment _ hlong
  · have hshort : (state.parser.textSegment state.run).isEmptyText = false := by
      rw [isEmptyText_textSegment]
      exact List.isEmpty_eq_false_iff.mpr hrun
    rw [if_neg (by simpa using hrun)]
    have hpushed := (sameSegments_pushSegment state.segments hshort).append
      (Eq.refl _ : SameSegments [state.parser.textSegment [ch]] _)
    have hjoined := SameSegments.append (Eq.refl _ : SameSegments state.segments _)
      (sameSegments_combine (combineSegments_textSegment state.parser state.run [ch]))
    rw [List.append_assoc] at hpushed
    exact (sameSegments_pushSegment _ hlong).trans (hjoined.symm.trans hpushed.symm)

/-- **One character.** -/
theorem parseStep_feedStep (specs : List (TagSpec T)) (state : ParseState T) (ch : Char) :
    (parseStep specs state ch).parser = (state.parser.feedStep specs ch).1 ∧
      SameSegments (flushRun (parseStep specs state ch))
        (flushRun state ++ (state.parser.feedStep specs ch).2) := by
  unfold parseStep feedStep
  cases hdetect : state.parser.detectTag with
  | true =>
    simp only [if_true]
    by_cases hnewline : ch = '\n'
    · simp only [if_pos hnewline]
      refine ⟨rfl, ?_⟩
      exact sameSegments_pushSegment _ (isEmptyText_closeLine (by simp))
    · simp only [if_neg hnewline]
      split
      · refine ⟨by simp only [hdetect], ?_⟩
        rw [List.append_nil]
        rfl
      · refine ⟨rfl, ?_⟩
        refine sameSegments_pushSegment _ ?_
        rw [isEmptyText_textSegment]
        simp
  | false =>
    have hrun := sameSegments_run state ch
    simp only [Bool.false_eq_true, if_false]
    by_cases hnewline : ch = '\n'
    · simp only [if_pos hnewline]
      exact ⟨by rw [decide_eq_true hnewline], hrun⟩
    · simp only [if_neg hnewline]
      refine ⟨?_, ?_⟩
      · rw [decide_eq_false hnewline, ← hdetect]
      · have hlong : (state.run ++ [ch]).isEmpty = false := by simp
        unfold flushRun
        simp only [hlong, Bool.false_eq_true, if_false]
        exact hrun

theorem foldl_parseStep (delta : Text) (state : ParseState T) :
    (delta.foldl (parseStep specs) state).parser = (feed specs state.parser delta).1 ∧
      SameSegments (flushRun (delta.foldl (parseStep specs) state))
        (flushRun state ++ (feed specs state.parser delta).2) := by
  induction delta generalizing state with
  | nil =>
    refine ⟨rfl, ?_⟩
    show SameSegments (flushRun state) (flushRun state ++ [])
    rw [List.append_nil]
    rfl
  | cons ch delta ih =>
    obtain ⟨hparser, hsame⟩ := parseStep_feedStep specs state ch
    obtain ⟨hfinal, hrest⟩ := ih _
    rw [hparser] at hfinal hrest
    refine ⟨hfinal, ?_⟩
    have hboth := hsame.append (Eq.refl _ : SameSegments
      (feed specs (state.parser.feedStep specs ch).1 delta).2 _)
    rw [List.append_assoc] at hboth
    exact hrest.trans hboth

/-- **The loop**, up to joining neighbours. -/
theorem parse_feed (specs : List (TagSpec T)) (parser : TaggedLineParser T) (delta : Text) :
    (parser.parse specs delta).1 = (feed specs parser delta).1 ∧
      SameSegments (parser.parse specs delta).2 (feed specs parser delta).2 :=
  foldl_parseStep delta { parser := parser, run := [], segments := [] }

theorem feed_append (specs : List (TagSpec T)) (parser : TaggedLineParser T) (text newer : Text) :
    feed specs parser (text ++ newer) =
      ((feed specs (feed specs parser text).1 newer).1,
        (feed specs parser text).2 ++ (feed specs (feed specs parser text).1 newer).2) := by
  induction text generalizing parser with
  | nil => rfl
  | cons ch text ih =>
    rw [List.cons_append, feed, ih, feed, List.append_assoc]

/-! ### The plan parser -/

inductive PlanTag where
  | proposedPlan
  deriving DecidableEq, Repr

inductive ProposedPlanSegment where
  | normal (text : Text)
  | proposedPlanStart
  | proposedPlanDelta (text : Text)
  | proposedPlanEnd
  deriving DecidableEq, Repr

def planSpecs : List (TagSpec PlanTag) :=
  [ { openTag := "<proposed_plan>".toList
      closeTag := "</proposed_plan>".toList
      tag := .proposedPlan } ]

def mapSegment : TaggedLineSegment PlanTag → ProposedPlanSegment
  | .normal text => .normal text
  | .tagStart .proposedPlan => .proposedPlanStart
  | .tagDelta .proposedPlan text => .proposedPlanDelta text
  | .tagEnd .proposedPlan => .proposedPlanEnd

def ProposedPlanSegment.normalText : ProposedPlanSegment → Text
  | .normal text => text
  | _ => []

def mapSegments (segments : List (TaggedLineSegment PlanTag)) :
    StreamTextChunk ProposedPlanSegment :=
  { visibleText := (segments.map mapSegment).flatMap ProposedPlanSegment.normalText
    extracted := segments.map mapSegment }

/-- `ProposedPlanParser::push_str`. -/
def planPushStr (parser : TaggedLineParser PlanTag) (chunk : Text) :
    TaggedLineParser PlanTag × StreamTextChunk ProposedPlanSegment :=
  ((parser.parse planSpecs chunk).1, mapSegments (parser.parse planSpecs chunk).2)

/-- `ProposedPlanParser::finish`. -/
def planFinish (parser : TaggedLineParser PlanTag) : StreamTextChunk ProposedPlanSegment :=
  mapSegments (parser.finish planSpecs).2

end CodexMonitor.StreamParser
