import CodexMonitor.StreamParser.AssistantText

namespace CodexMonitor.StreamParser

/-!
# Stream parsers — what plan blocks are, line by line

`utils/stream-parser/src/proposed_plan.rs`: the plan parser holds a line back as long as it may
become a tag.  What it puts out in the end is what one gets by looking at whole lines.

* `lineSegments` — the lines of a text one after the other, each closed as a whole.
* `Held` — what a parser has of a line that has not ended.
* `feed_lines` — character by character the parser puts out what whole lines do.
* `planLines` — the plan segments of the lines, with one boolean.
* `stripProposedPlanBlocks`, `extractProposedPlanText` — the text without the blocks, and the
  last block.
* `planBlocks_lines` — the parser, for every text in any chunks.
-/

open TaggedLineParser

variable {T : Type} [DecidableEq T]

/-! ### Whole lines -/

/-- The parser with a line in its buffer. -/
def lineParser (active : Option T) (line : Text) : TaggedLineParser T :=
  { activeTag := active, detectTag := true, lineBuffer := line }

/-- The lines one after the other, and the end of a block that is still open. -/
def lineSegments (specs : List (TagSpec T)) (active : Option T) :
    List Text → List (TaggedLineSegment T)
  | [] => (active.map .tagEnd).toList
  | line :: lines =>
      let closed := closeLine specs (lineParser active line)
      closed.2 :: lineSegments specs closed.1.activeTag lines

/-- The line is no tag, whatever block is open. -/
def NoTag (specs : List (TagSpec T)) (line : Text) : Prop :=
  matchOpen specs (lineSlug line) = none ∧ matchClose specs (lineSlug line) = none

variable {specs : List (TagSpec T)} {active : Option T} {parser : TaggedLineParser T}
  {body line : Text} {out : List (TaggedLineSegment T)} {ch : Char}

theorem closeLine_fst (specs : List (TagSpec T)) (parser : TaggedLineParser T) :
    (closeLine specs parser).1 = lineParser (closeLine specs parser).1.activeTag [] := by
  unfold closeLine
  simp only
  split
  · rfl
  · split
    · split <;> rfl
    · rfl

omit [DecidableEq T] in
theorem lineSlug_eq (line : Text) : lineSlug line = line.trim := by
  unfold lineSlug
  simp only
  split
  · next hlast =>
    obtain ⟨front, rfl⟩ : ∃ front, line = front ++ ['\n'] :=
      ⟨line.dropLast, (List.dropLast_append_getLast? _ hlast).symm⟩
    rw [List.dropLast_concat]
    exact (Text.trimBy_concat (by decide) front).symm
  · rfl

theorem closeLine_noTag (h : NoTag specs line) (active : Option T) :
    closeLine specs (lineParser active line) =
      (lineParser active [], (lineParser active []).textSegment line) := by
  unfold closeLine
  have hopen : matchOpen specs (lineSlug (lineParser active line).lineBuffer) = none := h.1
  have hclose : matchClose specs (lineSlug (lineParser active line).lineBuffer) = none := h.2
  simp only [hopen, hclose]
  rfl

omit [DecidableEq T] in
/-- **A line that begins as no tag does** is none, however it goes on. -/
theorem noTag_append (hbody : body.trimStart ≠ []) (h : isTagPrefix specs body.trimStart = false)
    (more : Text) : NoTag specs (body ++ more) := by
  have hfront : body.trimStart.trimEnd <+: lineSlug (body ++ more) := by
    rw [lineSlug_eq]
    show body.trimStart.trimEnd <+: Text.trimEndBy _ (List.dropWhile _ (body ++ more))
    rw [List.dropWhile_append, if_neg]
    · exact Text.trimEndBy_append _ _ _
    · rw [List.isEmpty_iff]
      exact hbody
  unfold isTagPrefix at h
  rw [List.any_eq_false] at h
  refine ⟨?_, ?_⟩
  · unfold matchOpen
    rw [Option.map_eq_none_iff, List.find?_eq_none]
    intro spec hspec hopen
    refine h spec hspec ?_
    rw [Bool.or_eq_true]
    left
    unfold Text.startsWith
    rw [List.isPrefixOf_iff_prefix, eq_of_beq hopen]
    exact hfront
  · unfold matchClose
    rw [Option.map_eq_none_iff, List.find?_eq_none]
    intro spec hspec hclose
    refine h spec hspec ?_
    rw [Bool.or_eq_true]
    right
    unfold Text.startsWith
    rw [List.isPrefixOf_iff_prefix, eq_of_beq hclose]
    exact hfront

/-! ### A line that has not ended -/

/-- What the parser has of a line: it holds it back, or it has put it out as text, and then the
    line is no tag. -/
inductive Held (specs : List (TagSpec T)) (active : Option T) (body : Text) :
    TaggedLineParser T → List (TaggedLineSegment T) → Prop where
  | buffered : Held specs active body (lineParser active body) []
  | flushed {out : List (TaggedLineSegment T)} (ne : body ≠ [])
      (noTag : ∀ more, NoTag specs (body ++ more))
      (same : SameSegments out [(lineParser active []).textSegment body]) :
      Held specs active body { lineParser active [] with detectTag := false } out

/-- Text that goes on. -/
theorem sameSegments_text (h : SameSegments out [(lineParser active []).textSegment body])
    (ch : Char) :
    SameSegments (out ++ [(lineParser active []).textSegment [ch]])
      [(lineParser active []).textSegment (body ++ [ch])] :=
  (h.append (Eq.refl _)).trans
    (sameSegments_combine (combineSegments_textSegment (lineParser active []) body [ch]))

/-- A character of a line that is held back. -/
theorem feedStep_lineParser (hch : ch ≠ '\n') :
    (lineParser active body).feedStep specs ch =
      if (body ++ [ch]).trimStart.isEmpty || isTagPrefix specs (body ++ [ch]).trimStart then
        (lineParser active (body ++ [ch]), [])
      else
        ({ lineParser active [] with detectTag := false },
          [(lineParser active []).textSegment (body ++ [ch])]) := by
  unfold feedStep
  simp only [lineParser, if_true, if_neg hch]
  rfl

/-- **One more character of the line.** -/
theorem held_feedStep (h : Held specs active body parser out) (hch : ch ≠ '\n') :
    Held specs active (body ++ [ch]) (parser.feedStep specs ch).1
      (out ++ (parser.feedStep specs ch).2) := by
  cases h with
  | buffered =>
    rw [feedStep_lineParser hch, List.nil_append]
    by_cases hheld : (body ++ [ch]).trimStart.isEmpty ||
        isTagPrefix specs (body ++ [ch]).trimStart
    · rw [if_pos hheld]
      exact .buffered
    · rw [if_neg hheld]
      rw [Bool.or_eq_true, not_or, List.isEmpty_iff, Bool.not_eq_true] at hheld
      exact .flushed (by simp) (noTag_append hheld.1 hheld.2) (Eq.refl _)
  | flushed ne noTag same =>
    unfold feedStep
    simp only [Bool.false_eq_true, if_false, decide_eq_false hch]
    refine .flushed (by simp) ?_ (sameSegments_text same ch)
    intro more
    rw [List.append_assoc]
    exact noTag _

/-- **The end of the line.** -/
theorem held_newline (h : Held specs active body parser out) :
    let closed := closeLine specs (lineParser active (body ++ ['\n']))
    (parser.feedStep specs '\n').1 = lineParser closed.1.activeTag [] ∧
      SameSegments (out ++ (parser.feedStep specs '\n').2) [closed.2] := by
  cases h with
  | buffered => exact ⟨closeLine_fst _ _, Eq.refl _⟩
  | flushed ne noTag same =>
    rw [closeLine_noTag (noTag ['\n'])]
    exact ⟨rfl, sameSegments_text same '\n'⟩

/-- **The end of the text.** -/
theorem held_finish (h : Held specs active body parser out) (hbody : '\n' ∉ body) :
    SameSegments (out ++ (parser.finish specs).2)
      (lineSegments specs active (Text.splitInclusive '\n' body)) := by
  -- what is left is the end of an open block
  have hend : ∀ (active : Option T) (front : List (TaggedLineSegment T)),
      SameSegments (active.elim front fun tag => pushSegment front (.tagEnd tag))
        (front ++ lineSegments specs active []) := by
    intro active front
    cases active with
    | none =>
      show SameSegments front (front ++ [])
      rw [List.append_nil]
      rfl
    | some tag => exact sameSegments_pushSegment front rfl
  cases h with
  | buffered =>
    unfold TaggedLineParser.finish
    by_cases hnone : body = []
    · subst hnone
      have hnothing := hend active []
      cases active <;> exact hnothing
    · have hline : closeLine specs (lineParser active body) =
          (lineParser (closeLine specs (lineParser active body)).1.activeTag [],
            (closeLine specs (lineParser active body)).2) := by
        rw [← closeLine_fst]
      have hsome : (lineParser active body).lineBuffer.isEmpty = false := by
        simpa [lineParser] using hnone
      have hfilled : (closeLine specs (lineParser active body)).2.isEmptyText = false :=
        isEmptyText_closeLine hnone
      have hpushed := sameSegments_pushSegment [] hfilled
      rw [Text.splitInclusive_of_notMem hbody hnone]
      simp only [hsome, Bool.false_eq_true, if_false]
      have hlast := hend (closeLine specs (lineParser active body)).1.activeTag
        (pushSegment [] (closeLine specs (lineParser active body)).2)
      have hboth := hlast.trans (hpushed.append (Eq.refl _))
      generalize hclosed : (closeLine specs (lineParser active body)).1.activeTag = next
        at hboth ⊢
      show SameSegments _ ((closeLine specs (lineParser active body)).2 ::
        lineSegments specs (closeLine specs (lineParser active body)).1.activeTag [])
      rw [hclosed]
      cases next <;> exact hboth
  | flushed ne noTag same =>
    have hline := closeLine_noTag (noTag []) active
    rw [List.append_nil] at hline
    rw [Text.splitInclusive_of_notMem hbody ne]
    unfold lineSegments
    simp only [hline]
    have hnothing := hend active []
    have hboth := same.append hnothing
    cases active <;> exact hboth

/-- **Character by character** the parser puts out what whole lines do. -/
theorem feed_lines (t : Text) (h : Held specs active body parser out) (hbody : '\n' ∉ body) :
    SameSegments (out ++ ((feed specs parser t).2 ++ ((feed specs parser t).1.finish specs).2))
      (lineSegments specs active (Text.splitInclusive '\n' (body ++ t))) := by
  induction t generalizing active body parser out with
  | nil =>
    rw [List.append_nil]
    exact held_finish h hbody
  | cons ch t ih =>
    unfold feed
    simp only
    by_cases hnewline : ch = '\n'
    · subst hnewline
      obtain ⟨hparser, hsame⟩ := held_newline h
      rw [Text.splitInclusive_append_sep hbody, hparser]
      have hnext : Held specs (closeLine specs (lineParser active (body ++ ['\n']))).1.activeTag []
          (lineParser _ []) [] := .buffered
      have hrest := ih hnext List.not_mem_nil
      have hboth := hsame.append hrest
      rw [List.append_assoc, List.nil_append] at hboth
      rw [List.append_assoc]
      exact hboth
    · have hstep := ih (held_feedStep h hnewline) (by
        rw [List.mem_append, List.mem_singleton, not_or]
        exact ⟨hbody, Ne.symm hnewline⟩)
      rw [List.append_assoc, List.append_assoc, List.singleton_append] at hstep
      rw [List.append_assoc]
      exact hstep

/-! ### Plan segments -/

/-- `ProposedPlanParser`. -/
def proposedPlanParser : StreamTextParser (TaggedLineParser PlanTag) ProposedPlanSegment where
  pushStr := planPushStr
  finish parser := ((parser.finish planSpecs).1, planFinish parser)

/-- `strip_proposed_plan_blocks`. -/
def stripProposedPlanBlocks (text : Text) : Text :=
  let pushed := planPushStr .new text
  pushed.2.visibleText ++ (planFinish pushed.1).visibleText

/-- The body of the loop of `extract_proposed_plan_text`; a block that starts clears the text. -/
def extractStep (state : Bool × Text) : ProposedPlanSegment → Bool × Text
  | .proposedPlanStart => (true, [])
  | .proposedPlanDelta delta => (state.1, state.2 ++ delta)
  | .proposedPlanEnd => state
  | .normal _ => state

/-- `extract_proposed_plan_text`. -/
def extractProposedPlanText (text : Text) : Option Text :=
  let pushed := planPushStr .new text
  let state := (pushed.2.extracted ++ (planFinish pushed.1).extracted).foldl extractStep (false, [])
  if state.1 then some state.2 else none

/-- **The lines of a text**, with one boolean: a tag line starts or ends a block, and any other
    line is text as it stands. -/
def planLines (inside : Bool) : List Text → List ProposedPlanSegment
  | [] => if inside then [.proposedPlanEnd] else []
  | line :: lines =>
      if !inside && line.trim == "<proposed_plan>".toList then
        .proposedPlanStart :: planLines true lines
      else if inside && line.trim == "</proposed_plan>".toList then
        .proposedPlanEnd :: planLines false lines
      else (if inside then .proposedPlanDelta line else .normal line) :: planLines inside lines

/-- The text of a plan. -/
def ProposedPlanSegment.deltaText : ProposedPlanSegment → Text
  | .proposedPlanDelta text => text
  | _ => []

/-- The starts and ends of blocks. -/
def ProposedPlanSegment.marker : ProposedPlanSegment → List ProposedPlanSegment
  | .proposedPlanStart => [.proposedPlanStart]
  | .proposedPlanEnd => [.proposedPlanEnd]
  | _ => []

section Lines

variable {inside : Bool} {lines : List Text} {segments before after : List ProposedPlanSegment}

/-- The two tags of the table. -/
theorem match_planSpecs (slug : Text) :
    matchOpen planSpecs slug =
        (if slug == "<proposed_plan>".toList then some .proposedPlan else none) ∧
      matchClose planSpecs slug =
        if slug == "</proposed_plan>".toList then some .proposedPlan else none := by
  unfold matchOpen matchClose planSpecs
  simp only [List.find?_cons, List.find?_nil]
  rw [BEq.comm (a := slug), BEq.comm (a := slug)]
  refine ⟨?_, ?_⟩
  · cases "<proposed_plan>".toList == slug <;> rfl
  · cases "</proposed_plan>".toList == slug <;> rfl

/-- **One line of the plan parser.** -/
theorem closeLine_planSpecs (inside : Bool) (line : Text) :
    closeLine planSpecs
        (lineParser (if inside then some PlanTag.proposedPlan else none) line) =
      if !inside && line.trim == "<proposed_plan>".toList then
        (lineParser (some .proposedPlan) [], .tagStart .proposedPlan)
      else if inside && line.trim == "</proposed_plan>".toList then
        (lineParser none [], .tagEnd .proposedPlan)
      else if inside then (lineParser (some .proposedPlan) [], .tagDelta .proposedPlan line)
      else (lineParser none [], .normal line) := by
  obtain ⟨hopen, hclose⟩ := match_planSpecs line.trim
  unfold closeLine
  simp only [lineSlug_eq, lineParser, hopen, hclose]
  cases inside with
  | false =>
    cases line.trim == "<proposed_plan>".toList with
    | true => rfl
    | false => cases line.trim == "</proposed_plan>".toList <;> rfl
  | true =>
    cases line.trim == "</proposed_plan>".toList with
    | true => cases line.trim == "<proposed_plan>".toList <;> rfl
    | false => cases line.trim == "<proposed_plan>".toList <;> rfl

/-- The lines of the plan parser are those with one boolean. -/
theorem lineSegments_planSpecs (inside : Bool) (lines : List Text) :
    (lineSegments planSpecs (if inside then some .proposedPlan else none) lines).map mapSegment =
      planLines inside lines := by
  induction lines generalizing inside with
  | nil => cases inside <;> rfl
  | cons line lines ih =>
    unfold lineSegments planLines
    simp only [closeLine_planSpecs]
    by_cases hopen : (!inside && line.trim == "<proposed_plan>".toList) = true
    · simp only [hopen, if_true, List.map_cons]
      exact congrArg _ (ih true)
    · by_cases hclose : (inside && line.trim == "</proposed_plan>".toList) = true
      · simp only [hopen, hclose, if_true, List.map_cons]
        exact congrArg _ (ih false)
      · simp only [hopen, hclose, List.map_cons]
        have hrest := ih inside
        cases inside with
        | false => exact congrArg _ hrest
        | true => exact congrArg _ hrest

/-! ### The output for all chunks -/

/-- What the plan parser returns for chunks that the line parser takes as one text. -/
theorem pushAll_plan (parser : TaggedLineParser PlanTag) (chunks : List Text) :
    (proposedPlanParser.pushAll parser chunks).1 = (feed planSpecs parser chunks.flatten).1 ∧
      ∃ out, (proposedPlanParser.pushAll parser chunks).2 = mapSegments out ∧
        SameSegments out (feed planSpecs parser chunks.flatten).2 := by
  induction chunks generalizing parser with
  | nil => exact ⟨rfl, [], rfl, Eq.refl _⟩
  | cons chunk chunks ih =>
    obtain ⟨hparser, hsame⟩ := parse_feed planSpecs parser chunk
    obtain ⟨hfinal, out, hout, hrest⟩ := ih (parser.parse planSpecs chunk).1
    rw [hparser] at hfinal hrest
    rw [List.flatten_cons, feed_append]
    unfold StreamTextParser.pushAll
    refine ⟨?_, (parser.parse planSpecs chunk).2 ++ out, ?_, hsame.append hrest⟩
    · rw [← hfinal, ← hparser]
      rfl
    · show mapSegments _ ++ (proposedPlanParser.pushAll (parser.parse planSpecs chunk).1 chunks).2 = _
      rw [hout]
      show StreamTextChunk.mk (_ ++ _) (_ ++ _) = _
      unfold mapSegments
      simp only [List.map_append, List.flatMap_append]

/-- **The output for all chunks** of a text: the line segments of its lines, with the texts that
    are not put out in one piece. -/
theorem collect_plan (chunks : List Text) :
    ∃ out, proposedPlanParser.collect .new chunks = mapSegments out ∧
      SameSegments out
        (lineSegments planSpecs none (Text.splitInclusive '\n' chunks.flatten)) := by
  obtain ⟨hparser, out, hout, hsame⟩ := pushAll_plan .new chunks
  refine ⟨out ++ ((feed planSpecs .new chunks.flatten).1.finish planSpecs).2, ?_, ?_⟩
  · unfold StreamTextParser.collect
    rw [hout, hparser]
    show StreamTextChunk.mk (_ ++ _) (_ ++ _) = _
    unfold mapSegments
    simp only [List.map_append, List.flatMap_append]
    rfl
  · have hlines := feed_lines chunks.flatten
      (.buffered : Held planSpecs none [] (lineParser none []) []) List.not_mem_nil
    exact (hsame.append (Eq.refl _)).trans hlines

theorem mergeSegments_collect (chunks : List Text) :
    mergeSegments (proposedPlanParser.collect .new chunks).extracted =
      mergeSegments (planLines false (Text.splitInclusive '\n' chunks.flatten)) := by
  obtain ⟨out, hout, hsame⟩ := collect_plan chunks
  have hlines := lineSegments_planSpecs false (Text.splitInclusive '\n' chunks.flatten)
  rw [hout, ← hlines]
  exact mergeSegments_map hsame

theorem visibleText_collect (chunks : List Text) :
    (proposedPlanParser.collect .new chunks).visibleText =
      (planLines false (Text.splitInclusive '\n' chunks.flatten)).flatMap
        ProposedPlanSegment.normalText := by
  obtain ⟨out, hout, -⟩ := collect_plan chunks
  rw [← normalText_mergeSegments, ← mergeSegments_collect, normalText_mergeSegments, hout]
  rfl

theorem stripProposedPlanBlocks_eq (text : Text) :
    stripProposedPlanBlocks text = (proposedPlanParser.collect .new [text]).visibleText := by
  unfold stripProposedPlanBlocks StreamTextParser.collect
  simp only [StreamTextParser.pushAll, StreamTextChunk.append_empty]
  rfl

/-- A merged text extends the plan like its two parts. -/
theorem foldl_extractStep_mergeSegments (segments : List ProposedPlanSegment)
    (state : Bool × Text) :
    (mergeSegments segments).foldl extractStep state = segments.foldl extractStep state := by
  refine Combination.foldl_coalesce ?_ segments state
  intro a b c hcombine state
  cases a <;> cases b <;> simp only [planCombination, combinePlanSegments, reduceCtorEq]
    at hcombine <;> obtain rfl := Option.some.inj hcombine
  · rfl
  · exact congrArg _ (List.append_assoc _ _ _).symm

theorem extractProposedPlanText_eq (text : Text) :
    extractProposedPlanText text =
      let state := (planLines false (Text.splitInclusive '\n' text)).foldl extractStep (false, [])
      if state.1 then some state.2 else none := by
  have hcollect := mergeSegments_collect [text]
  rw [List.flatten_singleton] at hcollect
  have hextracted : (planPushStr .new text).2.extracted ++
      (planFinish (planPushStr .new text).1).extracted =
        (proposedPlanParser.collect .new [text]).extracted := by
    unfold StreamTextParser.collect
    simp only [StreamTextParser.pushAll, StreamTextChunk.append_empty]
    rfl
  unfold extractProposedPlanText
  simp only [hextracted]
  rw [← foldl_extractStep_mergeSegments, hcollect, foldl_extractStep_mergeSegments]

/-- The texts of segments of which none starts a block. -/
theorem foldl_extractStep (h : .proposedPlanStart ∉ segments) (state : Bool × Text) :
    segments.foldl extractStep state =
      (state.1, state.2 ++ segments.flatMap ProposedPlanSegment.deltaText) := by
  induction segments generalizing state with
  | nil => rw [List.flatMap_nil, List.append_nil]; rfl
  | cons segment segments ih =>
    rw [List.mem_cons, not_or] at h
    rw [List.foldl_cons, ih h.2, List.flatMap_cons]
    cases segment with
    | proposedPlanStart => exact absurd rfl h.1
    | proposedPlanDelta text => exact Prod.ext rfl (List.append_assoc _ _ _)
    | normal text => rfl
    | proposedPlanEnd => rfl

/-- Before the first block there is no text of a plan. -/
theorem deltaText_before (hsplit : planLines false lines = before ++ after)
    (hbefore : .proposedPlanStart ∉ before) :
    before.flatMap ProposedPlanSegment.deltaText = [] := by
  induction lines generalizing before with
  | nil =>
    obtain ⟨rfl, -⟩ := List.append_eq_nil_iff.mp hsplit.symm
    rfl
  | cons line lines ih =>
    cases before with
    | nil => rfl
    | cons segment before =>
      rw [List.mem_cons, not_or] at hbefore
      unfold planLines at hsplit
      split at hsplit
      · exact absurd (List.cons.inj hsplit).1 hbefore.1
      · obtain ⟨rfl, hrest⟩ := List.cons.inj hsplit
        rw [List.flatMap_cons, ih hrest hbefore.2]
        rfl

/-- **The starts and ends of blocks** of the lines: pairs, and an end in front if a block is
    open. -/
theorem marker_planLines (inside : Bool) (lines : List Text) :
    ∃ n, (planLines inside lines).flatMap ProposedPlanSegment.marker =
      (if inside then [.proposedPlanEnd] else []) ++
        (List.replicate n [.proposedPlanStart, .proposedPlanEnd]).flatten := by
  induction lines generalizing inside with
  | nil => exact ⟨0, by cases inside <;> rfl⟩
  | cons line lines ih =>
    unfold planLines
    split
    · next hopen =>
      obtain ⟨n, hn⟩ := ih true
      rw [Bool.and_eq_true, Bool.not_eq_true'] at hopen
      refine ⟨n + 1, ?_⟩
      rw [List.flatMap_cons, hn, hopen.1, List.replicate_succ, List.flatten_cons]
      rfl
    · split
      · next hclose =>
        obtain ⟨n, hn⟩ := ih false
        rw [Bool.and_eq_true] at hclose
        refine ⟨n, ?_⟩
        rw [List.flatMap_cons, hn, hclose.1]
        rfl
      · obtain ⟨n, hn⟩ := ih inside
        refine ⟨n, ?_⟩
        rw [List.flatMap_cons, hn]
        cases inside <;> rfl

theorem marker_mergeSegments (segments : List ProposedPlanSegment) :
    (mergeSegments segments).flatMap ProposedPlanSegment.marker =
      segments.flatMap ProposedPlanSegment.marker := by
  refine Combination.flatMap_coalesce ?_ segments
  intro a b c hcombine
  cases a <;> cases b <;> simp only [planCombination, combinePlanSegments, reduceCtorEq]
    at hcombine <;> obtain rfl := Option.some.inj hcombine <;> rfl

end Lines

/-- **Plan blocks are what the lines say.**  In any chunks the segments, with neighbouring texts
    joined, are those of the lines; starts and ends alternate.  Stripping keeps every line outside
    of the blocks, and extracting every line of the last block, each once. -/
theorem planBlocks_lines (text : Text) :
    let segments := planLines false (Text.splitInclusive '\n' text)
    (∀ chunks : List Text, chunks.flatten = text →
      mergeSegments (proposedPlanParser.collect .new chunks).extracted = mergeSegments segments ∧
        ∃ n, (proposedPlanParser.collect .new chunks).extracted.flatMap
            ProposedPlanSegment.marker =
          (List.replicate n [.proposedPlanStart, .proposedPlanEnd]).flatten) ∧
      stripProposedPlanBlocks text = segments.flatMap ProposedPlanSegment.normalText ∧
        (.proposedPlanStart ∉ segments → extractProposedPlanText text = none) ∧
          ∀ before after, segments = before ++ .proposedPlanStart :: after →
            .proposedPlanStart ∉ after →
              extractProposedPlanText text =
                  some (after.flatMap ProposedPlanSegment.deltaText) ∧
                (.proposedPlanStart ∉ before → extractProposedPlanText text =
                  some (segments.flatMap ProposedPlanSegment.deltaText)) := by
  intro segments
  refine ⟨?_, ?_, ?_, ?_⟩
  · rintro chunks rfl
    have hmerged := mergeSegments_collect chunks
    obtain ⟨n, hn⟩ := marker_planLines false (Text.splitInclusive '\n' chunks.flatten)
    refine ⟨hmerged, n, ?_⟩
    rw [← marker_mergeSegments, hmerged, marker_mergeSegments, hn]
    rfl
  · rw [stripProposedPlanBlocks_eq, visibleText_collect, List.flatten_singleton]
  · intro hnone
    rw [extractProposedPlanText_eq]
    show (if (segments.foldl extractStep (false, [])).1 then _ else none) = none
    rw [foldl_extractStep hnone]
    rfl
  · intro before after hsplit hafter
    have hlast : extractProposedPlanText text =
        some (after.flatMap ProposedPlanSegment.deltaText) := by
      rw [extractProposedPlanText_eq]
      show (if (segments.foldl extractStep (false, [])).1 then
        some (segments.foldl extractStep (false, [])).2 else none) = _
      rw [hsplit, List.foldl_append, List.foldl_cons, foldl_extractStep hafter]
      rfl
    refine ⟨hlast, ?_⟩
    intro hbefore
    rw [hlast, hsplit, List.flatMap_append, List.flatMap_cons, deltaText_before hsplit hbefore]
    rfl

/-- A text with two plan blocks. -/
def twoPlans : Text :=
  "<proposed_plan>\na\n</proposed_plan>\n<proposed_plan>\nb\n</proposed_plan>\n".toList

/-- Two blocks in two chunks, of which the first ends within a tag. -/
theorem planBlocks_lines_twoPlans :
    mergeSegments (proposedPlanParser.collect .new [twoPlans.take 22, twoPlans.drop 22]).extracted =
        [.proposedPlanStart, .proposedPlanDelta "a\n".toList, .proposedPlanEnd,
          .proposedPlanStart, .proposedPlanDelta "b\n".toList, .proposedPlanEnd] ∧
      extractProposedPlanText twoPlans = some "b\n".toList := by
  obtain ⟨hchunks, -, -, hextract⟩ := planBlocks_lines twoPlans
  refine ⟨?_, ?_⟩
  · rw [(hchunks _ (by decide +kernel)).1]
    decide +kernel
  · exact (hextract [.proposedPlanStart, .proposedPlanDelta "a\n".toList, .proposedPlanEnd]
      [.proposedPlanDelta "b\n".toList, .proposedPlanEnd] (by decide +kernel)
      (by decide +kernel)).1

/-- The line of the first of two blocks is lost: a block that starts clears the text so far. -/
theorem firstPlan_lost :
    .proposedPlanDelta "a\n".toList ∈ planLines false (Text.splitInclusive '\n' twoPlans) ∧
      'a' ∉ stripProposedPlanBlocks twoPlans ∧
        extractProposedPlanText twoPlans = some "b\n".toList := by
  decide +kernel

end CodexMonitor.StreamParser
