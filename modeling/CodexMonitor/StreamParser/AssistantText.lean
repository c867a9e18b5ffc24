import CodexMonitor.StreamParser.ChunkInvariance
import CodexMonitor.StreamParser.TaggedLines

namespace CodexMonitor.StreamParser

/-!
# Stream parsers — assistant text

`utils/stream-parser/src/citation.rs` and `assistant_text.rs`: citations are hidden first, and in
plan mode the text that is left goes to the plan parser, in the pieces in which it is let go.

* `AssistantTextStreamParser` — the two parsers; `pushStr`, `finish`, and `parseAssistantText` for
  a whole text in chunks.
* `mergeSegments` — the plan segments with neighbouring texts of a kind joined.
* `assistantText_chunks` — the chunks make no difference.
-/

/-! ### The parser -/

inductive CitationTag where
  | citation
  deriving DecidableEq, Repr

def citationSpecs : List (InlineTagSpec CitationTag) :=
  [ { tag := .citation
      openDelim := "<oai-mem-citation>".toList
      closeDelim := "</oai-mem-citation>".toList
      open_ne := by decide
      close_ne := by decide } ]

/-- A citation is the content of its tag. -/
def citationChunk (inner : StreamTextChunk (ExtractedInlineTag CitationTag)) :
    StreamTextChunk Text :=
  { visibleText := inner.visibleText, extracted := inner.extracted.map (·.content) }

structure AssistantTextChunk where
  visibleText : Text
  citations : List Text
  planSegments : List ProposedPlanSegment
  deriving DecidableEq, Repr

/-- The output of one call followed by that of the next. -/
def AssistantTextChunk.append (a b : AssistantTextChunk) : AssistantTextChunk :=
  { visibleText := a.visibleText ++ b.visibleText
    citations := a.citations ++ b.citations
    planSegments := a.planSegments ++ b.planSegments }

@[ext]
structure AssistantTextStreamParser where
  planMode : Bool
  citations : InlineHiddenTagParser CitationTag
  plan : TaggedLineParser PlanTag

namespace AssistantTextStreamParser

def new (planMode : Bool) : AssistantTextStreamParser :=
  { planMode := planMode, citations := .new, plan := .new }

variable (parser : AssistantTextStreamParser)

/-- `parse_visible_text`, with the citations that come with the text. -/
def parseVisibleText (chunk : StreamTextChunk Text) :
    AssistantTextStreamParser × AssistantTextChunk :=
  if parser.planMode then
    let planChunk := planPushStr parser.plan chunk.visibleText
    ({ parser with plan := planChunk.1 },
      { visibleText := planChunk.2.visibleText
        citations := chunk.extracted
        planSegments := planChunk.2.extracted })
  else
    (parser,
      { visibleText := chunk.visibleText, citations := chunk.extracted, planSegments := [] })

def pushStr (chunk : Text) : AssistantTextStreamParser × AssistantTextChunk :=
  let citations := parser.citations.pushStr citationSpecs chunk
  { parser with citations := citations.1 }.parseVisibleText (citationChunk citations.2)

def finish : AssistantTextChunk :=
  let parsed := parser.parseVisibleText (citationChunk parser.citations.finish)
  if parser.planMode then
    let tail := planFinish parsed.1.plan
    parsed.2.append
      { visibleText := tail.visibleText, citations := [], planSegments := tail.extracted }
  else parsed.2

/-- The calls of `push_str` one after the other. -/
def pushAll (parser : AssistantTextStreamParser) :
    List Text → AssistantTextStreamParser × AssistantTextChunk
  | [] => (parser, { visibleText := [], citations := [], planSegments := [] })
  | chunk :: chunks =>
      let rest := pushAll (parser.pushStr chunk).1 chunks
      (rest.1, (parser.pushStr chunk).2.append rest.2)

end AssistantTextStreamParser

/-- What a parser returns for the chunks of a text and its end. -/
def parseAssistantText (planMode : Bool) (chunks : List Text) : AssistantTextChunk :=
  let pushed := (AssistantTextStreamParser.new planMode).pushAll chunks
  pushed.2.append pushed.1.finish

/-! ### Merged plan segments -/

/-- Two pieces of normal text, or of a plan, are one piece. -/
def combinePlanSegments :
    ProposedPlanSegment → ProposedPlanSegment → Option ProposedPlanSegment
  | .normal existing, .normal delta => some (.normal (existing ++ delta))
  | .proposedPlanDelta existing, .proposedPlanDelta delta =>
      some (.proposedPlanDelta (existing ++ delta))
  | _, _ => none

def planCombination : Combination ProposedPlanSegment where
  combine := combinePlanSegments
  assoc := by
    intro a b c ab bc hab hbc
    cases a <;> cases b <;> simp only [combinePlanSegments, reduceCtorEq] at hab <;>
      cases c <;> simp only [combinePlanSegments, reduceCtorEq] at hbc
    all_goals
      obtain rfl := Option.some.inj hab
      obtain rfl := Option.some.inj hbc
      exact ⟨by simp [combinePlanSegments], rfl⟩
  left := by
    intro a b c bc hab hbc
    cases b <;> cases c <;> simp only [combinePlanSegments, reduceCtorEq] at hbc <;>
      obtain rfl := Option.some.inj hbc <;> cases a <;> simp [combinePlanSegments] at hab ⊢
  right := by
    intro a b c ab hbc hab
    cases a <;> cases b <;> simp only [combinePlanSegments, reduceCtorEq] at hab <;>
      obtain rfl := Option.some.inj hab <;> cases c <;> simp [combinePlanSegments] at hbc ⊢

/-- The plan segments with neighbouring texts of a kind joined. -/
def mergeSegments (segments : List ProposedPlanSegment) : List ProposedPlanSegment :=
  planCombination.coalesce segments

theorem combinePlanSegments_map (a b : TaggedLineSegment PlanTag) :
    combinePlanSegments (mapSegment a) (mapSegment b) =
      (combineSegments a b).map mapSegment := by
  cases a with
  | normal text => cases b with
    | tagStart tag => cases tag; rfl
    | tagDelta tag text => cases tag; rfl
    | tagEnd tag => cases tag; rfl
    | _ => rfl
  | tagStart tag => cases tag; cases b <;> rfl
  | tagDelta tag text => cases tag; cases b with
    | tagStart tag => cases tag; rfl
    | tagDelta tag text => cases tag; rfl
    | tagEnd tag => cases tag; rfl
    | _ => rfl
  | tagEnd tag => cases tag; cases b <;> rfl

theorem mergeSegments_map {segments segments' : List (TaggedLineSegment PlanTag)}
    (h : SameSegments segments segments') :
    mergeSegments (segments.map mapSegment) = mergeSegments (segments'.map mapSegment) := by
  unfold mergeSegments
  have hmap : ∀ l, planCombination.coalesce (l.map mapSegment) =
      ((segmentCombination PlanTag).coalesce l).map mapSegment :=
    fun l => Combination.map_coalesce combinePlanSegments_map l
  rw [hmap, hmap, h]

/-- The normal text is that of the merged segments. -/
theorem normalText_mergeSegments (segments : List ProposedPlanSegment) :
    (mergeSegments segments).flatMap ProposedPlanSegment.normalText =
      segments.flatMap ProposedPlanSegment.normalText := by
  refine Combination.flatMap_coalesce ?_ segments
  intro a b c hcombine
  cases a <;> cases b <;> simp only [planCombination, combinePlanSegments, reduceCtorEq]
    at hcombine <;> obtain rfl := Option.some.inj hcombine <;> rfl

theorem mergeSegments_append {a a' b b' : List ProposedPlanSegment}
    (ha : mergeSegments a = mergeSegments a') (hb : mergeSegments b = mergeSegments b') :
    mergeSegments (a ++ b) = mergeSegments (a' ++ b') := by
  unfold mergeSegments at *
  rw [← Combination.coalesce_append, ha, Combination.coalesce_append,
    ← Combination.append_coalesce, hb, Combination.append_coalesce]

/-! ### The chunks of a text -/

/-- The one opening delimiter does not lie inside itself. -/
theorem citationSpecs_noOpenInside : NoOpenInside citationSpecs := by
  intro inner hinner outer houter before after hsplit
  unfold citationSpecs at hinner houter
  rw [List.mem_singleton] at hinner houter
  have hlength := congrArg List.length hsplit
  rw [hinner, houter, List.length_append, List.length_append] at hlength
  exact List.length_eq_zero_iff.mp (by omega)

/-- What a run of pushes does with the text that the citation parser lets go. -/
structure Pushed (parser : AssistantTextStreamParser)
    (hidden : InlineHiddenTagParser CitationTag ×
      StreamTextChunk (ExtractedInlineTag CitationTag))
    (result : AssistantTextStreamParser × AssistantTextChunk) : Prop where
  planMode : result.1.planMode = parser.planMode
  hiddenTags : result.1.citations = hidden.1
  citations : result.2.citations = hidden.2.extracted.map (·.content)
  plan : result.1.plan =
    if parser.planMode then (TaggedLineParser.feed planSpecs parser.plan hidden.2.visibleText).1
    else parser.plan
  segments : mergeSegments result.2.planSegments =
    if parser.planMode then mergeSegments
      ((TaggedLineParser.feed planSpecs parser.plan hidden.2.visibleText).2.map mapSegment)
    else []
  visibleText : result.2.visibleText =
    if parser.planMode then result.2.planSegments.flatMap ProposedPlanSegment.normalText
    else hidden.2.visibleText

/-- **One push.** -/
theorem pushed_pushStr (parser : AssistantTextStreamParser) (chunk : Text) :
    Pushed parser (parser.citations.pushStr citationSpecs chunk) (parser.pushStr chunk) := by
  unfold AssistantTextStreamParser.pushStr AssistantTextStreamParser.parseVisibleText
  cases hmode : parser.planMode with
  | true =>
    obtain ⟨hplan, hsegments⟩ := parse_feed planSpecs parser.plan
      (parser.citations.pushStr citationSpecs chunk).2.visibleText
    simp only [if_true]
    refine ⟨hmode.symm, rfl, rfl, ?_, ?_, ?_⟩
    · rw [hmode]
      exact hplan
    · rw [hmode]
      exact mergeSegments_map hsegments
    · rw [hmode]
      rfl
  | false =>
    simp only [Bool.false_eq_true, if_false]
    refine ⟨hmode.symm, rfl, rfl, ?_, ?_, ?_⟩
    all_goals
      rw [hmode]
      rfl

/-- **All pushes**, one after the other. -/
theorem pushed_pushAll (parser : AssistantTextStreamParser) (chunks : List Text) :
    Pushed parser (parser.citations.pushAll citationSpecs chunks) (parser.pushAll chunks) := by
  induction chunks generalizing parser with
  | nil =>
    unfold AssistantTextStreamParser.pushAll InlineHiddenTagParser.pushAll
    refine ⟨rfl, rfl, rfl, ?_, ?_, ?_⟩
    · cases parser.planMode <;> rfl
    · cases parser.planMode <;> rfl
    · cases parser.planMode <;> rfl
  | cons chunk chunks ih =>
    have hpush := pushed_pushStr parser chunk
    have hrest := ih (parser.pushStr chunk).1
    rw [hpush.hiddenTags] at hrest
    unfold AssistantTextStreamParser.pushAll InlineHiddenTagParser.pushAll
    have hsegments := hpush.segments
    have hsegmentsRest := hrest.segments
    have hvisible := hpush.visibleText
    have hvisibleRest := hrest.visibleText
    have hplanRest := hrest.plan
    rw [hpush.planMode, hpush.plan] at hplanRest hsegmentsRest
    rw [hpush.planMode] at hvisibleRest
    refine ⟨hrest.planMode.trans hpush.planMode, hrest.hiddenTags, ?_, ?_, ?_, ?_⟩
    · show _ ++ _ = _
      rw [hpush.citations, hrest.citations]
      exact List.map_append.symm
    · show (AssistantTextStreamParser.pushAll (parser.pushStr chunk).1 chunks).1.plan = _
      rw [hplanRest]
      cases parser.planMode with
      | true =>
        simp only [if_true, StreamTextChunk.visibleText_append]
        rw [feed_append]
      | false => rfl
    · show mergeSegments (_ ++ _) = _
      cases hmode : parser.planMode with
      | true =>
        rw [hmode] at hsegments hsegmentsRest
        simp only [if_true, StreamTextChunk.visibleText_append] at hsegments hsegmentsRest ⊢
        rw [feed_append, List.map_append]
        refine mergeSegments_append ?_ ?_
        · exact hsegments
        · exact hsegmentsRest
      | false =>
        rw [hmode] at hsegments hsegmentsRest
        have hnil : ([] : List ProposedPlanSegment) = mergeSegments [] := rfl
        exact mergeSegments_append (hsegments.trans hnil) (hsegmentsRest.trans hnil)
    · show _ ++ _ = _
      rw [hvisible, hvisibleRest]
      cases parser.planMode with
      | true => exact List.flatMap_append.symm
      | false => rfl

/-- **Chunks make no difference**: the same visible text, the same citations and, up to joining
    neighbouring texts of a kind, the same plan segments as the whole text in one push. -/
theorem assistantText_chunks (planMode : Bool) (chunks : List Text) :
    (parseAssistantText planMode chunks).visibleText =
        (parseAssistantText planMode [chunks.flatten]).visibleText ∧
      (parseAssistantText planMode chunks).citations =
        (parseAssistantText planMode [chunks.flatten]).citations ∧
      mergeSegments (parseAssistantText planMode chunks).planSegments =
        mergeSegments (parseAssistantText planMode [chunks.flatten]).planSegments := by
  have hidden : InlineHiddenTagParser.new.pushAll citationSpecs chunks =
      InlineHiddenTagParser.new.pushAll citationSpecs [chunks.flatten] := by
    have hchunks := pushAll_run citationSpecs_noOpenInside none [] chunks
    have hwhole := pushAll_run citationSpecs_noOpenInside none [] [chunks.flatten]
    rw [run_none_nil, List.nil_append, StreamTextChunk.empty_append] at hchunks hwhole
    rw [List.flatten_singleton, hchunks] at hwhole
    exact hwhole
  have hpieces := pushed_pushAll (.new planMode) chunks
  have hwhole := pushed_pushAll (.new planMode) [chunks.flatten]
  rw [show (AssistantTextStreamParser.new planMode).citations = .new from rfl] at hpieces hwhole
  rw [← hidden] at hwhole
  have hstate : (AssistantTextStreamParser.pushAll (.new planMode) chunks).1 =
      (AssistantTextStreamParser.pushAll (.new planMode) [chunks.flatten]).1 :=
    AssistantTextStreamParser.ext (hpieces.planMode.trans hwhole.planMode.symm)
      (hpieces.hiddenTags.trans hwhole.hiddenTags.symm) (hpieces.plan.trans hwhole.plan.symm)
  have hsegments := hpieces.segments.trans hwhole.segments.symm
  unfold parseAssistantText
  simp only [hstate]
  refine ⟨?_, ?_, mergeSegments_append hsegments rfl⟩
  · show _ ++ _ = _ ++ _
    congr 1
    rw [hpieces.visibleText, hwhole.visibleText, ← normalText_mergeSegments, hsegments,
      normalText_mergeSegments]
  · show _ ++ _ = _ ++ _
    congr 1
    exact hpieces.citations.trans hwhole.citations.symm

end CodexMonitor.StreamParser
