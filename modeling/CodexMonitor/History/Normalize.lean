import CodexMonitor.Lib.Pairing
import CodexMonitor.History.Manager

namespace CodexMonitor.History

/-!
# History — normalising the transcript for a prompt

`core/src/context_manager/normalize.rs`: what `ContextManager::for_prompt` does to the items
before they are sent, and what the removal of one item does to its counterpart.

* `ensureCallOutputsPresent` — behind each call without an output an aborted one is inserted.
* `removeOrphanOutputs` — outputs without a call go, but for those of server-side tool searches.
* `stripImagesWhenUnsupported` — images become texts for a model that takes none.
* `callPairing` — the calls and outputs of the transcript as an instance of `Pairing`; the first
  two steps are its `complete` and `prune`.

The functions that report a broken pair through `error_or_panic` do so only in a release build;
a debug build stops there.
-/

/-! ### The three steps -/

/-- `FunctionCallOutputPayload::from_text`. -/
def FunctionCallOutputPayload.fromText (content : Text) : FunctionCallOutputPayload :=
  ⟨.text content, none⟩

def isFunctionCallOutput (callId : Text) : ResponseItem → Bool
  | .functionCallOutput existing _ => existing == callId
  | _ => false

def isToolSearchOutput (callId : Text) : ResponseItem → Bool
  | .toolSearchOutput (some existing) _ _ _ => existing == callId
  | _ => false

def isCustomToolCallOutput (callId : Text) : ResponseItem → Bool
  | .customToolCallOutput existing _ _ => existing == callId
  | _ => false

def abortedFunctionCallOutput (callId : Text) : ResponseItem :=
  .functionCallOutput callId (.fromText "aborted".toList)

def abortedCustomToolCallOutput (callId : Text) : ResponseItem :=
  .customToolCallOutput callId none (.fromText "aborted".toList)

def emptyToolSearchOutput (callId : Text) : ResponseItem :=
  .toolSearchOutput (some callId) "completed".toList "client".toList []

/-- The output that the loop of `ensure_call_outputs_present` pushes for an item. -/
def missingOutput (items : List ResponseItem) : ResponseItem → Option ResponseItem
  | .functionCall _ _ _ _ callId =>
      if items.any (isFunctionCallOutput callId) then none
      else some (abortedFunctionCallOutput callId)
  | .toolSearchCall _ (some callId) _ _ _ =>
      if items.any (isToolSearchOutput callId) then none
      else some (emptyToolSearchOutput callId)
  | .customToolCall _ _ callId _ _ =>
      if items.any (isCustomToolCallOutput callId) then none
      else some (abortedCustomToolCallOutput callId)
  -- a shell call is answered by the output of a function call
  | .localShellCall _ (some callId) _ _ =>
      if items.any (isFunctionCallOutput callId) then none
      else some (abortedFunctionCallOutput callId)
  | _ => none

/-- `ensure_call_outputs_present`. -/
def ensureCallOutputsPresent (items : List ResponseItem) : List ResponseItem :=
  insertBehind items (items.zipIdx.filterMap fun entry =>
    (missingOutput items entry.1).map fun output => (entry.2, output))

def functionCallIds (items : List ResponseItem) : List Text :=
  items.filterMap fun i => match i with
    | .functionCall _ _ _ _ callId => some callId
    | _ => none

def toolSearchCallIds (items : List ResponseItem) : List Text :=
  items.filterMap fun i => match i with
    | .toolSearchCall _ callId _ _ _ => callId
    | _ => none

def localShellCallIds (items : List ResponseItem) : List Text :=
  items.filterMap fun i => match i with
    | .localShellCall _ callId _ _ => callId
    | _ => none

def customToolCallIds (items : List ResponseItem) : List Text :=
  items.filterMap fun i => match i with
    | .customToolCall _ _ callId _ _ => some callId
    | _ => none

/-- The test by which `remove_orphan_outputs` retains an item. -/
def hasMatch (items : List ResponseItem) : ResponseItem → Bool
  | .functionCallOutput callId _ =>
      (functionCallIds items).contains callId || (localShellCallIds items).contains callId
  | .customToolCallOutput callId _ _ => (customToolCallIds items).contains callId
  | .toolSearchOutput callId _ execution _ =>
      if execution == "server".toList then true
      else
        match callId with
        | some callId => (toolSearchCallIds items).contains callId
        | none => true
  | _ => true

/-- `remove_orphan_outputs`. -/
def removeOrphanOutputs (items : List ResponseItem) : List ResponseItem :=
  items.filter (hasMatch items)

inductive InputModality where
  | text
  | image
  deriving DecidableEq, Repr

def imageContentOmittedPlaceholder : Text :=
  "image content omitted because you do not support image input".toList

def ContentItem.stripImage : ContentItem → ContentItem
  | .inputImage _ _ => .inputText imageContentOmittedPlaceholder
  | item => item

def FunctionCallOutputContentItem.stripImage :
    FunctionCallOutputContentItem → FunctionCallOutputContentItem
  | .inputImage _ _ => .inputText imageContentOmittedPlaceholder
  | item => item

def FunctionCallOutputPayload.stripImages (output : FunctionCallOutputPayload) :
    FunctionCallOutputPayload :=
  match output.body with
  | .text _ => output
  | .contentItems items => { output with body := .contentItems (items.map (·.stripImage)) }

/-- What `strip_images_when_unsupported` makes of an item. -/
def stripImages : ResponseItem → ResponseItem
  | .message id role content phase => .message id role (content.map ContentItem.stripImage) phase
  | .functionCallOutput callId output => .functionCallOutput callId output.stripImages
  | .customToolCallOutput callId name output =>
      .customToolCallOutput callId name output.stripImages
  | .imageGenerationCall id status revisedPrompt _ =>
      .imageGenerationCall id status revisedPrompt []
  | item => item

def stripImagesWhenUnsupported (inputModalities : List InputModality)
    (items : List ResponseItem) : List ResponseItem :=
  if inputModalities.contains .image then items else items.map stripImages

/-- `for_prompt`: `normalize_history`, and the items. -/
def ContextManager.forPrompt (cm : ContextManager) (inputModalities : List InputModality) :
    List ResponseItem :=
  stripImagesWhenUnsupported inputModalities
    (removeOrphanOutputs (ensureCallOutputsPresent cm.items))

/-! ### Removing the counterpart of an item -/

def isFunctionCall (callId : Text) : ResponseItem → Bool
  | .functionCall _ _ _ _ existing => existing == callId
  | _ => false

def isLocalShellCall (callId : Text) : ResponseItem → Bool
  | .localShellCall _ (some existing) _ _ => existing == callId
  | _ => false

def isToolSearchCall (callId : Text) : ResponseItem → Bool
  | .toolSearchCall _ (some existing) _ _ _ => existing == callId
  | _ => false

def isCustomToolCall (callId : Text) : ResponseItem → Bool
  | .customToolCall _ _ existing _ _ => existing == callId
  | _ => false

/-- `remove_first_matching`. -/
def removeFirstMatching (items : List ResponseItem) (predicate : ResponseItem → Bool) :
    List ResponseItem :=
  items.eraseP predicate

/-- `remove_corresponding_for`. -/
def removeCorrespondingFor (items : List ResponseItem) : ResponseItem → List ResponseItem
  | .functionCall _ _ _ _ callId => removeFirstMatching items (isFunctionCallOutput callId)
  | .functionCallOutput callId _ =>
      if items.any (isFunctionCall callId) then removeFirstMatching items (isFunctionCall callId)
      else removeFirstMatching items (isLocalShellCall callId)
  | .toolSearchCall _ (some callId) _ _ _ => removeFirstMatching items (isToolSearchOutput callId)
  | .toolSearchOutput (some callId) _ _ _ => removeFirstMatching items (isToolSearchCall callId)
  | .customToolCall _ _ callId _ _ => removeFirstMatching items (isCustomToolCallOutput callId)
  | .customToolCallOutput callId _ _ => removeFirstMatching items (isCustomToolCall callId)
  | .localShellCall _ (some callId) _ _ => removeFirstMatching items (isFunctionCallOutput callId)
  | _ => items

/-! ### Calls and outputs as a pairing -/

/-- The three kinds of outputs; that of a function call also answers a shell call. -/
inductive OutputKind where
  | function
  | custom
  | toolSearch
  deriving DecidableEq, Repr

/-- The kind and id of the output that a call with an id awaits. -/
def awaitedOutput : ResponseItem → Option (OutputKind × Text)
  | .functionCall _ _ _ _ callId => some (.function, callId)
  | .localShellCall _ callId _ _ => callId.map fun callId => (.function, callId)
  | .toolSearchCall _ callId _ _ _ => callId.map fun callId => (.toolSearch, callId)
  | .customToolCall _ _ callId _ _ => some (.custom, callId)
  | _ => none

/-- The kind and id of an output. -/
def outputKey : ResponseItem → Option (OutputKind × Text)
  | .functionCallOutput callId _ => some (.function, callId)
  | .customToolCallOutput callId _ _ => some (.custom, callId)
  | .toolSearchOutput callId _ _ _ => callId.map fun callId => (.toolSearch, callId)
  | _ => none

/-- The output of a tool search that ran on the server. -/
def isServerOutput : ResponseItem → Bool
  | .toolSearchOutput _ _ execution _ => execution == "server".toList
  | _ => false

/-- The output that is inserted for a call. -/
def syntheticOutput : OutputKind × Text → ResponseItem
  | (.function, callId) => abortedFunctionCallOutput callId
  | (.custom, callId) => abortedCustomToolCallOutput callId
  | (.toolSearch, callId) => emptyToolSearchOutput callId

/-- The calls and outputs of a transcript. -/
def callPairing : Pairing ResponseItem (OutputKind × Text) where
  awaits := awaitedOutput
  answers := outputKey
  exempt := isServerOutput
  supply := syntheticOutput
  answers_supply := by
    rintro ⟨_ | _ | _, callId⟩ <;> rfl
  answers_of_awaits := by
    intro item key h
    cases item <;> first | rfl | cases h

variable {items : List ResponseItem} {item : ResponseItem} {callId : Text}

/-- A test for the outputs of one key finds what the pairing finds. -/
theorem any_eq_answered {test : ResponseItem → Bool} {key : OutputKind × Text}
    (h : ∀ i, test i = true ↔ outputKey i = some key) :
    items.any test = callPairing.answered items key := by
  unfold Pairing.answered
  congr 1
  funext i
  show test i = decide (outputKey i = some key)
  rw [Bool.eq_iff_iff, h i, decide_eq_true_iff]

theorem isFunctionCallOutput_iff :
    isFunctionCallOutput callId item = true ↔ outputKey item = some (.function, callId) := by
  cases item with
  | toolSearchOutput id status execution tools =>
    cases id <;> simp [isFunctionCallOutput, outputKey]
  | _ => simp [isFunctionCallOutput, outputKey]

theorem isCustomToolCallOutput_iff :
    isCustomToolCallOutput callId item = true ↔ outputKey item = some (.custom, callId) := by
  cases item with
  | toolSearchOutput id status execution tools =>
    cases id <;> simp [isCustomToolCallOutput, outputKey]
  | _ => simp [isCustomToolCallOutput, outputKey]

theorem isToolSearchOutput_iff :
    isToolSearchOutput callId item = true ↔ outputKey item = some (.toolSearch, callId) := by
  cases item with
  | toolSearchOutput id status execution tools =>
    cases id <;> simp [isToolSearchOutput, outputKey]
  | _ => simp [isToolSearchOutput, outputKey]

/-- The pushed outputs are the missing ones. -/
theorem missingOutput_eq (items : List ResponseItem) (item : ResponseItem) :
    missingOutput items item = callPairing.missing items item := by
  cases item with
  | functionCall id name namespaceName arguments callId =>
    rw [missingOutput, any_eq_answered fun _ => isFunctionCallOutput_iff]
    rfl
  | customToolCall id status callId name input =>
    rw [missingOutput, any_eq_answered fun _ => isCustomToolCallOutput_iff]
    rfl
  | toolSearchCall id callId status execution arguments =>
    cases callId with
    | none => rfl
    | some callId =>
      rw [missingOutput, any_eq_answered fun _ => isToolSearchOutput_iff]
      rfl
  | localShellCall id callId status action =>
    cases callId with
    | none => rfl
    | some callId =>
      rw [missingOutput, any_eq_answered fun _ => isFunctionCallOutput_iff]
      rfl
  | _ => rfl

theorem mem_functionCallIds :
    callId ∈ functionCallIds items ↔
      ∃ i ∈ items, isFunctionCall callId i = true := by
  unfold functionCallIds
  rw [List.mem_filterMap]
  refine exists_congr fun i => and_congr_right fun _ => ?_
  cases i <;> simp [isFunctionCall]

theorem mem_localShellCallIds :
    callId ∈ localShellCallIds items ↔
      ∃ i ∈ items, isLocalShellCall callId i = true := by
  unfold localShellCallIds
  rw [List.mem_filterMap]
  refine exists_congr fun i => and_congr_right fun _ => ?_
  cases i with
  | localShellCall id existing status action => cases existing <;> simp [isLocalShellCall]
  | _ => simp [isLocalShellCall]

theorem mem_toolSearchCallIds :
    callId ∈ toolSearchCallIds items ↔
      ∃ i ∈ items, isToolSearchCall callId i = true := by
  unfold toolSearchCallIds
  rw [List.mem_filterMap]
  refine exists_congr fun i => and_congr_right fun _ => ?_
  cases i with
  | toolSearchCall id existing status execution arguments =>
    cases existing <;> simp [isToolSearchCall]
  | _ => simp [isToolSearchCall]

theorem mem_customToolCallIds :
    callId ∈ customToolCallIds items ↔
      ∃ i ∈ items, isCustomToolCall callId i = true := by
  unfold customToolCallIds
  rw [List.mem_filterMap]
  refine exists_congr fun i => and_congr_right fun _ => ?_
  cases i <;> simp [isCustomToolCall]

theorem awaitedOutput_function :
    awaitedOutput item = some (.function, callId) ↔
      isFunctionCall callId item = true ∨ isLocalShellCall callId item = true := by
  cases item with
  | localShellCall id existing status action =>
    cases existing <;> simp [awaitedOutput, isFunctionCall, isLocalShellCall]
  | toolSearchCall id existing status execution arguments =>
    cases existing <;> simp [awaitedOutput, isFunctionCall, isLocalShellCall]
  | _ => simp [awaitedOutput, isFunctionCall, isLocalShellCall]

theorem awaitedOutput_custom :
    awaitedOutput item = some (.custom, callId) ↔ isCustomToolCall callId item = true := by
  cases item with
  | localShellCall id existing status action =>
    cases existing <;> simp [awaitedOutput, isCustomToolCall]
  | toolSearchCall id existing status execution arguments =>
    cases existing <;> simp [awaitedOutput, isCustomToolCall]
  | _ => simp [awaitedOutput, isCustomToolCall]

theorem awaitedOutput_toolSearch :
    awaitedOutput item = some (.toolSearch, callId) ↔ isToolSearchCall callId item = true := by
  cases item with
  | localShellCall id existing status action =>
    cases existing <;> simp [awaitedOutput, isToolSearchCall]
  | toolSearchCall id existing status execution arguments =>
    cases existing <;> simp [awaitedOutput, isToolSearchCall]
  | _ => simp [awaitedOutput, isToolSearchCall]

theorem awaited_function :
    callPairing.awaited items (.function, callId) =
      ((functionCallIds items).contains callId || (localShellCallIds items).contains callId) := by
  rw [Bool.eq_iff_iff, Bool.or_eq_true, List.contains_iff_mem, List.contains_iff_mem,
    mem_functionCallIds, mem_localShellCallIds, Pairing.awaited_iff]
  constructor
  · rintro ⟨call, hcall, hawaits⟩
    rcases awaitedOutput_function.mp hawaits with hfunction | hshell
    · exact .inl ⟨call, hcall, hfunction⟩
    · exact .inr ⟨call, hcall, hshell⟩
  · rintro (⟨call, hcall, hfunction⟩ | ⟨call, hcall, hshell⟩)
    · exact ⟨call, hcall, awaitedOutput_function.mpr (.inl hfunction)⟩
    · exact ⟨call, hcall, awaitedOutput_function.mpr (.inr hshell)⟩

theorem awaited_custom :
    callPairing.awaited items (.custom, callId) = (customToolCallIds items).contains callId := by
  rw [Bool.eq_iff_iff, List.contains_iff_mem, mem_customToolCallIds, Pairing.awaited_iff]
  exact exists_congr fun call => and_congr_right fun _ => awaitedOutput_custom

theorem awaited_toolSearch :
    callPairing.awaited items (.toolSearch, callId) =
      (toolSearchCallIds items).contains callId := by
  rw [Bool.eq_iff_iff, List.contains_iff_mem, mem_toolSearchCallIds, Pairing.awaited_iff]
  exact exists_congr fun call => and_congr_right fun _ => awaitedOutput_toolSearch

/-- The items that are retained are those that are no orphans. -/
theorem hasMatch_eq (items : List ResponseItem) (item : ResponseItem) :
    hasMatch items item = !callPairing.orphan items item := by
  cases item with
  | functionCallOutput callId output =>
    show _ = !(!false && !callPairing.awaited items (.function, callId))
    rw [awaited_function, hasMatch]
    simp
  | customToolCallOutput callId name output =>
    show _ = !(!false && !callPairing.awaited items (.custom, callId))
    rw [awaited_custom, hasMatch]
    simp
  | toolSearchOutput callId status execution tools =>
    cases callId with
    | none => simp [hasMatch, Pairing.orphan, callPairing, outputKey]
    | some callId =>
      show _ = !(!(execution == "server".toList) && !callPairing.awaited items (.toolSearch, callId))
      rw [awaited_toolSearch, hasMatch]
      cases execution == "server".toList <;> simp
  | _ => rfl

/-- **The first two steps are the normalisation of the pairing.** -/
theorem removeOrphanOutputs_ensureCallOutputsPresent (items : List ResponseItem) :
    removeOrphanOutputs (ensureCallOutputsPresent items) = callPairing.normalize items := by
  have hcomplete : ensureCallOutputsPresent items = callPairing.complete items := by
    unfold ensureCallOutputsPresent Pairing.complete
    rw [insertBehind_zipIdx]
    simp only [missingOutput_eq]
  unfold removeOrphanOutputs Pairing.normalize Pairing.prune
  rw [hcomplete]
  exact List.filter_congr fun item _ => hasMatch_eq _ item

/-! ### Stripping images -/

theorem awaitedOutput_stripImages (item : ResponseItem) :
    awaitedOutput (stripImages item) = awaitedOutput item := by
  cases item <;> rfl

theorem outputKey_stripImages (item : ResponseItem) :
    outputKey (stripImages item) = outputKey item := by
  cases item <;> rfl

theorem isServerOutput_stripImages (item : ResponseItem) :
    isServerOutput (stripImages item) = isServerOutput item := by
  cases item <;> rfl

theorem stripImages_idem (item : ResponseItem) :
    stripImages (stripImages item) = stripImages item := by
  have hcontent : ∀ content : List ContentItem,
      (content.map ContentItem.stripImage).map ContentItem.stripImage =
        content.map ContentItem.stripImage := by
    intro content
    rw [List.map_map]
    refine List.map_congr_left fun c _ => ?_
    cases c <;> rfl
  have houtput : ∀ output : FunctionCallOutputPayload,
      output.stripImages.stripImages = output.stripImages := by
    rintro ⟨content | contentItems, success⟩
    · rfl
    · simp only [FunctionCallOutputPayload.stripImages, List.map_map]
      congr 2
      refine List.map_congr_left fun c _ => ?_
      cases c <;> rfl
  cases item with
  | message id role content phase =>
    simp only [stripImages]
    rw [hcontent]
  | functionCallOutput callId output =>
    simp only [stripImages]
    rw [houtput]
  | customToolCallOutput callId name output =>
    simp only [stripImages]
    rw [houtput]
  | _ => rfl

/-- What the last step does to each item. -/
def strippedFor (inputModalities : List InputModality) (item : ResponseItem) : ResponseItem :=
  if inputModalities.contains .image then item else stripImages item

theorem stripImagesWhenUnsupported_eq (inputModalities : List InputModality)
    (items : List ResponseItem) :
    stripImagesWhenUnsupported inputModalities items =
      items.map (strippedFor inputModalities) := by
  unfold stripImagesWhenUnsupported strippedFor
  cases inputModalities.contains .image <;> simp

theorem strippedFor_idem (inputModalities : List InputModality) (item : ResponseItem) :
    strippedFor inputModalities (strippedFor inputModalities item) =
      strippedFor inputModalities item := by
  unfold strippedFor
  cases inputModalities.contains .image
  · simp [stripImages_idem]
  · simp

theorem paired_strippedFor (inputModalities : List InputModality)
    (h : callPairing.Paired items) :
    callPairing.Paired (items.map (strippedFor inputModalities)) := by
  have hframe : ∀ item, awaitedOutput (strippedFor inputModalities item) = awaitedOutput item ∧
      outputKey (strippedFor inputModalities item) = outputKey item ∧
      isServerOutput (strippedFor inputModalities item) = isServerOutput item := by
    intro item
    unfold strippedFor
    split
    · exact ⟨rfl, rfl, rfl⟩
    · exact ⟨awaitedOutput_stripImages item, outputKey_stripImages item,
        isServerOutput_stripImages item⟩
  exact h.map (fun item => (hframe item).1) (fun item => (hframe item).2.1)
    fun item => (hframe item).2.2

/-! ### The prompt -/

theorem forPrompt_eq (cm : ContextManager) (inputModalities : List InputModality) :
    cm.forPrompt inputModalities =
      (callPairing.normalize cm.items).map (strippedFor inputModalities) := by
  unfold ContextManager.forPrompt
  rw [removeOrphanOutputs_ensureCallOutputsPresent, stripImagesWhenUnsupported_eq]

theorem paired_forPrompt (cm : ContextManager) (inputModalities : List InputModality) :
    callPairing.Paired (cm.forPrompt inputModalities) := by
  rw [forPrompt_eq]
  exact paired_strippedFor inputModalities (Pairing.paired_normalize cm.items)

/-- Normalising a paired and stripped transcript changes nothing. -/
theorem forPrompt_forPrompt (cm : ContextManager) (inputModalities : List InputModality) :
    { cm with items := cm.forPrompt inputModalities }.forPrompt inputModalities =
      cm.forPrompt inputModalities := by
  have hpaired := paired_forPrompt cm inputModalities
  rw [forPrompt_eq]
  show List.map _ (callPairing.normalize (cm.forPrompt inputModalities)) = _
  rw [hpaired.normalize_eq, forPrompt_eq cm, List.map_map]
  exact List.map_congr_left fun item _ => strippedFor_idem inputModalities item

/-- **A prompt is normalised.** Every call with an id has an output of its kind and id, every
    output that did not run on the server has a call, the items that are no orphans stand in
    their order with the synthetic outputs right behind their calls, and normalising the prompt
    again changes nothing. -/
theorem forPrompt_normalized (cm : ContextManager) (inputModalities : List InputModality) :
    (∀ call ∈ cm.forPrompt inputModalities, ∀ key, awaitedOutput call = some key →
      ∃ output ∈ cm.forPrompt inputModalities, outputKey output = some key) ∧
    (∀ output ∈ cm.forPrompt inputModalities, isServerOutput output = false →
      ∀ key, outputKey output = some key →
        ∃ call ∈ cm.forPrompt inputModalities, awaitedOutput call = some key) ∧
    cm.forPrompt inputModalities =
      ((cm.items.filter fun item => !callPairing.orphan cm.items item).flatMap fun item =>
        item :: (callPairing.missing cm.items item).toList).map (strippedFor inputModalities) ∧
    { cm with items := cm.forPrompt inputModalities }.forPrompt inputModalities =
      cm.forPrompt inputModalities := by
  have hpaired := paired_forPrompt cm inputModalities
  refine ⟨hpaired.answered, hpaired.awaited, ?_, forPrompt_forPrompt cm inputModalities⟩
  rw [forPrompt_eq, Pairing.normalize_eq]

end CodexMonitor.History
