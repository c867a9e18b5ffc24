import CodexMonitor.History.Truncate

namespace CodexMonitor.History

/-!
# History — contextual fragments, turn boundaries and compacted histories

`core/src/event_mapping.rs`, `core/src/context/contextual_user_message.rs` and
`core/src/compact.rs`: which messages are injected context, which ones open a user turn,
the user messages a compaction keeps, and the history a compaction rebuilds from them.

Three things the code relies on are outside the repository and enter as `Externals`: the
JSON decoder for inter-agent messages, the XML decoder for hook prompts, and the `f64`
product that widens a truncation budget.
-/

/-- The behaviour of the third-party code and of the `f64` arithmetic used here. -/
structure Externals where
  /-- `serde_json::from_str::<InterAgentCommunication>(text).is_ok()`. -/
  isInterAgentJson : Text → Bool
  /-- `from_xml_str::<HookPromptXml>(text)`, as the pair of text and hook run id. -/
  hookPromptXml : Text → Option (Text × Text)
  /-- `(n as f64 * 1.2).ceil() as usize`. -/
  scaleBudget : Nat → Nat

variable (ext : Externals)

/-- `policy * 1.2`. -/
def TruncationPolicy.withSerializationBudget : TruncationPolicy → TruncationPolicy
  | .bytes n => .bytes (ext.scaleBudget n)
  | .tokens n => .tokens (ext.scaleBudget n)

/-! ### Contextual fragments -/

/-- Whether the text, trimmed at the start, starts with the marker up to ASCII case. -/
def startsWithMarker (marker text : Text) : Bool :=
  match text.trimStart.byteTake marker.byteLen with
  | some candidate => candidate.eqIgnoreAsciiCase marker
  | none => false

/-- Whether the trimmed text ends with the marker up to ASCII case. -/
def endsWithMarker (marker text : Text) : Bool :=
  match text.trim.byteDrop (text.trim.byteLen - marker.byteLen) with
  | some candidate => candidate.eqIgnoreAsciiCase marker
  | none => false

/-- `ContextualUserFragment::matches_text` for a pair of markers. -/
def matchesText (startMarker endMarker text : Text) : Bool :=
  if startMarker.isEmpty || endMarker.isEmpty then false
  else startsWithMarker startMarker text && endsWithMarker endMarker text

/-- The start and end markers of the registered contextual user fragments. -/
def contextualUserFragments : List (Text × Text) :=
  [ ("# AGENTS.md instructions for ".toList, "</INSTRUCTIONS>".toList),
    ("<environment_context>".toList, "</environment_context>".toList),
    ("<skill>".toList, "</skill>".toList),
    ("<user_shell_command>".toList, "</user_shell_command>".toList),
    ("<turn_aborted>".toList, "</turn_aborted>".toList),
    ("<subagent_notification>".toList, "</subagent_notification>".toList) ]

def isStandardContextualUserText (text : Text) : Bool :=
  contextualUserFragments.any fun fragment => matchesText fragment.1 fragment.2 text

/-- `parse_hook_prompt_fragment`: the prompt's text and its non-blank hook run id. -/
def parseHookPromptFragment (text : Text) : Option (Text × Text) :=
  match ext.hookPromptXml text.trim with
  | some (body, hookRunId) => if hookRunId.trim.isEmpty then none else some (body, hookRunId)
  | none => none

def isContextualUserFragment : ContentItem → Bool
  | .inputText text =>
      (parseHookPromptFragment ext text).isSome || isStandardContextualUserText text
  | _ => false

def isContextualUserMessageContent (message : List ContentItem) : Bool :=
  message.any (isContextualUserFragment ext)

def contextualDeveloperPrefixes : List Text :=
  [ "<permissions instructions>".toList, "<model_switch>".toList, "<collaboration_mode>".toList,
    "<realtime_conversation>".toList, "<personality_spec>".toList ]

def isContextualDevFragment : ContentItem → Bool
  | .inputText text => contextualDeveloperPrefixes.any fun marker => startsWithMarker marker text
  | _ => false

def isContextualDevMessageContent (message : List ContentItem) : Bool :=
  message.any isContextualDevFragment

def hasNonContextualDevMessageContent (message : List ContentItem) : Bool :=
  message.any fun item => !isContextualDevFragment item

/-! ### Turn boundaries -/

/-- `InterAgentCommunication::is_message_content`. -/
def isInterAgentInstructionContent : List ContentItem → Bool
  | [.inputText text] => ext.isInterAgentJson text
  | [.outputText text] => ext.isInterAgentJson text
  | _ => false

/-- Whether the item opens an instruction turn. -/
def isUserTurnBoundary : ResponseItem → Bool
  | .message _ role content _ =>
      (role == "user".toList && !isContextualUserMessageContent ext content) ||
        (role == "assistant".toList && isInterAgentInstructionContent ext content)
  | _ => false

/-! ### The user messages of a history -/

def isLocalImageOpenTagText (text : Text) : Bool :=
  match text.stripStart "<image name=".toList with
  | some rest => rest.endsWith ">".toList
  | none => false

def isImageOpenTagText (text : Text) : Bool := text == "<image>".toList

def isImageCloseTagText (text : Text) : Bool := text == "</image>".toList

def isInputImage : Option ContentItem → Bool
  | some (.inputImage _ _) => true
  | _ => false

/-- The texts `parse_user_message` keeps, with the previous item in hand: image tags next
    to their image are dropped, images and output texts contribute no text. -/
def userMessageTexts : Option ContentItem → List ContentItem → List Text
  | _, [] => []
  | previous, .inputText text :: rest =>
      if ((isLocalImageOpenTagText text || isImageOpenTagText text) && isInputImage rest.head?) ||
          (isImageCloseTagText text && isInputImage previous) then
        userMessageTexts (some (.inputText text)) rest
      else text :: userMessageTexts (some (.inputText text)) rest
  | _, item :: rest => userMessageTexts (some item) rest

/-- `parse_user_message(message).map(|user| user.message())`. -/
def parseUserMessage (message : List ContentItem) : Option Text :=
  if isContextualUserMessageContent ext message then none
  else some (userMessageTexts none message).flatten

/-- Whether `parse_visible_hook_prompt_message` recognises the whole message. -/
def isVisibleHookPromptMessage (content : List ContentItem) : Bool :=
  content.all (fun item => match item with
      | .inputText text =>
          (parseHookPromptFragment ext text).isSome || isStandardContextualUserText text
      | _ => false) &&
    content.any (fun item => match item with
      | .inputText text => (parseHookPromptFragment ext text).isSome
      | _ => false)

/-- The text of the item when `parse_turn_item` reads it as a user message. -/
def parseTurnItemUserMessage : ResponseItem → Option Text
  | .message _ role content _ =>
      if role == "user".toList then
        if isVisibleHookPromptMessage ext content then none else parseUserMessage ext content
      else none
  | _ => none

def summaryPrefix : Text :=
  ("Another language model started to solve this problem and produced a summary of its " ++
    "thinking process. You also have access to the state of the tools that were used by that " ++
    "language model. Use this to build on the work that has already been done and avoid " ++
    "duplicating work. Here is the summary produced by the other language model, use the " ++
    "information in this summary to assist with your own analysis:").toList

def isSummaryMessage (message : Text) : Bool :=
  message.startsWith (summaryPrefix ++ ['\n'])

def collectUserMessages (items : List ResponseItem) : List Text :=
  items.filterMap fun item =>
    match parseTurnItemUserMessage ext item with
    | some message => if isSummaryMessage message then none else some message
    | none => none

/-! ### The history a compaction rebuilds -/

def compactUserMessageMaxTokens : Nat := 20000

/-- The newest messages that fit the remaining token budget, newest first; the first one
    that does not fit is truncated and ends the selection. -/
def selectMessages : Nat → List Text → List Text
  | _, [] => []
  | remaining, message :: older =>
      if remaining = 0 then []
      else
        let tokens := approxTokenCount message
        if tokens ≤ remaining then message :: selectMessages (remaining - tokens) older
        else [truncateText message (.tokens remaining)]

/-- A plain user message with one text. -/
def userMessage (text : Text) : ResponseItem :=
  .message none "user".toList [.inputText text] none

def buildCompactedHistoryWithLimit (history : List ResponseItem) (userMessages : List Text)
    (summaryText : Text) (maxTokens : Nat) : List ResponseItem :=
  let selected := if 0 < maxTokens then (selectMessages maxTokens userMessages.reverse).reverse
    else []
  let summary := if summaryText.isEmpty then "(no summary available)".toList else summaryText
  history ++ selected.map userMessage ++ [userMessage summary]

def buildCompactedHistory (initialContext : List ResponseItem) (userMessages : List Text)
    (summaryText : Text) : List ResponseItem :=
  buildCompactedHistoryWithLimit initialContext userMessages summaryText
    compactUserMessageMaxTokens

end CodexMonitor.History
