import CodexMonitor.Lib.Text

namespace CodexMonitor.History

/-!
# History — response items and rollout items

The data model of the transcript (`protocol/src/models.rs`, `protocol/src/protocol.rs`):

* `ContentItem`, `FunctionCallOutputPayload`, `ResponseItem` — what the model sees.  JSON
  values that no modelled function looks into are carried as their text.
* `TurnContextItem` — the persisted turn settings, with the fields replay reads.
* `EventMsg`, `CompactedItem`, `RolloutItem` — the lines of a rollout file.  The event
  messages replay does not dispatch on are one constructor, `EventMsg.other`.
-/

/-! ### Message content -/

inductive ImageDetail where
  | auto
  | low
  | high
  | original
  deriving DecidableEq, Repr

inductive MessagePhase where
  | commentary
  | finalAnswer
  deriving DecidableEq, Repr

inductive ContentItem where
  | inputText (text : Text)
  | inputImage (imageUrl : Text) (detail : Option ImageDetail)
  | outputText (text : Text)
  deriving DecidableEq, Repr

inductive FunctionCallOutputContentItem where
  | inputText (text : Text)
  | inputImage (imageUrl : Text) (detail : Option ImageDetail)
  deriving DecidableEq, Repr

inductive FunctionCallOutputBody where
  | text (content : Text)
  | contentItems (items : List FunctionCallOutputContentItem)
  deriving DecidableEq, Repr

structure FunctionCallOutputPayload where
  body : FunctionCallOutputBody
  success : Option Bool
  deriving DecidableEq, Repr

/-! ### Response items -/

/-- One item of the conversation sent to the model. -/
inductive ResponseItem where
  | message (id : Option Text) (role : Text) (content : List ContentItem)
      (phase : Option MessagePhase)
  | reasoning (id : Text) (summary : List Text) (content : Option (List Text))
      (encryptedContent : Option Text)
  | localShellCall (id callId : Option Text) (status action : Text)
  | functionCall (id : Option Text) (name : Text) (namespaceName : Option Text)
      (arguments callId : Text)
  | toolSearchCall (id callId status : Option Text) (execution arguments : Text)
  | functionCallOutput (callId : Text) (output : FunctionCallOutputPayload)
  | customToolCall (id status : Option Text) (callId name input : Text)
  | customToolCallOutput (callId : Text) (name : Option Text)
      (output : FunctionCallOutputPayload)
  | toolSearchOutput (callId : Option Text) (status execution : Text) (tools : List Text)
  | webSearchCall (id status action : Option Text)
  | imageGenerationCall (id status : Text) (revisedPrompt : Option Text) (result : Text)
  | compaction (encryptedContent : Text)
  | other
  deriving DecidableEq, Repr

/-! ### Rollout items -/

/-- The persisted settings of a turn. -/
structure TurnContextItem where
  turnId : Option Text
  model : Text
  realtimeActive : Option Bool
  deriving DecidableEq, Repr

/-- A compaction marker; newer ones carry the history that replaced the old one. -/
structure CompactedItem where
  message : Text
  replacementHistory : Option (List ResponseItem)
  deriving DecidableEq, Repr

inductive EventMsg where
  | threadRolledBack (numTurns : UInt32)
  | turnComplete (turnId : Text)
  | turnAborted (turnId : Option Text)
  | userMessage (message : Text)
  | turnStarted (turnId : Text)
  | other
  deriving DecidableEq, Repr

/-- One line of a rollout file. -/
inductive RolloutItem where
  | sessionMeta
  | responseItem (item : ResponseItem)
  | compacted (item : CompactedItem)
  | turnContext (item : TurnContextItem)
  | eventMsg (msg : EventMsg)
  deriving DecidableEq, Repr

end CodexMonitor.History
