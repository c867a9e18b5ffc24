import CodexMonitor.Lib.Text
import CodexMonitor.Lib.Machine
import Mathlib.Logic.Function.Basic

namespace CodexMonitor.Threads

/-!
# Threads — the queue of messages waiting to be sent

`features/threads/hooks/useQueuedSend.ts`: messages submitted while a thread is busy wait in
a queue of their thread.  At each render the **in-flight effect** frees the thread's slot
once the turn it started is over, and the **flush effect** moves the next queued message
into the free slot and starts its send.

The three React states are updated by functions of their previous value, so the latest
values are kept here, and a render sees them (`render`).  The handlers of the composer see
the options of the last render (`view`).  Whatever the hook waits for, the environment
decides: the flags of the threads, the order of the completions and their outcomes.

Messages carry a `tag`, the number of the `enqueueMessage` call that made them; the
tags that were enqueued, removed by the user and accepted are recorded on the side.
-/

/-! ### Slash commands -/

inductive SlashCommandKind where
  | apps
  | compact
  | fast
  | fork
  | mcp
  | new
  | resume
  | review
  | status
  deriving DecidableEq, Repr

/-- `\\w` of ECMAScript. -/
def isWordChar (c : Char) : Bool := c.isAlphanum || c == '_'

/-- `/^\\/name\\b/i`. -/
def hasCommand (name text : Text) : Bool :=
  match text with
  | '/' :: rest =>
      Text.eqIgnoreAsciiCase (rest.take name.length) name &&
        !(rest.drop name.length).head?.any isWordChar
  | _ => false

def parseSlashCommand (text : Text) (appsEnabled : Bool) : Option SlashCommandKind :=
  if appsEnabled && hasCommand "apps".toList text then some .apps
  else if hasCommand "fork".toList text then some .fork
  else if hasCommand "fast".toList text then some .fast
  else if hasCommand "mcp".toList text then some .mcp
  else if hasCommand "review".toList text then some .review
  else if hasCommand "compact".toList text then some .compact
  else if hasCommand "new".toList text then some .new
  else if hasCommand "resume".toList text then some .resume
  else if hasCommand "status".toList text then some .status
  else none

/-! ### Messages -/

abbrev ThreadId := Text

structure AppMention where
  name : Text
  path : Text
  deriving DecidableEq, Repr

/-- What the composer submits. -/
structure Draft where
  text : Text
  images : List Text := []
  appMentions : List AppMention := []
  deriving DecidableEq, Repr

structure QueuedMessage where
  id : Text
  text : Text
  images : List Text
  appMentions : List AppMention
  tag : Nat
  deriving DecidableEq, Repr

inductive ComposerSendIntent where
  | default
  | queue
  | steer
  deriving DecidableEq, Repr

inductive FollowUpMessageBehavior where
  | queue
  | steer
  deriving DecidableEq, Repr

/-- The status of a `SendMessageResult`. -/
inductive SendStatus where
  | sent
  | blocked
  | steerFailed
  deriving DecidableEq, Repr

/-- How a flushed item ends: its send returned, its slash command ran, or either threw. -/
inductive Outcome where
  | returned (status : SendStatus)
  | ran
  | threw
  deriving DecidableEq, Repr

/-! ### The state -/

/-- The options of the hook that are not about one thread. -/
structure Settings where
  queueFlushPaused : Bool := false
  steerEnabled : Bool := false
  followUpMessageBehavior : FollowUpMessageBehavior := .queue
  appsEnabled : Bool := true
  deriving DecidableEq, Repr

/-- The options the hook was last rendered with. -/
structure Options where
  activeThreadId : Option ThreadId := none
  activeTurnId : Option Text := none
  isProcessing : Bool := false
  isReviewing : Bool := false
  settings : Settings := {}
  deriving DecidableEq, Repr

/-- A flushed item whose send or slash command has not completed. -/
structure Flushed where
  threadId : ThreadId
  item : QueuedMessage
  command : Option SlashCommandKind
  deriving DecidableEq, Repr

/-- A send of `handleSend` that has not completed, with what its closure remembers. -/
structure DirectSend where
  activeThreadId : Option ThreadId
  isProcessing : Bool
  draft : Draft
  deriving DecidableEq, Repr

structure QueueState where
  queuedByThread : ThreadId → List QueuedMessage
  inFlightByThread : ThreadId → Option QueuedMessage
  hasStartedByThread : ThreadId → Bool
  activeThreadId : Option ThreadId
  isProcessing : ThreadId → Bool
  isReviewing : ThreadId → Bool
  activeTurnId : ThreadId → Option Text
  settings : Settings
  view : Options
  flushed : List Flushed
  direct : List DirectSend
  nextTag : Nat
  enqueued : ThreadId → List Nat
  removed : ThreadId → List Nat
  accepted : ThreadId → List Nat

def QueueState.initial : QueueState :=
  { queuedByThread := fun _ => []
    inFlightByThread := fun _ => none
    hasStartedByThread := fun _ => false
    activeThreadId := none
    isProcessing := fun _ => false
    isReviewing := fun _ => false
    activeTurnId := fun _ => none
    settings := {}
    view := {}
    flushed := []
    direct := []
    nextTag := 0
    enqueued := fun _ => []
    removed := fun _ => []
    accepted := fun _ => [] }

variable (s : QueueState)

/-- The options of a render now. -/
def QueueState.options : Options :=
  { activeThreadId := s.activeThreadId
    activeTurnId := s.activeThreadId.bind s.activeTurnId
    isProcessing := s.activeThreadId.any s.isProcessing
    isReviewing := s.activeThreadId.any s.isReviewing
    settings := s.settings }

/-! ### The queue -/

/-- `enqueueMessage` of a new item (`createQueuedItem`) with the given id. -/
def enqueueMessage (threadId : ThreadId) (id : Text) (draft : Draft) : QueueState :=
  let item := ⟨id, draft.text, draft.images, draft.appMentions, s.nextTag⟩
  { s with
    queuedByThread :=
      Function.update s.queuedByThread threadId (s.queuedByThread threadId ++ [item])
    nextTag := s.nextTag + 1
    enqueued := Function.update s.enqueued threadId (s.enqueued threadId ++ [s.nextTag]) }

def removeQueuedMessage (threadId : ThreadId) (messageId : Text) : QueueState :=
  let queue := s.queuedByThread threadId
  { s with
    queuedByThread :=
      Function.update s.queuedByThread threadId (queue.filter fun entry => entry.id != messageId)
    removed := Function.update s.removed threadId (s.removed threadId ++
      (queue.filter fun entry => entry.id == messageId).map QueuedMessage.tag) }

def prependQueuedMessage (threadId : ThreadId) (item : QueuedMessage) : QueueState :=
  { s with
    queuedByThread :=
      Function.update s.queuedByThread threadId (item :: s.queuedByThread threadId) }

/-! ### Submitting -/

/-- The draft as it is queued or sent: trimmed, and a slash command takes no attachments. -/
def normalizeDraft (appsEnabled : Bool) (draft : Draft) : Draft :=
  let trimmed := draft.text.jsTrim
  match parseSlashCommand trimmed appsEnabled with
  | some _ => { text := trimmed, images := [], appMentions := [] }
  | none => { draft with text := trimmed }

def effectiveIntent (options : Options) (submitIntent : ComposerSendIntent) :
    ComposerSendIntent :=
  let canSteerCurrentTurn := options.isProcessing && options.settings.steerEnabled &&
    options.activeTurnId.any fun turnId => !turnId.isEmpty
  if !options.isProcessing then .default
  else
    match submitIntent with
    | .queue => .queue
    -- a steer without a turn to steer waits in the queue
    | .steer => if canSteerCurrentTurn then .steer else .queue
    | .default =>
        if options.settings.followUpMessageBehavior = .steer ∧ canSteerCurrentTurn = true then
          .steer
        else .queue

/-- Whether there is nothing to submit. -/
def Draft.isBlank (draft : Draft) : Bool := draft.text.isEmpty && draft.images.isEmpty

/-- A thread id counts as present when it is not the empty string. -/
def presentThread (threadId : Option ThreadId) : Option ThreadId :=
  threadId.filter fun id => !id.isEmpty

def queueMessage (id : Text) (draft : Draft) : QueueState :=
  let options := s.view
  let next := normalizeDraft options.settings.appsEnabled draft
  if next.isBlank then s
  else
    match presentThread options.activeThreadId with
    | none => s
    | some threadId => if options.isReviewing then s else enqueueMessage s threadId id next

/-- `handleSend`: into the queue, or a send (or slash command) of its own. -/
def handleSend (id : Text) (draft : Draft) (submitIntent : ComposerSendIntent) : QueueState :=
  let options := s.view
  let next := normalizeDraft options.settings.appsEnabled draft
  let activeThreadId := presentThread options.activeThreadId
  if next.isBlank then s
  else if activeThreadId.isSome && options.isReviewing then s
  else
    match activeThreadId with
    | some threadId =>
        if options.isProcessing ∧ effectiveIntent options submitIntent = .queue then
          enqueueMessage s threadId id next
        else { s with direct := s.direct ++ [⟨activeThreadId, options.isProcessing, next⟩] }
    | none => { s with direct := s.direct ++ [⟨none, options.isProcessing, next⟩] }

/-- A send of `handleSend` completed: a steer that failed goes into the queue after all.  A
    slash command completes without a status. -/
def directSettled (send : DirectSend) (id : Text) (status : Option SendStatus) : QueueState :=
  match send.activeThreadId with
  | some threadId =>
      if status = some .steerFailed ∧ send.isProcessing then enqueueMessage s threadId id send.draft
      else s
  | none => s

/-! ### The effects -/

/-- The in-flight effect: a thread seen busy has started; a thread seen idle after that has
    finished, and its slot is free again. -/
def inFlightEffect (options : Options) : QueueState :=
  match presentThread options.activeThreadId with
  | none => s
  | some threadId =>
      if (s.inFlightByThread threadId).isNone then s
      else if options.isProcessing || options.isReviewing then
        { s with hasStartedByThread := Function.update s.hasStartedByThread threadId true }
      else if s.hasStartedByThread threadId then
        { s with
          inFlightByThread := Function.update s.inFlightByThread threadId none
          hasStartedByThread := Function.update s.hasStartedByThread threadId false }
      else s

/-- The flush effect: it reads the rendered values, those of `s`, and updates `latest`. -/
def flushEffect (options : Options) (latest : QueueState) : QueueState :=
  match presentThread options.activeThreadId with
  | none => latest
  | some threadId =>
      if options.isProcessing || options.isReviewing || options.settings.queueFlushPaused then
        latest
      else if (s.inFlightByThread threadId).isSome then latest
      else
        match s.queuedByThread threadId with
        | [] => latest
        | nextItem :: _ =>
            -- the item shown is sent; `slice(1)` drops the head of whatever the queue is by then
            { latest with
              inFlightByThread :=
                Function.update latest.inFlightByThread threadId (some nextItem)
              hasStartedByThread := Function.update latest.hasStartedByThread threadId false
              queuedByThread := Function.update latest.queuedByThread threadId
                (latest.queuedByThread threadId).tail
              flushed := latest.flushed ++ [⟨threadId, nextItem,
                parseSlashCommand nextItem.text.jsTrim options.settings.appsEnabled⟩] }

/-- A render, and the effects that run on it. -/
def render : QueueState :=
  let options := s.options
  let rendered := { s with view := options }
  flushEffect rendered options (inFlightEffect rendered options)

/-- The record of a message that went out. -/
def accept (done : Flushed) : QueueState :=
  { s with
    accepted := Function.update s.accepted done.threadId
      (s.accepted done.threadId ++ [done.item.tag]) }

/-- The continuation of a flushed item: only a throw is looked at. -/
def flushedSettled (done : Flushed) (outcome : Outcome) : QueueState :=
  match outcome with
  | .threw =>
      prependQueuedMessage
        { s with
          inFlightByThread := Function.update s.inFlightByThread done.threadId none
          hasStartedByThread := Function.update s.hasStartedByThread done.threadId false }
        done.threadId done.item
  | .returned .sent => accept s done
  | .ran => accept s done
  | .returned .blocked => s
  | .returned .steerFailed => s

/-- A slash command has no status, a send has one. -/
def Flushed.Allows (done : Flushed) : Outcome → Prop
  | .returned _ => done.command = none
  | .ran => done.command.isSome = true
  | .threw => True

instance (done : Flushed) : DecidablePred done.Allows
  | .returned _ => inferInstanceAs (Decidable (_ = _))
  | .ran => inferInstanceAs (Decidable (_ = _))
  | .threw => inferInstanceAs (Decidable True)

/-! ### The machine -/

inductive QueueAction where
  | queueMessage (id : Text) (draft : Draft)
  | handleSend (id : Text) (draft : Draft) (submitIntent : ComposerSendIntent)
  | directSettled (index : Nat) (id : Text) (status : Option SendStatus)
  | removeQueuedMessage (threadId : ThreadId) (messageId : Text)
  | selectThread (threadId : Option ThreadId)
  | setProcessing (threadId : ThreadId) (isProcessing : Bool)
  | setReviewing (threadId : ThreadId) (isReviewing : Bool)
  | setActiveTurnId (threadId : ThreadId) (turnId : Option Text)
  | setSettings (settings : Settings)
  | render
  | flushedSettled (index : Nat) (outcome : Outcome)

def queueStep : QueueAction → Option QueueState
  | .queueMessage id draft => some (queueMessage s id draft)
  | .handleSend id draft submitIntent => some (handleSend s id draft submitIntent)
  | .directSettled index id status =>
      match s.direct[index]? with
      | none => none
      | some send =>
          some (directSettled { s with direct := s.direct.eraseIdx index } send id status)
  | .removeQueuedMessage threadId messageId => some (removeQueuedMessage s threadId messageId)
  | .selectThread threadId => some { s with activeThreadId := threadId }
  | .setProcessing threadId isProcessing =>
      some { s with isProcessing := Function.update s.isProcessing threadId isProcessing }
  | .setReviewing threadId isReviewing =>
      some { s with isReviewing := Function.update s.isReviewing threadId isReviewing }
  | .setActiveTurnId threadId turnId =>
      some { s with activeTurnId := Function.update s.activeTurnId threadId turnId }
  | .setSettings settings => some { s with settings := settings }
  | .render => some (render s)
  | .flushedSettled index outcome =>
      match s.flushed[index]? with
      | none => none
      | some done =>
          if done.Allows outcome then
            some (flushedSettled { s with flushed := s.flushed.eraseIdx index } done outcome)
          else none

/-- The hook and its environment. -/
def queueMachine : Machine QueueState QueueAction :=
  { init := QueueState.initial, step := queueStep }

/-! ### What a step can do -/

/-- Queueing a message enqueues it on some thread or does nothing. -/
theorem queueMessage_cases (id : Text) (draft : Draft) :
    queueMessage s id draft = s ∨
      ∃ threadId next, queueMessage s id draft = enqueueMessage s threadId id next := by
  unfold queueMessage
  dsimp only
  split
  · exact .inl rfl
  · split
    · exact .inl rfl
    · split
      · exact .inl rfl
      · exact .inr ⟨_, _, rfl⟩

/-- Sending enqueues the message, starts a send of its own or does nothing. -/
theorem handleSend_cases (id : Text) (draft : Draft) (submitIntent : ComposerSendIntent) :
    handleSend s id draft submitIntent = s ∨
      (∃ threadId next, handleSend s id draft submitIntent = enqueueMessage s threadId id next) ∨
      ∃ direct, handleSend s id draft submitIntent = { s with direct := direct } := by
  unfold handleSend
  dsimp only
  split
  · exact .inl rfl
  · split
    · exact .inl rfl
    · split
      · split
        · exact .inr (.inl ⟨_, _, rfl⟩)
        · exact .inr (.inr ⟨_, rfl⟩)
      · exact .inr (.inr ⟨_, rfl⟩)

theorem directSettled_cases (send : DirectSend) (id : Text) (status : Option SendStatus) :
    directSettled s send id status = s ∨
      ∃ threadId next, directSettled s send id status = enqueueMessage s threadId id next := by
  unfold directSettled
  split
  · split
    · exact .inr ⟨_, _, rfl⟩
    · exact .inl rfl
  · exact .inl rfl

/-- The state after a render in which neither effect did anything. -/
def rendered : QueueState := { s with view := s.options }

/-- **What a render does.** The effects do nothing, see the thread's turn started, free its
    slot, or flush the next item of its queue into the free slot. -/
theorem render_cases :
    render s = rendered s ∨
    ∃ threadId, s.activeThreadId = some threadId ∧
      ((∃ item, s.inFlightByThread threadId = some item ∧
          (s.isProcessing threadId || s.isReviewing threadId) = true ∧
          render s = { rendered s with
            hasStartedByThread := Function.update s.hasStartedByThread threadId true }) ∨
        (∃ item, s.inFlightByThread threadId = some item ∧
          (s.isProcessing threadId || s.isReviewing threadId) = false ∧
          s.hasStartedByThread threadId = true ∧
          render s = { rendered s with
            inFlightByThread := Function.update s.inFlightByThread threadId none
            hasStartedByThread := Function.update s.hasStartedByThread threadId false }) ∨
        ∃ item rest, s.inFlightByThread threadId = none ∧
          (s.isProcessing threadId || s.isReviewing threadId) = false ∧
          s.queuedByThread threadId = item :: rest ∧
          render s = { rendered s with
            inFlightByThread := Function.update s.inFlightByThread threadId (some item)
            hasStartedByThread := Function.update s.hasStartedByThread threadId false
            queuedByThread := Function.update s.queuedByThread threadId rest
            flushed := s.flushed ++ [⟨threadId, item,
              parseSlashCommand item.text.jsTrim s.settings.appsEnabled⟩] }) := by
  cases hactive : presentThread s.activeThreadId with
  | none =>
    refine .inl ?_
    simp only [render, flushEffect, inFlightEffect, QueueState.options, hactive]
    rfl
  | some threadId =>
    have hsome : s.activeThreadId = some threadId := (Option.filter_eq_some_iff.mp hactive).1
    have hbusy : (s.options.isProcessing || s.options.isReviewing) =
        (s.isProcessing threadId || s.isReviewing threadId) := by
      simp [QueueState.options, hsome]
    have hoptions : presentThread s.options.activeThreadId = some threadId := hactive
    cases hslot : s.inFlightByThread threadId with
    | some item =>
      -- the flush effect sees the slot taken, whatever the in-flight effect does
      have hflush : ∀ latest, flushEffect (rendered s) s.options latest = latest := by
        intro latest
        simp only [flushEffect, hoptions, rendered, hslot, Option.isSome_some, if_true, ite_self]
      have hrender : render s = inFlightEffect (rendered s) s.options := hflush _
      have hslot' : (rendered s).inFlightByThread threadId = some item := hslot
      rw [inFlightEffect, hoptions] at hrender
      simp only [hslot', Option.isNone_some, Bool.false_eq_true, if_false, hbusy] at hrender
      cases hb : s.isProcessing threadId || s.isReviewing threadId with
      | true =>
        rw [hb, if_pos rfl] at hrender
        exact .inr ⟨threadId, hsome, .inl ⟨item, hslot, hb, hrender⟩⟩
      | false =>
        rw [hb, if_neg Bool.false_ne_true] at hrender
        cases hstarted : s.hasStartedByThread threadId with
        | true =>
          rw [show (rendered s).hasStartedByThread threadId = true from hstarted, if_pos rfl]
            at hrender
          exact .inr ⟨threadId, hsome, .inr (.inl ⟨item, hslot, hb, hstarted, hrender⟩)⟩
        | false =>
          rw [show (rendered s).hasStartedByThread threadId = false from hstarted,
            if_neg Bool.false_ne_true] at hrender
          exact .inl hrender
    | none =>
      -- a free slot: the in-flight effect does nothing, the flush effect decides
      have hslot' : (rendered s).inFlightByThread threadId = none := hslot
      have heffect : inFlightEffect (rendered s) s.options = rendered s := by
        simp only [inFlightEffect, hoptions, hslot', Option.isNone_none, if_true]
      have hrender : render s = flushEffect (rendered s) s.options (rendered s) :=
        congrArg (flushEffect (rendered s) s.options) heffect
      rw [flushEffect, hoptions] at hrender
      simp only [hslot', Option.isSome_none, Bool.false_eq_true, if_false, hbusy] at hrender
      cases hb : s.isProcessing threadId || s.isReviewing threadId with
      | true =>
        rw [hb, Bool.true_or, if_pos rfl] at hrender
        exact .inl hrender
      | false =>
        rw [hb, Bool.false_or] at hrender
        cases hqueue : s.queuedByThread threadId with
        | nil =>
          rw [show (rendered s).queuedByThread threadId = [] from hqueue, ite_self] at hrender
          exact .inl hrender
        | cons item rest =>
          rw [show (rendered s).queuedByThread threadId = item :: rest from hqueue] at hrender
          split at hrender
          · exact .inl hrender
          · exact .inr ⟨threadId, hsome, .inr (.inr ⟨item, rest, hslot, hb, hqueue, hrender⟩)⟩

end CodexMonitor.Threads
