import CodexMonitor.Threads.QueuedSend

namespace CodexMonitor.Threads

/-!
# Threads — the turn state of one thread

`useThreadTurnEvents.ts`, the send and interrupt half of `useThreadMessaging.ts` and the two
reducer fields they write: whether the thread is processing, and its active turn.

The reducer's fields hold every action dispatched so far; a render copies them to where
`getActiveTurnId` and the callbacks see them (`shownTurnId`, `shownProcessing`).  The refs
are `immediate`, `lastReducer` (a missing entry of either is `none`), `hasOptimistic` and
`pendingInterrupt`.

* `getLatestKnownActiveTurnId` — guesses whether the reducer lags behind the refs.
* `onTurnStarted`, `onTurnCompleted`, `onTurnError`, `onThreadStatusChanged`,
  `onThreadClosed` — the notifications.
* `sendRequested`, `onStartResponse`, `onSteerResponse`, `interruptTurn` — the client's side.
-/

abbrev TurnId := Text

/-- The reducer fields, their rendered copies and the refs, for one thread. -/
structure TurnState where
  isProcessing : Bool := false
  activeTurnId : Option TurnId := none
  shownProcessing : Bool := false
  shownTurnId : Option TurnId := none
  immediate : Option (Option TurnId) := none
  lastReducer : Option (Option TurnId) := none
  hasOptimistic : Bool := false
  pendingInterrupt : Bool := false
  deriving DecidableEq, Repr

variable (s : TurnState)

/-! ### The reducer and the refs -/

def markProcessing (isProcessing : Bool) : TurnState := { s with isProcessing := isProcessing }

def setActiveTurnId (turnId : Option TurnId) : TurnState := { s with activeTurnId := turnId }

/-- A render: what was dispatched is now seen. -/
def renderTurn : TurnState :=
  { s with shownProcessing := s.isProcessing, shownTurnId := s.activeTurnId }

def resetThreadTurnState : TurnState :=
  { s with hasOptimistic := false, immediate := some none, pendingInterrupt := false }

/-- Outside an optimistic window the cache follows the reducer. -/
def alignWithReducer (aligned : TurnState) : TurnState × Option TurnId :=
  let aligned :=
    if s.lastReducer ≠ some s.shownTurnId then
      { aligned with lastReducer := some s.shownTurnId, immediate := some s.shownTurnId }
    else aligned
  (aligned, if s.immediate.isSome then aligned.immediate.join else s.shownTurnId)

/-- `getLatestKnownActiveTurnId`: it also updates the refs. -/
def getLatestKnownActiveTurnId : TurnState × Option TurnId :=
  match s.hasOptimistic, s.immediate with
  | true, some immediate =>
      if s.shownTurnId = immediate then
        -- the reducer caught up with the optimistic write
        alignWithReducer s { s with hasOptimistic := false }
      else if s.lastReducer.isSome ∧ s.lastReducer ≠ some s.shownTurnId then
        -- the reducer changed on its own
        alignWithReducer s { s with hasOptimistic := false, immediate := some s.shownTurnId }
      else ({ s with lastReducer := some s.shownTurnId }, immediate)
  | _, _ => alignWithReducer s s

/-! ### Notifications -/

/-- `onTurnStarted`: the new state, and the turn it sends an interrupt for because of the
    pending mark. -/
def onTurnStarted (turnId : TurnId) : TurnState × Option TurnId :=
  if s.pendingInterrupt then
    ({ s with pendingInterrupt := false }, if turnId.isEmpty then none else some turnId)
  else if turnId.isEmpty then (markProcessing s true, none)
  else
    ({ s with
        isProcessing := true
        lastReducer := some s.shownTurnId
        hasOptimistic := true
        immediate := some (some turnId)
        activeTurnId := some turnId }, none)

/-- The end of the thread's turn. -/
def finishTurn : TurnState :=
  setActiveTurnId (resetThreadTurnState (markProcessing s false)) none

/-- Whether a message about `turnId` is about another turn than the active one. -/
def isAboutOtherTurn (turnId : TurnId) (activeTurnId : Option TurnId) : Bool :=
  !turnId.isEmpty && activeTurnId.any fun active => !active.isEmpty && turnId != active

def onTurnCompleted (turnId : TurnId) : TurnState :=
  let (s, activeTurnId) := getLatestKnownActiveTurnId s
  if isAboutOtherTurn turnId activeTurnId then s else finishTurn s

def onTurnError (turnId : TurnId) (willRetry : Bool) : TurnState :=
  if willRetry then s else onTurnCompleted s turnId

/-- The thread status, after normalization of its spelling. -/
inductive ThreadStatusType where
  | active
  | idle
  | notLoaded
  | systemError
  | unknown
  deriving DecidableEq, Repr

def onThreadStatusChanged : ThreadStatusType → TurnState
  | .active => markProcessing s true
  | .idle => finishTurn s
  | .notLoaded => finishTurn s
  | .systemError => finishTurn s
  | .unknown => s

def onThreadClosed : TurnState := finishTurn s

/-! ### Sending and interrupting -/

/-- A send steers the active turn instead of starting one. -/
def shouldSteer (steerEnabled : Bool) (sendIntent : ComposerSendIntent) : Bool :=
  match sendIntent with
  | .queue => false
  | _ => s.shownProcessing && steerEnabled && s.shownTurnId.any fun id => !id.isEmpty

/-- `sendMessageToThread` up to its request. -/
def sendRequested : TurnState := markProcessing s true

/-- What comes back from a request: an error, a result with the turn id it names (empty if
    it names none), or an exception. -/
inductive TurnResponse where
  | rpcError (message : Text)
  | result (turnId : TurnId)
  | threw (message : Text)
  deriving DecidableEq, Repr

/-- A turn that did not start leaves the thread idle. -/
def startFailed : TurnState := setActiveTurnId (markProcessing s false) none

/-- `sendMessageToThread` from the response of `turn/start` on. -/
def onStartResponse : TurnResponse → TurnState × SendStatus
  | .rpcError _ => (startFailed s, .blocked)
  | .threw _ => (startFailed s, .blocked)
  | .result turnId =>
      if turnId.isEmpty then (startFailed s, .blocked)
      else (setActiveTurnId s (some turnId), .sent)

def isStaleSteerTurnError (message : Text) : Bool :=
  let normalized : Text := message.jsTrim.map Text.asciiLower
  normalized.containsText "no active turn".toList ||
    (normalized.containsText "active turn".toList && normalized.containsText "not found".toList)

/-- `sendMessageToThread` from the response of `turn/steer` on. -/
def onSteerResponse : TurnResponse → TurnState × SendStatus
  | .rpcError message =>
      (if isStaleSteerTurnError message then startFailed s else s, .steerFailed)
  | .threw message =>
      (if isStaleSteerTurnError message then startFailed s else s, .steerFailed)
  | .result turnId => (if turnId.isEmpty then s else setActiveTurnId s (some turnId), .sent)

/-- `interruptTurn`: without a known turn the thread is marked. -/
def interruptTurn : TurnState :=
  let s' := setActiveTurnId (markProcessing s false) none
  if s.shownTurnId.any fun id => !id.isEmpty then s' else { s' with pendingInterrupt := true }

/-! ### What the handlers do -/

/-- With the refs set by `onTurnStarted` and no reducer value but the turn's own since, the
    turn is known, whatever was rendered. -/
theorem getLatest_of_optimistic {turnId : TurnId} {last : Option TurnId}
    (hopt : s.hasOptimistic = true) (himm : s.immediate = some (some turnId))
    (hlast : s.lastReducer = some last)
    (hshown : s.shownTurnId = last ∨ s.shownTurnId = some turnId) :
    (getLatestKnownActiveTurnId s).2 = some turnId := by
  unfold getLatestKnownActiveTurnId
  rw [hopt, himm]
  by_cases hcaught : s.shownTurnId = some turnId
  · simp only [hcaught, if_true, alignWithReducer, himm, Option.isSome_some]
    split <;> rfl
  · have hsame : s.lastReducer = some s.shownTurnId := by
      rw [hlast, hshown.resolve_right hcaught]
    simp only [if_neg hcaught, hsame, ne_eq, not_true_eq_false, and_false, if_false]

/-- A completion of the known turn ends it. -/
theorem onTurnCompleted_of_known {turnId : TurnId}
    (h : (getLatestKnownActiveTurnId s).2 = some turnId) :
    (onTurnCompleted s turnId).isProcessing = false ∧
      (onTurnCompleted s turnId).activeTurnId = none := by
  have hsame : isAboutOtherTurn turnId (getLatestKnownActiveTurnId s).2 = false := by
    rw [h]
    simp [isAboutOtherTurn]
  unfold onTurnCompleted
  simp only [hsame, Bool.false_eq_true, if_false]
  exact ⟨rfl, rfl⟩

theorem alignWithReducer_pendingInterrupt (aligned : TurnState) :
    (alignWithReducer s aligned).1.pendingInterrupt = aligned.pendingInterrupt := by
  unfold alignWithReducer
  dsimp only
  split <;> rfl

/-- Looking up the known turn leaves the pending mark alone. -/
theorem getLatest_pendingInterrupt :
    (getLatestKnownActiveTurnId s).1.pendingInterrupt = s.pendingInterrupt := by
  unfold getLatestKnownActiveTurnId
  split
  · split
    · exact alignWithReducer_pendingInterrupt s _
    · split
      · exact alignWithReducer_pendingInterrupt s _
      · rfl
  · exact alignWithReducer_pendingInterrupt s s

/-- A completion clears the pending mark or leaves it. -/
theorem onTurnCompleted_pendingInterrupt (turnId : TurnId)
    (h : (onTurnCompleted s turnId).pendingInterrupt = true) : s.pendingInterrupt = true := by
  unfold onTurnCompleted at h
  dsimp only at h
  split at h
  · rwa [getLatest_pendingInterrupt] at h
  · cases h

end CodexMonitor.Threads
