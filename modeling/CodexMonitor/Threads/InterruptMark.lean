import CodexMonitor.Threads.TurnEvents

namespace CodexMonitor.Threads

/-!
# Threads — which turn a pending interrupt cancels

Pressing interrupt before the turn is known leaves a mark on the thread, and the next turn
that starts is interrupted.  Nothing but the end of a turn clears the mark: not a start that
fails, and a press when nothing was sent leaves it too.  `interruptMachine` runs the
handlers on any order of events and writes down when things happened; a send is named by
its time.

`MarkUsed` is the condition under which the mark only meets a turn sent before the press:
the mark is set while a send awaits its turn, no failing start takes away the last such
send, and the turn that starts on a marked thread is that of the oldest send.  The result
for whole runs is `interrupts_justified_run`.
-/

/-! ### Events on a thread -/

/-- An interrupt that `onTurnStarted` sent: the turn, the send that started it (none for a
    turn this client did not send) and when. -/
structure SentInterrupt where
  turnId : TurnId
  origin : Option Nat
  startedAt : Nat
  deriving DecidableEq, Repr

/-- The turn state and the record of the run: `awaiting` are the sends whose turn neither
    started nor failed to, oldest first. -/
structure InterruptRun where
  turn : TurnState := {}
  clock : Nat := 0
  awaiting : List Nat := []
  unanswered : List Nat := []
  steers : Nat := 0
  presses : List Nat := []
  interrupts : List SentInterrupt := []

inductive InterruptEvent where
  | send (steerEnabled : Bool) (sendIntent : ComposerSendIntent)
  | startResponse (sentAt : Nat) (response : TurnResponse)
  | steerResponse (response : TurnResponse)
  | press
  | started (turnId : TurnId) (origin : Option Nat)
  | completed (turnId : TurnId)
  | turnError (turnId : TurnId) (willRetry : Bool)
  | statusChanged (status : ThreadStatusType)
  | closed
  | render
  deriving DecidableEq, Repr

/-- A `turn/start` response that starts no turn. -/
def TurnResponse.isFailure : TurnResponse → Bool
  | .result turnId => turnId.isEmpty
  | _ => true

/-- The run one event later, with the turn state it leaves. -/
def InterruptRun.tick (r : InterruptRun) (turn : TurnState) : InterruptRun :=
  { r with turn := turn, clock := r.clock + 1 }

/-- A `turn/start` request: the send awaits its turn and its response. -/
def startSent (r : InterruptRun) : InterruptRun :=
  { r.tick (sendRequested r.turn) with
    awaiting := r.awaiting ++ [r.clock]
    unanswered := r.unanswered ++ [r.clock] }

def startAnswered (r : InterruptRun) (sentAt : Nat) (response : TurnResponse) : InterruptRun :=
  { r.tick (onStartResponse r.turn response).1 with
    awaiting := if response.isFailure then r.awaiting.erase sentAt else r.awaiting
    unanswered := r.unanswered.erase sentAt }

/-- A `turn/started` notification, and the interrupt it may lead to. -/
def turnStarted (r : InterruptRun) (turnId : TurnId) (origin : Option Nat) : InterruptRun :=
  { r.tick (onTurnStarted r.turn turnId).1 with
    awaiting := match origin with
      | some sentAt => r.awaiting.erase sentAt
      | none => r.awaiting
    interrupts := match (onTurnStarted r.turn turnId).2 with
      | some turnId => r.interrupts ++ [⟨turnId, origin, r.clock⟩]
      | none => r.interrupts }

/-- One event, if it can come now. -/
def interruptStep (r : InterruptRun) : InterruptEvent → Option InterruptRun
  | .send steerEnabled sendIntent =>
      if shouldSteer r.turn steerEnabled sendIntent then
        some { r.tick (sendRequested r.turn) with steers := r.steers + 1 }
      else some (startSent r)
  -- a response, like a turn, belongs to a request that was made
  | .startResponse sentAt response =>
      if sentAt ∈ r.unanswered then some (startAnswered r sentAt response) else none
  | .steerResponse response =>
      if 0 < r.steers then
        some { r.tick (onSteerResponse r.turn response).1 with steers := r.steers - 1 }
      else none
  | .press => some { r.tick (interruptTurn r.turn) with presses := r.presses ++ [r.clock] }
  | .started turnId origin =>
      -- `none`: a turn that this client did not send
      if ∀ sentAt, origin = some sentAt → sentAt ∈ r.awaiting then
        some (turnStarted r turnId origin)
      else none
  | .completed turnId => some (r.tick (onTurnCompleted r.turn turnId))
  | .turnError turnId willRetry => some (r.tick (onTurnError r.turn turnId willRetry))
  | .statusChanged status => some (r.tick (onThreadStatusChanged r.turn status))
  | .closed => some (r.tick (onThreadClosed r.turn))
  | .render => some (r.tick (renderTurn r.turn))

def interruptMachine : Machine InterruptRun InterruptEvent := { init := {}, step := interruptStep }

/-- The user pressed interrupt between the send of the turn and its start. -/
def Justified (presses : List Nat) (interrupt : SentInterrupt) : Prop :=
  ∃ sentAt pressedAt, interrupt.origin = some sentAt ∧ pressedAt ∈ presses ∧ sentAt < pressedAt ∧
    pressedAt < interrupt.startedAt

/-- The condition under which the mark meets a turn that was sent before the press. -/
def MarkUsed (r : InterruptRun) : InterruptEvent → Prop
  | .press => (r.turn.shownTurnId.any fun id => !id.isEmpty) = true ∨ r.awaiting ≠ []
  -- the error paths keep the mark, so another send has to be there for it
  | .startResponse sentAt response => r.turn.pendingInterrupt = true → response.isFailure = true →
      ∃ other ∈ r.awaiting, other ≠ sentAt ∧ ∃ pressedAt ∈ r.presses, other < pressedAt
  | .started _ origin => r.turn.pendingInterrupt = true →
      ∃ oldest rest, r.awaiting = oldest :: rest ∧ origin = some oldest
  | _ => True

/-! ### The invariant -/

/-- A marked thread has a send that was made before a press and whose turn is still to
    start. -/
structure MarkInvariant (r : InterruptRun) : Prop where
  sorted : r.awaiting.Pairwise (· < ·)
  sentBefore : ∀ sentAt ∈ r.awaiting, sentAt < r.clock
  pressedBefore : ∀ pressedAt ∈ r.presses, pressedAt < r.clock
  marked : r.turn.pendingInterrupt = true →
    ∃ sentAt ∈ r.awaiting, ∃ pressedAt ∈ r.presses, sentAt < pressedAt
  justified : ∀ interrupt ∈ r.interrupts, Justified r.presses interrupt

variable {r r' : InterruptRun}

/-- An event that only changes the turn state, without setting the mark. -/
theorem markInvariant_tick (h : MarkInvariant r) {turn : TurnState}
    (hmark : turn.pendingInterrupt = true → r.turn.pendingInterrupt = true) :
    MarkInvariant (r.tick turn) where
  sorted := h.sorted
  sentBefore := fun sentAt hmem => Nat.lt_succ_of_lt (h.sentBefore sentAt hmem)
  pressedBefore := fun pressedAt hmem => Nat.lt_succ_of_lt (h.pressedBefore pressedAt hmem)
  marked := fun hm => h.marked (hmark hm)
  justified := h.justified

theorem onStartResponse_pendingInterrupt (s : TurnState) (response : TurnResponse) :
    (onStartResponse s response).1.pendingInterrupt = s.pendingInterrupt := by
  cases response with
  | rpcError message => rfl
  | threw message => rfl
  | result turnId =>
    unfold onStartResponse
    dsimp only
    split <;> rfl

theorem onSteerResponse_pendingInterrupt (s : TurnState) (response : TurnResponse) :
    (onSteerResponse s response).1.pendingInterrupt = s.pendingInterrupt := by
  unfold onSteerResponse
  split
  · dsimp only
    split <;> rfl
  · dsimp only
    split <;> rfl
  · dsimp only
    split <;> rfl

theorem onThreadStatusChanged_pendingInterrupt {s : TurnState} {status : ThreadStatusType}
    (h : (onThreadStatusChanged s status).pendingInterrupt = true) : s.pendingInterrupt = true := by
  cases status with
  | active => exact h
  | unknown => exact h
  | idle => cases h
  | notLoaded => cases h
  | systemError => cases h

theorem onTurnError_pendingInterrupt {s : TurnState} {turnId : TurnId} {willRetry : Bool}
    (h : (onTurnError s turnId willRetry).pendingInterrupt = true) : s.pendingInterrupt = true := by
  unfold onTurnError at h
  split at h
  · exact h
  · exact onTurnCompleted_pendingInterrupt s turnId h

/-- A new send is younger than those that await their turns. -/
theorem markInvariant_startSent (h : MarkInvariant r) : MarkInvariant (startSent r) := by
  have htick : MarkInvariant (r.tick (sendRequested r.turn)) := markInvariant_tick h fun hm => hm
  refine ⟨?_, fun sentAt hmem => ?_, htick.pressedBefore, fun hm => ?_, htick.justified⟩
  · exact List.pairwise_append.mpr ⟨h.sorted, List.pairwise_singleton _ _, by
      simpa using h.sentBefore⟩
  · rcases List.mem_append.mp hmem with hold | hnew
    · exact htick.sentBefore sentAt hold
    · rw [List.mem_singleton.mp hnew]
      exact Nat.lt_succ_self _
  · obtain ⟨sentAt, hmem, hpress⟩ := h.marked hm
    exact ⟨sentAt, List.mem_append_left _ hmem, hpress⟩

/-- A failing start leaves another send that was made before a press. -/
theorem markInvariant_startAnswered (h : MarkInvariant r) {sentAt : Nat} {response : TurnResponse}
    (hused : MarkUsed r (.startResponse sentAt response)) :
    MarkInvariant (startAnswered r sentAt response) := by
  have htick : MarkInvariant (r.tick (onStartResponse r.turn response).1) :=
    markInvariant_tick h fun hm => onStartResponse_pendingInterrupt r.turn response ▸ hm
  cases hfail : response.isFailure with
  -- the turn is still to start
  | false =>
    unfold startAnswered
    rw [hfail, if_neg Bool.false_ne_true]
    exact ⟨h.sorted, htick.sentBefore, htick.pressedBefore, htick.marked, htick.justified⟩
  | true =>
    unfold startAnswered
    rw [hfail, if_pos rfl]
    refine ⟨h.sorted.sublist List.erase_sublist,
      fun k hk => htick.sentBefore k (List.mem_of_mem_erase hk),
      htick.pressedBefore, fun hm => ?_, htick.justified⟩
    have hmarked : r.turn.pendingInterrupt = true :=
      (onStartResponse_pendingInterrupt r.turn response).symm.trans hm
    -- the failed send no longer counts; `MarkUsed` names another one
    obtain ⟨other, hmem, hne, hpress⟩ := hused hmarked hfail
    exact ⟨other, (List.mem_erase_of_ne hne).mpr hmem, hpress⟩

/-- A press leaves a mark only while a send, made before it, awaits its turn. -/
theorem markInvariant_press (h : MarkInvariant r) (hused : MarkUsed r .press) :
    MarkInvariant { r.tick (interruptTurn r.turn) with presses := r.presses ++ [r.clock] } := by
  refine ⟨h.sorted, fun sentAt hmem => Nat.lt_succ_of_lt (h.sentBefore sentAt hmem),
    fun pressedAt hmem => ?_, fun hm => ?_, fun interrupt hmem => ?_⟩
  · rcases List.mem_append.mp hmem with hold | hnew
    · exact Nat.lt_succ_of_lt (h.pressedBefore pressedAt hold)
    · rw [List.mem_singleton.mp hnew]
      exact Nat.lt_succ_self _
  · by_cases hknown : (r.turn.shownTurnId.any fun id => !id.isEmpty) = true
    · -- the turn is known: the mark is as it was
      have hmarked : r.turn.pendingInterrupt = true := by
        simpa [InterruptRun.tick, interruptTurn, hknown, setActiveTurnId, markProcessing] using hm
      obtain ⟨sentAt, hmem, pressedAt, hpress, hlt⟩ := h.marked hmarked
      exact ⟨sentAt, hmem, pressedAt, List.mem_append_left _ hpress, hlt⟩
    · -- the turn is not known: the mark is set now, and a send awaits its turn
      obtain ⟨sentAt, hmem⟩ := List.exists_mem_of_ne_nil _ (hused.resolve_left hknown)
      exact ⟨sentAt, hmem, r.clock, by simp, h.sentBefore sentAt hmem⟩
  · obtain ⟨sentAt, pressedAt, horigin, hpress, hlt⟩ := h.justified interrupt hmem
    exact ⟨sentAt, pressedAt, horigin, List.mem_append_left _ hpress, hlt⟩

/-- The turn of the oldest send uses up the mark. -/
theorem markInvariant_turnStarted (h : MarkInvariant r) {turnId : TurnId} {origin : Option Nat}
    (hused : MarkUsed r (.started turnId origin)) :
    MarkInvariant (turnStarted r turnId origin) := by
  have hsublist : (match origin with
      | some sentAt => r.awaiting.erase sentAt
      | none => r.awaiting).Sublist r.awaiting := by
    cases origin with
    | none => exact List.Sublist.refl _
    | some sentAt => exact List.erase_sublist
  -- whether or not it was set, the mark is down after the start
  have hunmarked : (onTurnStarted r.turn turnId).1.pendingInterrupt = false := by
    unfold onTurnStarted
    split
    · rfl
    · rename_i hmark
      split
      · simpa [markProcessing] using hmark
      · simpa using hmark
  refine ⟨h.sorted.sublist hsublist, fun sentAt hmem =>
      Nat.lt_succ_of_lt (h.sentBefore sentAt (hsublist.subset hmem)),
    fun pressedAt hmem => Nat.lt_succ_of_lt (h.pressedBefore pressedAt hmem), fun hm => ?_,
    fun interrupt hmem => ?_⟩
  · exact absurd (hunmarked.symm.trans hm) Bool.false_ne_true
  · cases hsent : (onTurnStarted r.turn turnId).2 with
    | none =>
      simp only [turnStarted, hsent] at hmem
      exact h.justified interrupt hmem
    | some target =>
      simp only [turnStarted, hsent, List.mem_append, List.mem_singleton] at hmem
      rcases hmem with hold | rfl
      · exact h.justified interrupt hold
      · -- an interrupt is sent on a marked thread only
        have hmarked : r.turn.pendingInterrupt = true := by
          by_contra hmark
          simp only [onTurnStarted, if_neg hmark] at hsent
          split at hsent <;> cases hsent
        obtain ⟨oldest, rest, hawaiting, horigin⟩ := hused hmarked
        obtain ⟨sentAt, hmem, pressedAt, hpress, hlt⟩ := h.marked hmarked
        -- the oldest send is no younger than the one the mark was made for
        have hle : oldest ≤ sentAt := by
          have hsorted := h.sorted
          rw [hawaiting] at hmem hsorted
          rcases List.mem_cons.mp hmem with rfl | hmem
          · exact le_rfl
          · exact le_of_lt ((List.pairwise_cons.mp hsorted).1 sentAt hmem)
        exact ⟨oldest, pressedAt, horigin, hpress, lt_of_le_of_lt hle hlt,
          h.pressedBefore pressedAt hpress⟩

/-! ### Runs -/

/-- **One event.** An event under `MarkUsed` keeps the invariant. -/
theorem markInvariant_step {a : InterruptEvent} (h : MarkInvariant r) (hused : MarkUsed r a)
    (hstep : interruptStep r a = some r') : MarkInvariant r' := by
  cases a with
  | send steerEnabled sendIntent =>
    simp only [interruptStep] at hstep
    split at hstep
    · cases hstep
      have htick : MarkInvariant (r.tick (sendRequested r.turn)) :=
        markInvariant_tick h fun hm => hm
      exact ⟨htick.sorted, htick.sentBefore, htick.pressedBefore, htick.marked, htick.justified⟩
    · cases hstep
      exact markInvariant_startSent h
  | startResponse sentAt response =>
    simp only [interruptStep] at hstep
    split at hstep
    · cases hstep
      exact markInvariant_startAnswered h hused
    · cases hstep
  | steerResponse response =>
    simp only [interruptStep] at hstep
    split at hstep
    · cases hstep
      have htick : MarkInvariant (r.tick (onSteerResponse r.turn response).1) :=
        markInvariant_tick h fun hm => onSteerResponse_pendingInterrupt r.turn response ▸ hm
      exact ⟨htick.sorted, htick.sentBefore, htick.pressedBefore, htick.marked, htick.justified⟩
    · cases hstep
  | press =>
    cases hstep
    exact markInvariant_press h hused
  | started turnId origin =>
    simp only [interruptStep] at hstep
    split at hstep
    · cases hstep
      exact markInvariant_turnStarted h hused
    · cases hstep
  | completed turnId =>
    cases hstep
    exact markInvariant_tick h (onTurnCompleted_pendingInterrupt r.turn turnId)
  | turnError turnId willRetry =>
    cases hstep
    exact markInvariant_tick h onTurnError_pendingInterrupt
  | statusChanged status =>
    cases hstep
    exact markInvariant_tick h onThreadStatusChanged_pendingInterrupt
  | closed =>
    cases hstep
    exact markInvariant_tick h fun hm => nomatch hm
  | render =>
    cases hstep
    exact markInvariant_tick h fun hm => hm

theorem markInvariant_initial : MarkInvariant {} where
  sorted := List.Pairwise.nil
  sentBefore := fun _ h => absurd h List.not_mem_nil
  pressedBefore := fun _ h => absurd h List.not_mem_nil
  marked := fun h => nomatch h
  justified := fun _ h => absurd h List.not_mem_nil

/-- **Interrupts are justified.** In every run whose events are under `MarkUsed`, each
    interrupt that `onTurnStarted` sends is for a turn of a send after which, and before the
    turn's start was processed, the user pressed interrupt. -/
theorem interrupts_justified_run (events : List InterruptEvent) (r : InterruptRun)
    (hused : interruptMachine.Guarded MarkUsed interruptMachine.init events)
    (hrun : interruptMachine.run interruptMachine.init events = some r) :
    ∀ interrupt ∈ r.interrupts, Justified r.presses interrupt := by
  have h : MarkInvariant r := Machine.run_invariant
    (fun _ _ _ h hu hs => markInvariant_step h hu hs) markInvariant_initial hused hrun
  exact h.justified

/-! ### A start that fails -/

/-- A send is interrupted before its turn is known and then fails to start; the next send's
    turn starts. -/
def failedStartRun : List InterruptEvent :=
  [ .send false .default, .render, .press,
    .startResponse 0 (.rpcError "overloaded".toList), .render,
    .send false .default, .started "b".toList (some 5) ]

def failedStartState : InterruptRun :=
  (interruptMachine.run interruptMachine.init failedStartRun).getD {}

/-- **The mark outlives its send.** The turn of the second send is interrupted, although the
    user pressed interrupt before that send only. -/
theorem not_justified_failedStart :
    interruptMachine.run interruptMachine.init failedStartRun = some failedStartState ∧
      failedStartState.presses = [2] ∧
      failedStartState.interrupts = [⟨"b".toList, some 5, 6⟩] ∧
      ¬ ∀ interrupt ∈ failedStartState.interrupts,
        Justified failedStartState.presses interrupt := by
  refine ⟨rfl, by decide, by decide, fun h => ?_⟩
  obtain ⟨sentAt, pressedAt, horigin, hpress, hlt, -⟩ := h ⟨"b".toList, some 5, 6⟩ (by decide)
  obtain rfl : 5 = sentAt := Option.some.inj horigin
  have hpress' : pressedAt ∈ [2] := hpress
  obtain rfl := List.mem_singleton.mp hpress'
  exact absurd hlt (by decide)

/-- A send is interrupted before its turn is known, and its turn starts. -/
def pendingRun : List InterruptEvent :=
  [ .send false .default, .press, .started "a".toList (some 0) ]

def pendingState : InterruptRun :=
  (interruptMachine.run interruptMachine.init pendingRun).getD {}

/-- `interrupts_justified_run` at `pendingRun`. -/
theorem interrupts_justified_pendingRun :
    pendingState.interrupts = [⟨"a".toList, some 0, 2⟩] ∧
      ∀ interrupt ∈ pendingState.interrupts, Justified pendingState.presses interrupt := by
  refine ⟨by decide, interrupts_justified_run pendingRun pendingState ?_ rfl⟩
  refine ⟨trivial, fun _ h => ?_⟩
  cases h
  refine ⟨.inr (by decide), fun _ h => ?_⟩
  cases h
  exact ⟨fun _ => ⟨0, [], rfl, rfl⟩, fun _ _ => trivial⟩

end CodexMonitor.Threads
