import CodexMonitor.Threads.TurnEvents

namespace CodexMonitor.Threads

/-!
# Threads — the turn state settles

Turns run one after another on a thread.  The server announces the start and the end of each
in order; a turn that the client asked for also has a `turn/start` response, which may
arrive at any time after the request, and renders happen at any time (`turnRunMachine`).

A response that comes after its turn has completed writes a finished turn into the reducer,
and nothing takes it out again.  If each response comes before the completion of its turn
(`TimelyResponse`), the state settles: `turnState_settles`.
-/

/-! ### The messages about a thread's turns -/

/-- The turn state, and how far the messages about the turns have come. -/
structure TurnRun where
  turn : TurnState := {}
  running : Option TurnId := none
  requested : List TurnId := []
  responded : List TurnId := []
  finished : List TurnId := []

inductive TurnMessage where
  | request (turnId : TurnId)
  | response (turnId : TurnId)
  | started (turnId : TurnId)
  | completed (turnId : TurnId)
  | render
  deriving DecidableEq, Repr

/-- The turn a message is about. -/
def TurnMessage.turn? : TurnMessage → Option TurnId
  | .request turnId => some turnId
  | .response turnId => some turnId
  | .started turnId => some turnId
  | .completed turnId => some turnId
  | .render => none

/-- One message, if it can come now: a turn is requested before it starts, starts when no
    other runs, completes while it runs, and has one response, after its request. -/
def turnRunStep (r : TurnRun) : TurnMessage → Option TurnRun
  | .request turnId =>
      if turnId ≠ [] ∧ turnId ∉ r.requested ∧ turnId ∉ r.finished ∧ r.running ≠ some turnId then
        some { r with turn := sendRequested r.turn, requested := r.requested ++ [turnId] }
      else none
  | .response turnId =>
      -- the response may come late: before the start, during the turn or after it
      if turnId ∈ r.requested ∧ turnId ∉ r.responded then
        some { r with
          turn := (onStartResponse r.turn (.result turnId)).1
          responded := r.responded ++ [turnId] }
      else none
  | .started turnId =>
      if turnId ≠ [] ∧ r.running = none ∧ turnId ∉ r.finished then
        some { r with turn := (onTurnStarted r.turn turnId).1, running := some turnId }
      else none
  | .completed turnId =>
      if r.running = some turnId then
        some { r with
          turn := onTurnCompleted r.turn turnId
          running := none
          finished := r.finished ++ [turnId] }
      else none
  | .render => some { r with turn := renderTurn r.turn }

def turnRunMachine : Machine TurnRun TurnMessage := { init := {}, step := turnRunStep }

/-- Every message has been processed: no turn runs, and each requested turn has had its
    response and has completed. -/
def AllProcessed (r : TurnRun) : Prop :=
  r.running = none ∧ ∀ turnId ∈ r.requested, turnId ∈ r.responded ∧ turnId ∈ r.finished

/-- A response comes before its turn has completed. -/
def TimelyResponse (r : TurnRun) : TurnMessage → Prop
  | .response turnId => turnId ∉ r.finished
  | _ => True

/-! ### The invariant -/

/-- The refs know the turn `turnId`: they were set when it started, and the reducer has held
    nothing else since. -/
structure Knows (s : TurnState) (turnId : TurnId) : Prop where
  active : s.activeTurnId = some turnId
  optimistic : s.hasOptimistic = true
  immediate : s.immediate = some (some turnId)
  shown : ∃ last, s.lastReducer = some last ∧ (s.shownTurnId = last ∨ s.shownTurnId = some turnId)

/-- With no other turn on its way, a running turn is known, and between turns the thread is
    idle. -/
structure TurnInvariant (r : TurnRun) : Prop where
  unmarked : r.turn.pendingInterrupt = false
  named : ∀ turnId ∈ r.requested, turnId ≠ []
  runningNew : ∀ turnId, r.running = some turnId → turnId ∉ r.finished
  known : ∀ turnId, r.running = some turnId →
    (∀ other ∈ r.requested, other ≠ turnId → other ∈ r.finished) → Knows r.turn turnId
  idle : r.running = none → (∀ turnId ∈ r.requested, turnId ∈ r.finished) →
    r.turn.isProcessing = false ∧ r.turn.activeTurnId = none

variable {r r' : TurnRun}

theorem turnInvariant_initial : TurnInvariant {} where
  unmarked := rfl
  named := fun _ h => absurd h List.not_mem_nil
  runningNew := fun _ h => by cases h
  known := fun _ h => by cases h
  idle := fun _ _ => ⟨rfl, rfl⟩

theorem onStartResponse_result {s : TurnState} {turnId : TurnId} (h : turnId ≠ []) :
    (onStartResponse s (.result turnId)).1 = setActiveTurnId s (some turnId) := by
  have hne : turnId.isEmpty = false := by simpa using h
  simp [onStartResponse, hne]

theorem onTurnStarted_unmarked {s : TurnState} {turnId : TurnId}
    (hmark : s.pendingInterrupt = false) (h : turnId ≠ []) :
    (onTurnStarted s turnId).1 = { s with
      isProcessing := true
      lastReducer := some s.shownTurnId
      hasOptimistic := true
      immediate := some (some turnId)
      activeTurnId := some turnId } := by
  have hne : turnId.isEmpty = false := by simpa using h
  simp [onTurnStarted, hmark, hne]

/-- **One message.** A timely message keeps the invariant. -/
theorem turnInvariant_step {a : TurnMessage} (h : TurnInvariant r) (htimely : TimelyResponse r a)
    (hstep : turnRunStep r a = some r') : TurnInvariant r' := by
  cases a with
  | request turnId =>
    simp only [turnRunStep] at hstep
    split at hstep
    · rename_i hok
      obtain ⟨hname, -, hnew, hnotRunning⟩ := hok
      cases hstep
      -- the requested turn is on its way, so nothing is claimed of the turn state
      refine ⟨h.unmarked, ?_, h.runningNew, fun turn hrunning hall => ?_, fun hnone hall => ?_⟩
      · intro turn hmem
        rcases List.mem_append.mp hmem with hold | hlast
        · exact h.named turn hold
        · rw [List.mem_singleton.mp hlast]
          exact hname
      · have hne : turnId ≠ turn := fun he => hnotRunning (he ▸ hrunning)
        exact absurd (hall turnId (by simp) hne) hnew
      · exact absurd (hall turnId (by simp)) hnew
    · cases hstep
  | response turnId =>
    simp only [turnRunStep] at hstep
    split at hstep
    · rename_i hok
      cases hstep
      have hset := onStartResponse_result (s := r.turn) (h.named turnId hok.1)
      refine ⟨?_, h.named, h.runningNew, fun turn hrunning hall => ?_, fun hnone hall => ?_⟩
      · rw [hset]
        exact h.unmarked
      · -- the response can only be that of the running turn
        obtain rfl : turnId = turn := by
          by_contra hne
          exact htimely (hall turnId hok.1 hne)
        obtain ⟨-, hopt, himm, hshown⟩ := h.known turnId hrunning hall
        rw [hset]
        exact ⟨rfl, hopt, himm, hshown⟩
      · -- were all requested turns finished, this response would be late
        exact absurd (hall turnId hok.1) htimely
    · cases hstep
  | started turnId =>
    simp only [turnRunStep] at hstep
    split at hstep
    · rename_i hok
      obtain ⟨hname, -, hnew⟩ := hok
      cases hstep
      rw [onTurnStarted_unmarked h.unmarked hname]
      refine ⟨h.unmarked, h.named, fun turn hrunning => ?_, fun turn hrunning _ => ?_,
        fun hnone => ?_⟩
      · obtain rfl : turnId = turn := Option.some.inj hrunning
        exact hnew
      · obtain rfl : turnId = turn := Option.some.inj hrunning
        exact ⟨rfl, rfl, rfl, r.turn.shownTurnId, rfl, .inl rfl⟩
      · cases hnone
    · cases hstep
  | completed turnId =>
    simp only [turnRunStep] at hstep
    split at hstep
    · rename_i hrunning
      cases hstep
      refine ⟨?_, h.named, (fun turn hnone => nomatch hnone), (fun turn hnone => nomatch hnone),
        fun _ hall => ?_⟩
      · by_contra hmarked
        have := onTurnCompleted_pendingInterrupt r.turn turnId (by simpa using hmarked)
        rw [h.unmarked] at this
        cases this
      · have hothers : ∀ other ∈ r.requested, other ≠ turnId → other ∈ r.finished := by
          intro other hmem hne
          exact (List.mem_append.mp (hall other hmem)).resolve_right fun hlast =>
            hne (List.mem_singleton.mp hlast)
        -- the refs know the turn, so its completion is not taken for another's
        obtain ⟨-, hopt, himm, last, hlast, hshown⟩ := h.known turnId hrunning hothers
        exact onTurnCompleted_of_known r.turn
          (getLatest_of_optimistic r.turn hopt himm hlast hshown)
    · cases hstep
  | render =>
    cases hstep
    refine ⟨h.unmarked, h.named, h.runningNew, fun turn hrunning hall => ?_, h.idle⟩
    -- what is shown from now on is the active turn
    obtain ⟨hactive, hopt, himm, last, hlast, -⟩ := h.known turn hrunning hall
    exact ⟨hactive, hopt, himm, last, hlast, .inr hactive⟩

/-- While a turn runs, a message about a finished one neither ends the processing nor clears
    the active turn. -/
theorem finished_message_harmless (h : TurnInvariant r) {a : TurnMessage} {turnId other : TurnId}
    (hrunning : r.running = some turnId) (habout : a.turn? = some other)
    (hfinished : other ∈ r.finished) (hstep : turnRunStep r a = some r') :
    (r.turn.isProcessing = true → r'.turn.isProcessing = true) ∧
      (r.turn.activeTurnId ≠ none → r'.turn.activeTurnId ≠ none) := by
  cases a with
  | request t =>
    simp only [turnRunStep] at hstep
    split at hstep
    · cases hstep
      exact ⟨fun _ => rfl, fun hne => hne⟩
    · cases hstep
  | response t =>
    simp only [turnRunStep] at hstep
    split at hstep
    · rename_i hok
      cases hstep
      rw [onStartResponse_result (h.named t hok.1)]
      exact ⟨fun hp => hp, fun _ => Option.some_ne_none t⟩
    · cases hstep
  | started t =>
    simp only [turnRunStep] at hstep
    split at hstep
    · rename_i hok
      -- no turn starts while another runs
      rw [hrunning] at hok
      cases hok.2.1
    · cases hstep
  | completed t =>
    simp only [turnRunStep] at hstep
    split at hstep
    · rename_i hrunning'
      -- the turn that completes is the running one, which has not finished
      cases habout
      exact absurd hfinished (h.runningNew other hrunning')
    · cases hstep
  | render => cases habout

/-- **The turn state settles.** In every run in which each response comes before its turn
    has completed: once all messages are processed, the thread is not processing and has no
    active turn; and while a turn runs, no message about an earlier one ends the processing
    or clears the active turn. -/
theorem turnState_settles (messages : List TurnMessage) (r : TurnRun)
    (htimely : turnRunMachine.Guarded TimelyResponse turnRunMachine.init messages)
    (hrun : turnRunMachine.run turnRunMachine.init messages = some r) :
    (AllProcessed r → r.turn.isProcessing = false ∧ r.turn.activeTurnId = none) ∧
      ∀ a turnId other r', r.running = some turnId → a.turn? = some other → other ∈ r.finished →
        turnRunStep r a = some r' →
        (r.turn.isProcessing = true → r'.turn.isProcessing = true) ∧
          (r.turn.activeTurnId ≠ none → r'.turn.activeTurnId ≠ none) := by
  have h : TurnInvariant r := Machine.run_invariant
    (fun _ _ _ h ht hs => turnInvariant_step h ht hs) turnInvariant_initial htimely hrun
  refine ⟨fun hall => h.idle hall.1 fun turnId hmem => (hall.2 turnId hmem).2, ?_⟩
  intro a turnId other r' hrunning habout hfinished hstep
  exact finished_message_harmless h hrunning habout hfinished hstep

/-! ### A late response -/

/-- The response for the turn `a` arrives while the turn `b` runs, and is rendered. -/
def lateResponseRun : List TurnMessage :=
  [ .request "a".toList, .started "a".toList, .completed "a".toList,
    .request "b".toList, .started "b".toList, .response "b".toList, .response "a".toList,
    .render, .completed "b".toList ]

def lateResponseState : TurnRun :=
  (turnRunMachine.run turnRunMachine.init lateResponseRun).getD {}

/-- **A late response sticks.** Everything is processed, but the completion of `b` was taken
    for another turn's: the thread keeps processing, with the finished turn `a` active. -/
theorem not_settled_lateResponse :
    turnRunMachine.run turnRunMachine.init lateResponseRun = some lateResponseState ∧
      AllProcessed lateResponseState ∧
      lateResponseState.turn.isProcessing = true ∧
      lateResponseState.turn.activeTurnId = some "a".toList :=
  ⟨rfl, ⟨by decide, by decide⟩, by decide, by decide⟩

/-- The responses come in time. -/
def timelyRun : List TurnMessage :=
  [ .request "a".toList, .started "a".toList, .response "a".toList, .render,
    .completed "a".toList ]

def timelyState : TurnRun := (turnRunMachine.run turnRunMachine.init timelyRun).getD {}

/-- `turnState_settles` at `timelyRun`. -/
theorem turnState_settles_timelyRun :
    AllProcessed timelyState ∧ timelyState.turn.isProcessing = false ∧
      timelyState.turn.activeTurnId = none := by
  have hall : AllProcessed timelyState := ⟨by decide, by decide⟩
  refine ⟨hall, (turnState_settles timelyRun timelyState ?_ rfl).1 hall⟩
  refine ⟨trivial, fun _ h => ?_⟩
  cases h
  refine ⟨trivial, fun _ h => ?_⟩
  cases h
  refine ⟨List.not_mem_nil, fun _ h => ?_⟩
  cases h
  refine ⟨trivial, fun _ h => ?_⟩
  cases h
  exact ⟨trivial, fun _ _ => trivial⟩

end CodexMonitor.Threads
