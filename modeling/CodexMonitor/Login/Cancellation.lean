import CodexMonitor.Login.Attempts

namespace CodexMonitor.Login

open Text Approvals Remote

/-!
# Login — cancellation hits its target

An attempt may be told that it is cancelled only by a cancel or by a newer attempt, and an
idle workspace has no pending start.  Both fail when an attempt removes or replaces the
entry of another one, or returns without removing its own; in the runs without such a step
both hold.

* `Overtaken` — something was issued after the attempt started.
* `Inv` — the invariant; `Stage.Meets` says what holds of an attempt at its stage.
* `canceled_only_if_overtaken` — the runs.
-/

/-- Something was issued after the attempt `i` started. -/
def Overtaken (history : List Event) (i : Nat) : Prop :=
  ∃ e, [Event.login i, e].Sublist history

theorem Overtaken.append {history : List Event} {i : Nat} (h : Overtaken history i) (e : Event) :
    Overtaken (history ++ [e]) i := by
  obtain ⟨e', he'⟩ := h
  exact ⟨e', he'.trans (List.sublist_append_left _ _)⟩

/-- What is issued now is issued after every start there was. -/
theorem overtaken_of_mem {history : List Event} {i : Nat} (h : Event.login i ∈ history)
    (e : Event) : Overtaken (history ++ [e]) i :=
  ⟨e, (List.singleton_sublist.mpr h).append (List.Sublist.refl [e])⟩

theorem Overtaken.mem {history : List Event} {i : Nat} (h : Overtaken history i) :
    Event.login i ∈ history := by
  obtain ⟨e, he⟩ := h
  exact he.subset (List.mem_cons_self ..)

/-- The attempt has registered its sender and has not returned. -/
def Stage.Pending : Stage → Prop
  | .checking | .requesting | .canceling | .expiring | .storing .. => True
  | .connecting | .registering | .returned _ => False

/-- The attempt has registered its sender. -/
def Stage.Started : Stage → Prop
  | .connecting | .registering | .returned .notConnected => False
  | _ => True

/-- What holds of the attempt `i` at a stage: until it returns it has its entry or is
    overtaken, and it is cancelled only when overtaken. -/
def Stage.Meets (entry : Option CancelState) (history : List Event) (i : Nat) : Stage → Prop
  | .checking | .requesting | .expiring | .storing .. =>
      Event.login i ∈ history ∧ (entry = some (.pendingStart i) ∨ Overtaken history i)
  | .canceling | .returned .canceled => Overtaken history i
  | .connecting | .registering | .returned _ => True

/-- What another attempt does to the entry and to the history. -/
theorem Stage.Meets.mono {entry entry' : Option CancelState} {history : List Event} {i : Nat}
    {st : Stage} (events : List Event) (h : st.Meets entry history i)
    (hkept : Event.login i ∈ history → entry = some (.pendingStart i) →
      entry' = some (.pendingStart i) ∨ Overtaken (history ++ events) i) :
    st.Meets entry' (history ++ events) i := by
  have hover : Overtaken history i → Overtaken (history ++ events) i := by
    rintro ⟨e, he⟩
    exact ⟨e, he.trans (List.sublist_append_left _ _)⟩
  have hwait : Event.login i ∈ history ∧ (entry = some (.pendingStart i) ∨ Overtaken history i) →
      Event.login i ∈ history ++ events ∧
        (entry' = some (.pendingStart i) ∨ Overtaken (history ++ events) i) := by
    rintro ⟨hmem, hentry | hold⟩
    · exact ⟨List.mem_append_left _ hmem, hkept hmem hentry⟩
    · exact ⟨List.mem_append_left _ hmem, .inr (hover hold)⟩
  cases st with
  | connecting | registering => trivial
  | checking | requesting | expiring | storing => exact hwait h
  | canceling => exact hover h
  | returned outcome =>
    cases outcome with
    | canceled => exact hover h
    | notConnected | timedOut | failed | started => trivial

namespace Logins

variable {s s' : Logins} {i j : Nat} {st st' : Stage}

/-- The invariant of the runs in which the attempts touch no entry but their own. -/
structure Inv (s : Logins) : Prop where
  started : ∀ i, Event.login i ∈ s.history → ∃ st, s.attempts i = some st ∧ st.Started
  pending : ∀ i, s.entry = some (.pendingStart i) → ∃ st, s.attempts i = some st ∧ st.Pending
  signalled : ∀ i, s.signalled i = true → Overtaken s.history i
  stages : s.attempts.Each fun i st => st.Meets s.entry s.history i

/-! ### Steps of an attempt -/

theorem started_set (h : ∀ i, Event.login i ∈ s.history → ∃ st, s.attempts i = some st ∧ st.Started)
    (hi : Event.login i ∈ s.history → st.Started) (k : Nat) (hk : Event.login k ∈ s.history) :
    ∃ u, s.attempts.set i st k = some u ∧ u.Started := by
  refine Tasks.exists_set (h k hk) ?_
  rintro rfl _ _ _
  exact hi hk

/-- An attempt moves on without touching the entry. -/
theorem Inv.advance (h : s.Inv) (hmeets : st.Meets s.entry s.history i)
    (hstarted : Event.login i ∈ s.history → st.Started)
    (hpending : s.entry = some (.pendingStart i) → st.Pending) : Inv (s.moveAttempt i st) where
  started := started_set h.started hstarted
  pending := by
    intro k hk
    refine Tasks.exists_set (h.pending k hk) ?_
    rintro rfl _ _ _
    exact hpending hk
  signalled := h.signalled
  stages := h.stages.set_same hmeets

/-- An attempt returns and leaves no pending start behind. -/
theorem Inv.finish (h : s.Inv) {entry : Option CancelState}
    (hown : ∀ k, s.entry = some (.pendingStart k) → k = i)
    (hentry : ∀ k, entry ≠ some (.pendingStart k))
    (hmeets : st.Meets entry s.history i) (hstarted : st.Started) :
    Inv ({ s with entry := entry }.moveAttempt i st) where
  started := started_set h.started fun _ => hstarted
  pending := fun k hk => absurd hk (hentry k)
  signalled := h.signalled
  stages := by
    refine h.stages.set hmeets ?_
    intro k u hki _ hu
    rw [← List.append_nil s.history]
    apply hu.mono []
    intro _ hk
    exact absurd (hown k hk) hki

/-- Using the sender of the entry tells only an attempt that is overtaken. -/
theorem Inv.signal_overtaken (h : s.Inv) (e : Event) (k : Nat)
    (hk : s.signal.signalled k = true) : Overtaken (s.history ++ [e]) k := by
  unfold Logins.signal at hk
  split at hk
  next i hentry =>
    by_cases hki : k = i
    · subst hki
      obtain ⟨st, hst, hpending⟩ := h.pending k hentry
      have hmeets := h.stages k st hst
      have hmem : Event.login k ∈ s.history := by
        cases st with
        | checking | requesting | expiring | storing => exact hmeets.1
        | canceling => exact Overtaken.mem hmeets
        | connecting | registering | returned => exact hpending.elim
      exact overtaken_of_mem hmem e
    · simp only [Function.update_of_ne hki] at hk
      exact (h.signalled k hk).append e
  next => exact (h.signalled k hk).append e

theorem signal_attempts (s : Logins) : s.signal.attempts = s.attempts := by
  unfold Logins.signal
  split <;> rfl

/-- An attempt starts: it overtakes the attempts before it. -/
theorem Inv.register (h : s.Inv) (hst : s.attempts i = some .registering) :
    Inv ({ s.signal with
      entry := some (.pendingStart i)
      history := s.history ++ [Event.login i] }.moveAttempt i .checking) where
  started := by
    intro k hk
    show ∃ u, s.signal.attempts.set i .checking k = some u ∧ u.Started
    by_cases hki : k = i
    · subst hki
      exact ⟨_, Tasks.set_self, trivial⟩
    · have hmem : Event.login k ∈ s.history := by
        rcases List.mem_append.mp hk with hmem | hnew
        · exact hmem
        · rw [List.mem_singleton] at hnew
          injection hnew with hnew
          exact absurd hnew hki
      rw [signal_attempts]
      exact Tasks.exists_set_of_ne (h.started k hmem) hki
  pending := by
    rintro k ⟨⟩
    exact ⟨.checking, Tasks.set_self, trivial⟩
  signalled := h.signal_overtaken (Event.login i)
  stages := by
    show (s.signal.attempts.set i .checking).Each _
    rw [signal_attempts]
    refine h.stages.set ?_ ?_
    · exact ⟨List.mem_append_right _ (List.mem_singleton_self _), .inl rfl⟩
    · intro k u _ _ hu
      apply hu.mono
      intro hmem _
      exact .inr (overtaken_of_mem hmem _)

/-- A cancel takes the entry: it overtakes every attempt. -/
theorem Inv.take (h : s.Inv) (st : CancelStage) :
    Inv ({ s.signal with
      entry := none, history := s.history ++ [Event.cancel] }.moveCancel j st) where
  started := by
    intro k hk
    show ∃ u, s.signal.attempts k = some u ∧ u.Started
    rw [signal_attempts]
    apply h.started
    rcases List.mem_append.mp hk with hmem | hnew
    · exact hmem
    · rw [List.mem_singleton] at hnew
      cases hnew
  pending := nofun
  signalled := h.signal_overtaken Event.cancel
  stages := by
    show s.signal.attempts.Each _
    rw [signal_attempts]
    refine h.stages.mono ?_
    intro k u _ hu
    apply hu.mono
    intro hmem _
    exact .inr (overtaken_of_mem hmem _)

theorem Inv.moveCancel (h : s.Inv) (st : CancelStage) : Inv (s.moveCancel j st) :=
  ⟨h.started, h.pending, h.signalled, h.stages⟩

/-- A response with which the attempt returns at once. -/
def Refused (response : Except Text Json) : Prop :=
  ∃ error, response.bind readStart = .error error

/-- An attempt removes or replaces no pending start but its own, and does not return with a
    refused request while its own is still there. -/
def OwnEntry (s : Logins) : Action → Prop
  | .login i .unregister | .login i .store => ∀ k, s.entry = some (.pendingStart k) → k = i
  | .login i (.respond response) => Refused response → s.entry ≠ some (.pendingStart i)
  | _ => True

/-- An attempt that has not started is not in the history. -/
theorem Inv.not_mem_history (h : s.Inv) (hst : s.attempts i = some st) (hnot : ¬ st.Started) :
    Event.login i ∉ s.history := by
  intro hmem
  obtain ⟨u, hu, hstarted⟩ := h.started i hmem
  obtain rfl : st = u := Option.some.inj (hst.symm.trans hu)
  exact hnot hstarted

theorem Inv.entry_ne (h : s.Inv) (hst : s.attempts i = some st) (hnot : ¬ st.Pending) :
    s.entry ≠ some (.pendingStart i) := by
  intro hentry
  obtain ⟨u, hu, hpending⟩ := h.pending i hentry
  obtain rfl : st = u := Option.some.inj (hst.symm.trans hu)
  exact hnot hpending

/-- An attempt moves on before it starts. -/
theorem Inv.prepare (h : s.Inv) (hst : s.attempts i = some .connecting)
    (hmeets : st.Meets s.entry s.history i) : Inv (s.moveAttempt i st) :=
  h.advance hmeets (fun hmem => absurd hmem (h.not_mem_history hst id))
    fun hentry => absurd hentry (h.entry_ne hst id)

/-- **Steps of an attempt.** An attempt that touches no entry but its own keeps the
    invariant. -/
theorem Inv.stepLogin (h : s.Inv) {step : LoginStep} (hguard : s.OwnEntry (.login i step))
    (hstep : s.stepLogin i step = some s') : s'.Inv := by
  unfold Logins.stepLogin at hstep
  split at hstep
  next hnone =>
    cases hstep
    refine h.advance trivial ?_ ?_
    · intro hmem
      obtain ⟨u, hu, _⟩ := h.started i hmem
      rw [hnone] at hu
      cases hu
    · intro hentry
      obtain ⟨u, hu, _⟩ := h.pending i hentry
      rw [hnone] at hu
      cases hu
  next hst =>
    cases hstep
    exact h.prepare hst trivial
  next hst =>
    cases hstep
    exact h.prepare hst trivial
  next hst =>
    cases hstep
    exact h.register hst
  next elapsed hst =>
    have hmeets := h.stages i _ hst
    split at hstep
    next hseen =>
      cases hstep
      refine h.advance ?_ (fun _ => trivial) fun _ => trivial
      -- the sender was used, or it is no longer in the map
      rcases Bool.or_eq_true_iff.mp hseen with hsig | hgone
      · exact h.signalled i hsig
      · exact hmeets.2.resolve_left (bne_iff_ne.mp hgone)
    next =>
      split at hstep <;> cases hstep
      · exact h.advance hmeets (fun _ => trivial) fun _ => trivial
      · exact h.advance hmeets (fun _ => trivial) fun _ => trivial
  next hst =>
    cases hstep
    have hmeets := h.stages i _ hst
    exact h.advance hmeets (fun _ => trivial) fun _ => trivial
  next error hst =>
    cases hstep
    exact h.advance trivial (fun _ => trivial) fun hentry => absurd hentry (hguard ⟨error, rfl⟩)
  next response hst =>
    split at hstep <;> cases hstep
    next error hread =>
      exact h.advance trivial (fun _ => trivial) fun hentry =>
        absurd hentry (hguard ⟨error, hread⟩)
    next loginId authUrl _ =>
      have hmeets := h.stages i _ hst
      exact h.advance hmeets (fun _ => trivial) fun _ => trivial
  next hst =>
    cases hstep
    exact h.finish hguard nofun (h.stages i _ hst) trivial
  next hst =>
    cases hstep
    exact h.finish hguard nofun trivial trivial
  next hst =>
    cases hstep
    exact h.finish hguard nofun trivial trivial
  next => cases hstep

/-- **Steps of a cancel.** A cancel keeps the invariant. -/
theorem Inv.stepCancel (h : s.Inv) {step : CancelStep}
    (hstep : s.stepCancel j step = some s') : s'.Inv := by
  unfold Logins.stepCancel at hstep
  split at hstep
  · cases hstep
    exact h.moveCancel _
  · dsimp only at hstep
    split at hstep <;> cases hstep <;> exact h.take _
  · cases hstep
    exact h.moveCancel _
  · cases hstep
    exact h.moveCancel _
  · cases hstep

theorem Inv.init : Inv {} :=
  ⟨nofun, nofun, nofun, Tasks.Each.idle⟩

/-- The invariant along a run. -/
theorem Inv.run {actions : List Action} (hguard : loginMachine.Guarded OwnEntry {} actions)
    (hrun : loginMachine.run {} actions = some s) : s.Inv := by
  refine Machine.run_invariant ?_ Inv.init hguard hrun
  intro s a s' h hg hstep
  cases a with
  | login i step => exact h.stepLogin hg hstep
  | cancel j step => exact h.stepCancel hstep

/-- The attempt has seen that it is cancelled. -/
def Canceled (s : Logins) (i : Nat) : Prop :=
  s.attempts i = some .canceling ∨ s.attempts i = some (.returned .canceled)

/-- No attempt has started after `i`. -/
def Newest (s : Logins) (i : Nat) : Prop :=
  ∀ j, ¬ [Event.login i, Event.login j].Sublist s.history

/-- Every attempt has returned. -/
def NoLoginRunning (s : Logins) : Prop := s.attempts.Each fun _ st => ∃ o, st = .returned o

end Logins

open Logins

/-- **Cancellation hits only its target.** In every run in which the attempts remove and
    replace no pending start but their own, and always their own: an attempt is cancelled
    only after something was issued behind its start, the newest one only after a cancel, and
    without a running attempt no start is pending. -/
theorem canceled_only_if_overtaken (actions : List Action) (s : Logins)
    (hguard : loginMachine.Guarded OwnEntry loginMachine.init actions)
    (hrun : loginMachine.run loginMachine.init actions = some s) :
    (∀ i, s.Canceled i → (∃ e, [Event.login i, e].Sublist s.history) ∧
      (s.Newest i → [Event.login i, Event.cancel].Sublist s.history)) ∧
    (s.NoLoginRunning → ∀ i, s.entry ≠ some (.pendingStart i)) := by
  have h : s.Inv := Inv.run hguard hrun
  constructor
  · intro i hcanceled
    have hover : Overtaken s.history i := by
      rcases hcanceled with hst | hst
      · exact h.stages i _ hst
      · exact h.stages i _ hst
    refine ⟨hover, ?_⟩
    intro hnewest
    obtain ⟨e, he⟩ := hover
    cases e with
    | login j => exact absurd he (hnewest j)
    | cancel => exact he
  · intro hidle i hentry
    obtain ⟨st, hst, hpending⟩ := h.pending i hentry
    obtain ⟨o, rfl⟩ := hidle i st hst
    exact hpending

/-- An attempt starts. -/
def startLogin (i : Nat) : List Action :=
  [.login i .start, .login i (.connect true), .login i .register]

/-- An attempt that is cancelled while it waits. -/
def canceledRun : List Action :=
  startLogin 0 ++ [.login 0 (.check false), .cancel 0 .start, .cancel 0 .take, .login 0 .tick,
    .login 0 (.check false), .login 0 .unregister]

theorem canceledRun_ownEntry : loginMachine.Guarded OwnEntry loginMachine.init canceledRun := by
  refine ⟨trivial, ?_⟩
  rintro _ ⟨⟩
  refine ⟨trivial, ?_⟩
  rintro _ ⟨⟩
  refine ⟨trivial, ?_⟩
  rintro _ ⟨⟩
  refine ⟨trivial, ?_⟩
  rintro _ ⟨⟩
  refine ⟨trivial, ?_⟩
  rintro _ ⟨⟩
  refine ⟨trivial, ?_⟩
  rintro _ ⟨⟩
  refine ⟨trivial, ?_⟩
  rintro _ ⟨⟩
  refine ⟨trivial, ?_⟩
  rintro _ ⟨⟩
  -- the cancel has taken the entry before the attempt removes it
  exact ⟨nofun, fun _ _ => trivial⟩

/-- A run that meets the condition, with a cancelled attempt. -/
theorem canceled_canceledRun :
    ∃ s, loginMachine.run loginMachine.init canceledRun = some s ∧ s.Canceled 0 ∧
      (∃ e, [Event.login 0, e].Sublist s.history) := by
  obtain ⟨s, hrun, hcanceled⟩ : ∃ s, loginMachine.run loginMachine.init canceledRun = some s ∧
      s.Canceled 0 := ⟨_, rfl, .inr rfl⟩
  have h := canceled_only_if_overtaken canceledRun s canceledRun_ownEntry hrun
  exact ⟨s, hrun, hcanceled, (h.1 0 hcanceled).1⟩

/-- Two attempts: the first is told of the second and removes the entry of the second. -/
def overlappingRun : List Action :=
  startLogin 0 ++ startLogin 1 ++ [.login 0 (.check false), .login 0 .unregister,
    .login 1 (.check false), .login 1 .unregister]

/-- One attempt, whose request fails. -/
def refusedRun : List Action :=
  startLogin 0 ++ [.login 0 (.check false),
    .login 0 (.respond (.error "request timed out".toList))]

/-- **Cancellation hits another attempt.** The newest of two attempts returns as cancelled
    though no cancel was issued; and an attempt whose request failed leaves a pending start
    behind. -/
theorem overlapping_and_refused :
    (∃ s, loginMachine.run loginMachine.init overlappingRun = some s ∧
      s.attempts 1 = some (.returned .canceled) ∧
      s.history = [Event.login 0, Event.login 1]) ∧
    (∃ s, loginMachine.run loginMachine.init refusedRun = some s ∧
      s.NoLoginRunning ∧ s.entry = some (.pendingStart 0)) := by
  refine ⟨⟨_, rfl, rfl, rfl⟩, ⟨_, rfl, ?_, rfl⟩⟩
  show Tasks.Each _ (Tasks.set _ 0 (Stage.returned (.failed "request timed out".toList)))
  refine Tasks.Each.set_alone ⟨_, rfl⟩ ?_
  intro j hj
  simp [hj, loginMachine, Logins.moveAttempt, Logins.signal]

end CodexMonitor.Login
