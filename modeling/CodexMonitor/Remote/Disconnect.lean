import CodexMonitor.Remote.Connection

namespace CodexMonitor.Remote

open Text Approvals

/-!
# Remote — calls on a dead connection

Once the connection is down and the tasks that took it down have handed out the disconnect
error, no call may be left waiting.  A call that was registered behind the last drain and
whose request the outbound queue still accepts is left waiting; in the runs without such a
step none is.

* `Inv` — the invariant; `Inv.answered` says that a waiting call is registered or answered,
  `Inv.down` that behind the last drain only calls before their wait are registered.
* `Inv.stepCall`, `Inv.stepIo` — the invariant is kept.
* `pending_empty_of_disconnected` — the runs.
-/

/-! ### What a stage says about the request -/

/-- The number that the call has drawn. -/
def Stage.requestId : Stage → Option Nat
  | .tested id _ _ | .sending id _ | .withdrawing id _ | .waiting id | .expiring id => some id
  | .returned _ => none

/-- The number under which the call may be registered. -/
def Stage.registration : Stage → Option Nat
  | .sending id _ | .withdrawing id _ | .waiting id | .expiring id => some id
  | .tested .. | .returned _ => none

/-- The number whose response the call will wait for, or waits for. -/
def Stage.awaits : Stage → Option Nat
  | .sending id _ | .waiting id => some id
  | .tested .. | .withdrawing .. | .expiring _ | .returned _ => none

/-- The call is past its registration. -/
def Stage.Registered : Stage → Prop
  | .tested .. => False
  | _ => True

theorem Stage.requestId_of_registration {st : Stage} {id : Nat} (h : st.registration = some id) :
    st.requestId = some id := by
  cases st <;> simp_all [Stage.registration, Stage.requestId]

theorem Stage.registered_of_registration {st : Stage} {id : Nat}
    (h : st.registration = some id) : st.Registered := by
  cases st <;> simp_all [Stage.registration, Stage.Registered]

theorem Stage.registration_of_awaits {st : Stage} {id : Nat} (h : st.awaits = some id) :
    st.registration = some id := by
  cases st <;> simp_all [Stage.registration, Stage.awaits]

/-- The delivery is the response to the request `id`, or the disconnect error. -/
def Delivery.Answers (id : Nat) : Delivery → Prop
  | .response id' _ => id' = id
  | .disconnected => True

namespace Conn

variable {s s' : Conn} {c : Nat} {st st' : Stage} {id : Nat}

/-- One of the two tasks is inside `mark_disconnected`. -/
def Marking (s : Conn) : Prop := s.reader = .marking ∨ s.writer = .marking

instance : Decidable s.Marking := inferInstanceAs (Decidable (_ ∨ _))

/-- The invariant of the runs without a request accepted behind the last drain. -/
structure Inv (s : Conn) : Prop where
  issued : s.calls.Each fun _ st => ∀ id, st.requestId = some id → id < s.nextId
  distinct : s.calls.Distinct Stage.requestId
  /-- A registered sender belongs to a call that has registered it and got nothing yet. -/
  own : Registry.Each (fun id c => s.inbox c = none ∧
    ∃ st, s.calls c = some st ∧ st.registration = some id) s.pending
  mail : ∀ c d, s.inbox c = some d → ∃ st, s.calls c = some st ∧ st.Registered
  answered : s.calls.Each fun c st => ∀ id, st.awaits = some id →
    s.pending.lookup id = some c ∨ ∃ d, s.inbox c = some d ∧ d.Answers id
  down : s.connected = false → ¬ s.Marking →
    Registry.Each (fun _ c => ∃ st, s.calls c = some st ∧ st.BeforeWait) s.pending

/-- The registered call is the one that has drawn the number. -/
theorem Inv.registered_eq (h : s.Inv) {c' : Nat} (hst : s.calls c = some st)
    (hid : st.requestId = some id) (hp : s.pending.lookup id = some c') : c' = c := by
  obtain ⟨_, st', hst', hreg⟩ := h.own id c' hp
  exact h.distinct c' c st' st id hst' hst (Stage.requestId_of_registration hreg) hid

/-! ### Steps of a call -/

/-- Nothing here depends on the messages in the outbound queue. -/
theorem Inv.outbound (h : s.Inv) (messages : List Json) : Inv { s with outbound := messages } :=
  ⟨h.issued, h.distinct, h.own, h.mail, h.answered, h.down⟩

/-- A call that moves on past its registration may have mail. -/
theorem Inv.mail_set (h : s.Inv) (hst : st.Registered) (c' : Nat) (d : Delivery)
    (hd : s.inbox c' = some d) : ∃ u, s.calls.set c st c' = some u ∧ u.Registered :=
  Tasks.exists_set (h.mail c' d hd) fun _ _ _ _ => hst

/-- A call moves on with its number and its registration. -/
theorem Inv.advance (h : s.Inv) (hst : s.calls c = some st) (hid : st'.requestId = st.requestId)
    (hreg : st'.registration = st.registration) (hst' : st'.Registered)
    (hawaits : ∀ id, st'.awaits = some id → st.awaits = some id)
    (hdown : s.connected = false → ¬ s.Marking → st.BeforeWait →
      st'.BeforeWait ∨ ∀ id, st.registration = some id → s.pending.lookup id = none) :
    Inv (s.moveCall c st') where
  issued := h.issued.set_same fun id hid' => h.issued c st hst id (hid ▸ hid')
  distinct := h.distinct.set_same hst (.inl hid)
  own := by
    refine h.own.mono ?_
    rintro id c' - ⟨hinbox, hcall⟩
    refine ⟨hinbox, Tasks.exists_set hcall ?_⟩
    intro _ u hu hureg
    obtain rfl : st = u := Option.some.inj (hst.symm.trans hu)
    exact hreg.trans hureg
  mail := h.mail_set hst'
  answered := h.answered.set_same fun id hid' => h.answered c st hst id (hawaits id hid')
  down := by
    intro hconn hmark
    refine (h.down hconn hmark).mono ?_
    intro id c' hp hcall
    refine Tasks.exists_set hcall ?_
    rintro rfl u hu hbefore
    obtain rfl : st = u := Option.some.inj (hst.symm.trans hu)
    rcases hdown hconn hmark hbefore with hb | hnone
    · exact hb
    · obtain ⟨_, v, hv, hvreg⟩ := h.own id c' hp
      obtain rfl : st = v := Option.some.inj (hst.symm.trans hv)
      rw [hnone id hvreg] at hp
      cases hp

/-- A call that is not registered returns. -/
theorem Inv.finish (h : s.Inv) (hno : ∀ id, s.pending.lookup id ≠ some c)
    (result : Except Text Json) : Inv (s.moveCall c (.returned result)) where
  issued := h.issued.set_same nofun
  distinct := h.distinct.set fun _ _ _ _ _ _ => nofun
  own := by
    refine h.own.mono ?_
    rintro id c' hp ⟨hinbox, hcall⟩
    have hc : c' ≠ c := fun hc => hno id (hc ▸ hp)
    exact ⟨hinbox, Tasks.exists_set_of_ne hcall hc⟩
  mail := h.mail_set trivial
  answered := h.answered.set_same nofun
  down := by
    intro hconn hmark
    refine (h.down hconn hmark).mono ?_
    intro id c' hp hcall
    have hc : c' ≠ c := fun hc => hno id (hc ▸ hp)
    exact Tasks.exists_set_of_ne hcall hc

/-- A call that no longer waits takes its registration back. -/
theorem Inv.unregister (h : s.Inv) (hst : s.calls c = some st) (hid : st.requestId = some id)
    (hawaits : st.awaits = none) : Inv { s with pending := s.pending.erase id } where
  issued := h.issued
  distinct := h.distinct
  own := h.own.erase
  mail := h.mail
  answered := by
    intro c' st' hst' id' hid'
    rcases h.answered c' st' hst' id' hid' with hp | hd
    · left
      have hne : id' ≠ id := by
        rintro rfl
        obtain rfl := h.registered_eq hst hid hp
        obtain rfl : st = st' := Option.some.inj (hst.symm.trans hst')
        rw [hawaits] at hid'
        cases hid'
      exact (AList.lookup_erase_ne hne).trans hp
    · exact .inr hd
  down := fun hconn hmark => (h.down hconn hmark).erase

/-- A call takes its registration back and returns. -/
theorem Inv.leave (h : s.Inv) (hst : s.calls c = some st) (hid : st.requestId = some id)
    (hawaits : st.awaits = none) (result : Except Text Json) :
    Inv ({ s with pending := s.pending.erase id }.moveCall c (.returned result)) := by
  apply (h.unregister hst hid hawaits).finish
  intro id' hp
  obtain ⟨hne, hp'⟩ := Registry.lookup_erase_eq_some hp
  obtain ⟨_, st', hst', hreg⟩ := h.own id' c hp'
  obtain rfl : st = st' := Option.some.inj (hst.symm.trans hst')
  rw [Stage.requestId_of_registration hreg] at hid
  exact hne (Option.some.inj hid)

/-- A new call draws the next number. -/
theorem Inv.start (h : s.Inv) (hnone : s.calls c = none) (method : Text) (params : Json) :
    Inv ({ s with nextId := s.nextId + 1 }.moveCall c (.tested s.nextId method params)) where
  issued := by
    refine h.issued.set ?_ ?_
    · rintro id ⟨⟩
      exact Nat.lt_succ_self _
    · intro j u _ _ hu id hid
      exact Nat.lt_succ_of_lt (hu id hid)
  distinct := by
    refine h.distinct.set ?_
    rintro j u id _ hu hid ⟨⟩
    exact Nat.lt_irrefl _ (h.issued j u hu _ hid)
  own := by
    refine h.own.mono ?_
    rintro id c' - ⟨hinbox, hcall⟩
    exact ⟨hinbox, Tasks.exists_set_of_none hcall hnone⟩
  mail := fun c' d hd => Tasks.exists_set_of_none (h.mail c' d hd) hnone
  answered := h.answered.set_same nofun
  down := by
    intro hconn hmark
    refine (h.down hconn hmark).mono ?_
    intro id c' _ hcall
    exact Tasks.exists_set_of_none hcall hnone

/-- A call registers its channel. -/
theorem Inv.register (h : s.Inv) {method : Text} {params message : Json}
    (hst : s.calls c = some (.tested id method params)) :
    Inv ({ s with pending := s.pending.insert id c }.moveCall c (.sending id message)) where
  issued := h.issued.set_same fun id hid => h.issued c _ hst id hid
  distinct := h.distinct.set_same hst (.inl rfl)
  own := by
    have hmail : s.inbox c = none := by
      by_contra hsome
      obtain ⟨d, hd⟩ := Option.ne_none_iff_exists'.mp hsome
      obtain ⟨st, hst', hreg⟩ := h.mail c d hd
      obtain rfl : _ = st := Option.some.inj (hst.symm.trans hst')
      exact hreg
    intro id' c' hp
    rcases Registry.lookup_insert_eq_some hp with ⟨rfl, rfl⟩ | ⟨hne, hp'⟩
    · exact ⟨hmail, _, Tasks.set_self, rfl⟩
    · obtain ⟨hinbox, hcall⟩ := h.own id' c' hp'
      refine ⟨hinbox, Tasks.exists_set hcall ?_⟩
      intro _ u hu hureg
      obtain rfl : _ = u := Option.some.inj (hst.symm.trans hu)
      cases hureg
  mail := h.mail_set trivial
  answered := by
    refine h.answered.set ?_ ?_
    · rintro _ ⟨⟩
      exact .inl (AList.lookup_insert _)
    · intro c' st hc hst' hans id' hid'
      rcases hans id' hid' with hp | hd
      · -- the number was drawn by `c`, so no other call waits under it
        have hne : id' ≠ id := by
          rintro rfl
          obtain rfl := h.registered_eq hst rfl hp
          exact hc rfl
        exact .inl ((AList.lookup_insert_ne hne).trans hp)
      · exact .inr hd
  down := by
    intro hconn hmark id' c' hp
    rcases Registry.lookup_insert_eq_some hp with ⟨-, rfl⟩ | ⟨-, hp'⟩
    · exact ⟨_, Tasks.set_self, trivial⟩
    · exact Tasks.exists_set (h.down hconn hmark id' c' hp') fun _ _ _ _ => trivial

/-- The queue accepts no request whose call was registered behind the last drain: with the
    connection down and nothing left to drain, the call's registration is gone. -/
def SendsInTime (s : Conn) : Action → Prop
  | .call c (.send .accepted) => ∀ id message, s.calls c = some (.sending id message) →
      s.connected = false → ¬ s.Marking → s.pending.lookup id = none
  | _ => True

/-- **Steps of a call.** A call keeps the invariant unless its request is accepted behind
    the last drain. -/
theorem Inv.stepCall (h : s.Inv) {step : CallStep} (hguard : s.SendsInTime (.call c step))
    (hstep : s.stepCall c step = some s') : s'.Inv := by
  unfold Conn.stepCall at hstep
  split at hstep
  next hnone =>
    split at hstep <;> cases hstep
    · exact h.start hnone _ _
    · apply h.finish
      intro id hp
      obtain ⟨_, st, hst, _⟩ := h.own id c hp
      rw [hnone] at hst
      cases hst
  next id method params hst =>
    cases hstep
    exact h.register hst
  next id message hst =>
    split at hstep <;> cases hstep
    refine (h.outbound _).advance hst rfl rfl trivial (fun _ hid => hid) ?_
    intro hconn hmark _
    right
    rintro _ ⟨⟩
    exact hguard id message hst hconn hmark
  next id message hst =>
    split at hstep <;> cases hstep
    exact h.advance hst rfl rfl trivial nofun fun _ _ _ => .inl trivial
  next id message hst =>
    cases hstep
    exact h.advance hst rfl rfl trivial nofun fun _ _ _ => .inl trivial
  next id error hst =>
    cases hstep
    exact h.leave hst rfl rfl _
  next id hst =>
    obtain ⟨d, hd, rfl⟩ := Option.map_eq_some_iff.mp hstep
    apply h.finish
    intro id' hp
    rw [(h.own id' c hp).1] at hd
    cases hd
  next id hst =>
    split at hstep <;> cases hstep
    next hdropped =>
      apply h.finish
      intro id' hp
      obtain ⟨_, st, hst', hreg⟩ := h.own id' c hp
      obtain rfl : _ = st := Option.some.inj (hst.symm.trans hst')
      cases hreg
      exact hdropped.1 hp
  next id hst =>
    cases hstep
    exact h.advance hst rfl rfl trivial nofun fun _ _ hbefore => hbefore.elim
  next id hst =>
    cases hstep
    exact h.leave hst rfl rfl _
  next => cases hstep

/-! ### Steps of the reader and of the writer -/

/-- A response goes to the call registered under its number. -/
theorem Inv.respond (h : s.Inv) (hp : s.pending.lookup id = some c) (payload : Except Text Json) :
    Inv ({ s with pending := s.pending.erase id }.deliver c (.response id payload)) := by
  obtain ⟨_, st, hst, hreg⟩ := h.own id c hp
  have hid := Stage.requestId_of_registration hreg
  refine ⟨h.issued, h.distinct, ?_, ?_, ?_, fun hconn hmark => (h.down hconn hmark).erase⟩
  · intro id' c' hp'
    obtain ⟨hne, hold⟩ := Registry.lookup_erase_eq_some hp'
    obtain ⟨hinbox, st', hst', hreg'⟩ := h.own id' c' hold
    have hc : c' ≠ c := by
      rintro rfl
      obtain rfl : st = st' := Option.some.inj (hst.symm.trans hst')
      exact hne (Option.some.inj (hreg'.symm.trans hreg))
    exact ⟨(Function.update_of_ne hc _ _).trans hinbox, st', hst', hreg'⟩
  · intro c' d hd
    by_cases hc : c' = c
    · subst hc
      exact ⟨st, hst, Stage.registered_of_registration hreg⟩
    · exact h.mail c' d ((Function.update_of_ne hc _ _).symm.trans hd)
  · intro c' st' hst' id' hid'
    by_cases hc : c' = c
    · subst hc
      obtain rfl : st = st' := Option.some.inj (hst.symm.trans hst')
      have hans : id = id' :=
        Option.some.inj (hreg.symm.trans (Stage.registration_of_awaits hid'))
      exact .inr ⟨.response id payload, Function.update_self _ _ _, hans⟩
    · rcases h.answered c' st' hst' id' hid' with hold | ⟨d, hd, hans⟩
      · have hne : id' ≠ id := by
          rintro rfl
          rw [hp] at hold
          exact hc (Option.some.inj hold).symm
        exact .inl ((AList.lookup_erase_ne hne).trans hold)
      · exact .inr ⟨d, (Function.update_of_ne hc _ _).trans hd, hans⟩

theorem Inv.dispatchIncomingLine (h : s.Inv) (line : Option Json) :
    Inv (s.dispatchIncomingLine line) := by
  unfold Conn.dispatchIncomingLine
  split
  · exact h
  · split
    next c hp => exact h.respond hp _
    next => exact h
  · split
    · exact ⟨h.issued, h.distinct, h.own, h.mail, h.answered, h.down⟩
    · exact h

/-- Draining answers every registered call. -/
theorem Inv.drain (h : s.Inv) : Inv s.drain where
  issued := h.issued
  distinct := h.distinct
  own := Registry.Each.empty
  mail := by
    intro c d hd
    simp only [Conn.drain] at hd
    split at hd
    next hany =>
      obtain ⟨⟨id, c'⟩, hmem, hc⟩ := List.any_eq_true.mp hany
      obtain rfl : c' = c := of_decide_eq_true hc
      obtain ⟨_, st, hst, hreg⟩ := h.own id c' (Registry.lookup_of_mem hmem)
      exact ⟨st, hst, Stage.registered_of_registration hreg⟩
    next => exact h.mail c d hd
  answered := by
    intro c st hst id hid
    right
    by_cases hany : s.pending.entries.any (·.2 = c)
    · exact ⟨.disconnected, if_pos hany, trivial⟩
    · rcases h.answered c st hst id hid with hp | ⟨d, hd, hans⟩
      · exact absurd (List.any_eq_true.mpr ⟨_, Registry.mem_of_lookup hp, by simp⟩) hany
      · exact ⟨d, (if_neg hany).trans hd, hans⟩
  down := fun _ _ => Registry.Each.empty

/-- **Steps of the tasks.** The reader and the writer keep the invariant. -/
theorem Inv.stepIo (h : s.Inv) {step : IoStep} (hstep : s.stepIo step = some s') : s'.Inv := by
  unfold Conn.stepIo at hstep
  split at hstep <;> split at hstep <;> cases hstep
  · exact h.dispatchIncomingLine _
  · refine ⟨h.issued, h.distinct, h.own, h.mail, h.answered, ?_⟩
    intro _ hmark
    exact absurd (.inl rfl) hmark
  · have hd := h.drain
    exact ⟨hd.issued, hd.distinct, hd.own, hd.mail, hd.answered, fun _ _ => Registry.Each.empty⟩
  · exact h.outbound _
  · refine ⟨h.issued, h.distinct, h.own, h.mail, h.answered, ?_⟩
    intro _ hmark
    exact absurd (.inr rfl) hmark
  · have hd := h.drain
    exact ⟨hd.issued, hd.distinct, hd.own, hd.mail, hd.answered, fun _ _ => Registry.Each.empty⟩
  next hmarked =>
    refine ⟨h.issued, h.distinct, h.own, h.mail, h.answered, ?_⟩
    intro hconn hmark
    apply h.down hconn
    rintro (hr | hw)
    · exact hmark (.inl hr)
    · rw [hmarked] at hw
      cases hw

theorem Inv.init : Inv {} :=
  ⟨Tasks.Each.idle, Tasks.Distinct.idle, Registry.Each.empty, nofun, Tasks.Each.idle,
    fun _ _ => Registry.Each.empty⟩

/-- The invariant along a run. -/
theorem Inv.run {actions : List Action} (hguard : connection.Guarded SendsInTime {} actions)
    (hrun : connection.run {} actions = some s) : s.Inv := by
  refine Machine.run_invariant ?_ Inv.init hguard hrun
  intro s a s' h hg hstep
  cases a with
  | call c step => exact h.stepCall hg hstep
  | io step => exact h.stepIo hstep

/-- With the connection down, nothing to drain and every call at its wait or behind it. -/
structure Dead (s : Conn) : Prop where
  down : s.connected = false
  drained : ¬ s.Marking
  settled : s.calls.Each fun _ st => ¬ st.BeforeWait

/-- Every waiting caller was given its own response or the disconnect error. -/
def AllAnswered (s : Conn) : Prop :=
  s.calls.Each fun c st => ∀ id, st = .waiting id → ∃ d, s.inbox c = some d ∧ d.Answers id

end Conn

open Conn

/-- **No call hangs on a dead connection.** In every run in which no request is accepted
    behind the last drain, a dead connection has no registered call left, and every waiting
    one has its own response or the disconnect error. -/
theorem pending_empty_of_disconnected (actions : List Action) (s : Conn)
    (hguard : connection.Guarded SendsInTime connection.init actions)
    (hrun : connection.run connection.init actions = some s) (hdead : s.Dead) :
    s.pending = ∅ ∧ s.AllAnswered := by
  have h : s.Inv := Inv.run hguard hrun
  have hempty : ∀ id, s.pending.lookup id = none := by
    intro id
    by_contra hsome
    obtain ⟨c, hp⟩ := Option.ne_none_iff_exists'.mp hsome
    obtain ⟨st, hst, hbefore⟩ := h.down hdead.down hdead.drained id c hp
    exact hdead.settled c st hst hbefore
  refine ⟨Registry.eq_empty_of_lookup hempty, ?_⟩
  rintro c _ hst id rfl
  rcases h.answered c _ hst id rfl with hp | hd
  · rw [hempty id] at hp
    cases hp
  · exact hd

/-- A call made, answered with the disconnect error and drained in time. -/
def drainedRun : List Action :=
  [.call 0 (.start "list_threads".toList .null), .call 0 .register, .call 0 (.send .accepted),
    .io .readerFails, .io .readerDrains]

theorem drainedRun_sendsInTime : connection.Guarded SendsInTime connection.init drainedRun := by
  refine ⟨trivial, ?_⟩
  rintro _ ⟨⟩
  refine ⟨trivial, ?_⟩
  rintro _ ⟨⟩
  refine ⟨?_, ?_⟩
  · -- the request is sent over a connection that is up
    rintro id message _ ⟨⟩
  rintro _ ⟨⟩
  refine ⟨trivial, ?_⟩
  rintro _ ⟨⟩
  exact ⟨trivial, fun _ _ => trivial⟩

/-- A run that meets the condition and ends on a dead connection with a waiting call. -/
theorem pending_empty_drainedRun :
    ∃ s, connection.run connection.init drainedRun = some s ∧ s.Dead ∧
      s.calls 0 = some (.waiting 1) ∧ s.pending = ∅ ∧ s.AllAnswered := by
  obtain ⟨s, hrun, hdead, hcall⟩ : ∃ s, connection.run connection.init drainedRun = some s ∧
      s.Dead ∧ s.calls 0 = some (.waiting 1) := by
    refine ⟨_, rfl, ⟨rfl, by decide, ?_⟩, rfl⟩
    show Tasks.Each _ (Tasks.set _ 0 (Stage.waiting 1))
    refine Tasks.Each.set_alone id ?_
    intro j hj
    simp [hj, connection, Conn.moveCall]
  exact ⟨s, hrun, hdead, hcall,
    pending_empty_of_disconnected drainedRun s drainedRun_sendsInTime hrun hdead⟩

/-- A call that tests the connection before the reader takes it down, and registers and
    sends behind the drain. -/
def lateRun : List Action :=
  [.call 0 (.start "list_threads".toList .null), .io .readerFails, .io .readerDrains,
    .call 0 .register, .call 0 (.send .accepted)]

/-- **A call hangs.** The late call waits on a dead connection, still registered, with
    nothing in its channel. -/
theorem lateRun_hangs :
    ∃ s, connection.run connection.init lateRun = some s ∧ s.Dead ∧
      s.calls 0 = some (.waiting 1) ∧ s.pending.lookup 1 = some 0 ∧ s.inbox 0 = none := by
  refine ⟨_, rfl, ⟨rfl, by decide, ?_⟩, rfl, rfl, rfl⟩
  show Tasks.Each _ (Tasks.set _ 0 (Stage.waiting 1))
  refine Tasks.Each.set_alone id ?_
  intro j hj
  simp [hj, connection, Conn.moveCall, Conn.drain]

end CodexMonitor.Remote
