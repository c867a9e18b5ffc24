import CodexMonitor.AppServer.Requests

namespace CodexMonitor.AppServer

open Text Approvals Remote

/-!
# AppServer — responses reach their requests, and nothing is left behind

In every run a call gets only a response that carries its own number, and no line is handed
to two calls.  Entries are left behind in the maps when a call is dropped with its entries in
them, when a line reaches a call whose context is still there, or when the two maps are
emptied around the insertion of a context; in the runs without such a step an idle session
has empty maps.

* `Correlated` — the invariant of every run (`correlated_run`).
* `Tidy` — the invariant of the runs without these steps.
* `request_correlation` — the runs.
-/

/-- The call has registered its channel at some point. -/
def Stage.Registered : Stage → Prop
  | .drawn .. => False
  | _ => True

/-- The channel of the call may be registered. -/
def Stage.hasChannel : Stage → Bool
  | .registered .. | .writing _ | .failing .. | .waiting _ | .expiring _ => true
  | .drawn .. | .failed .. | .expired _ | .returned .. | .dropped _ => false

/-- The context of the call may be registered. -/
def Stage.hasContext : Stage → Bool
  | .writing _ | .failing .. | .failed .. | .waiting _ | .expiring _ | .expired _ => true
  | .drawn .. | .registered .. | .returned .. | .dropped _ => false

/-- The value is a message with the number `id`, and not a request of the server. -/
def Answers (value : Json) (id : Nat) : Prop :=
  (summarize value).maybeId = some id ∧ (summarize value).isRequest = false

/-- The line that the reader is at. -/
def Reader.current : Reader → Option Message
  | .parsed m | .looked m _ => some m
  | .idle | .clearing | .cleared | .stopped => none

namespace Session

variable {s s' : Session} {c : Nat} {st st' : Stage} {id : Nat}

/-- The invariant of every run. -/
structure Correlated (s : Session) : Prop where
  issued : s.calls.Each fun _ st => st.id < s.nextId
  distinct : s.calls.Distinct fun st => some st.id
  own : Registry.Each (fun id c => s.inbox c = none ∧
    ∃ st, s.calls c = some st ∧ st.id = id ∧ st.Registered) s.pending
  mail : ∀ c m, s.inbox c = some m →
    ∃ st, s.calls c = some st ∧ st.Registered ∧ Answers m.value st.id
  /-- What is in the inboxes was read before the reader's line. -/
  dispatched : ∀ c m, s.inbox c = some m →
    m.index < s.lines ∧ ∀ m', s.reader.current = some m' → m.index < m'.index
  unique : ∀ c c' m m', s.inbox c = some m → s.inbox c' = some m' → m.index = m'.index → c = c'
  results : s.calls.Each fun c st => ∀ id m, st = .returned id (.ok m) → s.inbox c = some m
  reading : ∀ m, s.reader.current = some m → m.index < s.lines

/-- A call with the number of an entry is the registered one. -/
theorem Correlated.registered_eq (h : s.Correlated) {c' : Nat} (hst : s.calls c = some st)
    (hp : s.pending.lookup st.id = some c') : c' = c := by
  obtain ⟨_, st', hst', hid, _⟩ := h.own st.id c' hp
  exact h.distinct c' c st' st st.id hst' hst (congrArg some hid) rfl

/-! ### Every run -/

/-- A call moves on with its number; the maps may lose entries. -/
theorem Correlated.advance (h : s.Correlated) (hst : s.calls c = some st) (hid : st'.id = st.id)
    (hreg : st'.Registered) (hres : ∀ id m, st' = .returned id (.ok m) → s.inbox c = some m)
    {pending : Registry Nat Nat} (context : Registry Nat RequestContext)
    (hsub : ∀ id c, pending.lookup id = some c → s.pending.lookup id = some c) :
    Correlated ({ s with pending := pending, requestContext := context }.moveCall c st') where
  issued := by
    refine h.issued.set_same ?_
    rw [hid]
    exact h.issued c st hst
  distinct := h.distinct.set_same hst (.inl (congrArg some hid))
  own := by
    intro id' c' hp
    obtain ⟨hinbox, hcall⟩ := h.own id' c' (hsub id' c' hp)
    refine ⟨hinbox, Tasks.exists_set hcall ?_⟩
    rintro _ u hu ⟨huid, _⟩
    obtain rfl : st = u := Option.some.inj (hst.symm.trans hu)
    exact ⟨hid.trans huid, hreg⟩
  mail := by
    intro c' m hm
    refine Tasks.exists_set (h.mail c' m hm) ?_
    rintro _ u hu ⟨_, hans⟩
    obtain rfl : st = u := Option.some.inj (hst.symm.trans hu)
    exact ⟨hreg, hid.symm ▸ hans⟩
  dispatched := h.dispatched
  unique := h.unique
  results := h.results.set_same hres
  reading := h.reading

/-- A call moves on and leaves the maps alone. -/
theorem Correlated.move (h : s.Correlated) (hst : s.calls c = some st) (hid : st'.id = st.id)
    (hreg : st'.Registered) (hres : ∀ id m, st' = .returned id (.ok m) → s.inbox c = some m) :
    Correlated (s.moveCall c st') :=
  h.advance hst hid hreg hres s.requestContext fun _ _ hp => hp

theorem Correlated.start (h : s.Correlated) (hnone : s.calls c = none) (request : Request) :
    Correlated ({ s with nextId := s.nextId + 1 }.moveCall c (.drawn s.nextId request)) where
  issued := by
    refine h.issued.set ?_ ?_
    · exact Nat.lt_succ_self _
    · intro j u _ _ hu
      exact Nat.lt_succ_of_lt hu
  distinct := by
    refine h.distinct.set ?_
    rintro j u id _ hu ⟨⟩ hid
    have hlt : u.id < s.nextId := h.issued j u hu
    have heq : s.nextId = u.id := Option.some.inj hid
    omega
  own := by
    refine h.own.mono ?_
    rintro id c' - ⟨hinbox, hcall⟩
    exact ⟨hinbox, Tasks.exists_set_of_none hcall hnone⟩
  mail := fun c' m hm => Tasks.exists_set_of_none (h.mail c' m hm) hnone
  dispatched := h.dispatched
  unique := h.unique
  results := h.results.set_same nofun
  reading := h.reading

/-- A call that has only drawn its number has no mail. -/
theorem Correlated.inbox_drawn (h : s.Correlated) {request : Request}
    (hst : s.calls c = some (.drawn id request)) : s.inbox c = none := by
  by_contra hsome
  obtain ⟨m, hm⟩ := Option.ne_none_iff_exists'.mp hsome
  obtain ⟨st, hst', hreg, _⟩ := h.mail c m hm
  obtain rfl : _ = st := Option.some.inj (hst.symm.trans hst')
  exact hreg

theorem Correlated.register (h : s.Correlated) {request : Request}
    (hst : s.calls c = some (.drawn id request)) :
    Correlated ({ s with pending := s.pending.insert id c }.moveCall c
      (.registered id request)) := by
  have hmoved : Correlated (s.moveCall c (.registered id request)) := h.move hst rfl trivial nofun
  refine ⟨hmoved.issued, hmoved.distinct, ?_, hmoved.mail, hmoved.dispatched, hmoved.unique,
    hmoved.results, hmoved.reading⟩
  exact hmoved.own.insert ⟨h.inbox_drawn hst, _, Tasks.set_self, rfl, trivial⟩

theorem Correlated.stepCall (h : s.Correlated) {step : CallStep}
    (hstep : s.stepCall c step = some s') : s'.Correlated := by
  unfold Session.stepCall at hstep
  split at hstep
  next hnone =>
    cases hstep
    exact h.start hnone _
  next id request hst =>
    cases hstep
    exact h.register hst
  next id request hst =>
    cases hstep
    exact h.advance hst (by rfl) (by trivial) (by nofun) _ fun _ _ hp => hp
  next id _ hst =>
    cases hstep
    exact h.move hst rfl trivial nofun
  next id error hst =>
    cases hstep
    exact h.move hst rfl trivial nofun
  next id error hst =>
    cases hstep
    refine h.advance hst (by rfl) (by trivial) (by nofun) _ ?_
    intro _ _ hp
    exact (Registry.lookup_erase_eq_some hp).2
  next id error hst =>
    cases hstep
    exact h.advance hst (by rfl) (by trivial) (by nofun) _ fun _ _ hp => hp
  next id hst =>
    obtain ⟨m, hm, rfl⟩ := Option.map_eq_some_iff.mp hstep
    refine h.move hst rfl trivial ?_
    rintro _ _ ⟨⟩
    exact hm
  next id hst =>
    split at hstep <;> cases hstep
    exact h.move hst rfl trivial nofun
  next id hst =>
    cases hstep
    exact h.move hst rfl trivial nofun
  next id hst =>
    cases hstep
    refine h.advance hst (by rfl) (by trivial) (by nofun) _ ?_
    intro _ _ hp
    exact (Registry.lookup_erase_eq_some hp).2
  next id hst =>
    cases hstep
    exact h.advance hst (by rfl) (by trivial) (by nofun) _ fun _ _ hp => hp
  next stage hst =>
    split at hstep <;> cases hstep
    exact h.move hst rfl trivial nofun
  next => cases hstep

theorem target_eq_some {value : Json} (h : s.target value = some (id, c)) :
    Answers value id ∧ s.pending.lookup id = some c := by
  unfold Session.target at h
  split at h
  · cases h
  next hnot =>
    obtain ⟨id', hid', hmap⟩ := Option.bind_eq_some_iff.mp h
    obtain ⟨c', hc', heq⟩ := Option.map_eq_some_iff.mp hmap
    cases heq
    exact ⟨⟨hid', Bool.eq_false_iff.mpr hnot⟩, hc'⟩

/-- The reader moves on without handing a line to a call; the maps may lose entries. -/
theorem Correlated.read (h : s.Correlated) {reader : Reader} {lines : Nat}
    {pending : Registry Nat Nat} (context : Registry Nat RequestContext) (hidden : List Text)
    (hsub : ∀ id c, pending.lookup id = some c → s.pending.lookup id = some c)
    (hlines : s.lines ≤ lines)
    (hcurrent : ∀ m, reader.current = some m → m.index < lines ∧
      (s.reader.current = some m ∨ s.lines ≤ m.index)) :
    Correlated { s with
      reader := reader, lines := lines, pending := pending, requestContext := context
      hiddenThreadIds := hidden } := by
  refine ⟨h.issued, h.distinct, fun id c hp => h.own id c (hsub id c hp), h.mail, ?_, h.unique,
    h.results, fun m hm => (hcurrent m hm).1⟩
  intro c m hm
  obtain ⟨hlt, hbefore⟩ := h.dispatched c m hm
  refine ⟨Nat.lt_of_lt_of_le hlt hlines, ?_⟩
  intro m' hm'
  rcases (hcurrent m' hm').2 with hsame | hnew
  · exact hbefore m' hsame
  · exact Nat.lt_of_lt_of_le hlt hnew

/-- A line is handed to the call registered under its number. -/
theorem Correlated.deliver (h : s.Correlated) {m : Message}
    (hreader : s.reader.current = some m) (hans : Answers m.value id)
    (hp : s.pending.lookup id = some c) (hidden : List Text) :
    Correlated { s with
      reader := .idle
      hiddenThreadIds := hidden
      pending := s.pending.erase id
      inbox := Function.update s.inbox c (some m) } := by
  obtain ⟨hinbox, st, hst, hid, hreg⟩ := h.own id c hp
  -- the other lines in the inboxes were dispatched before this one
  have hearlier : ∀ c' m', s.inbox c' = some m' → m'.index < m.index :=
    fun c' m' hm' => (h.dispatched c' m' hm').2 m hreader
  have hupdate : ∀ c' m', Function.update s.inbox c (some m) c' = some m' →
      c' = c ∧ m' = m ∨ c' ≠ c ∧ s.inbox c' = some m' :=
    fun c' m' hm' => Tasks.set_eq_some hm'
  refine ⟨h.issued, h.distinct, ?_, ?_, ?_, ?_, ?_, nofun⟩
  · intro id' c' hp'
    obtain ⟨hne, hold⟩ := Registry.lookup_erase_eq_some hp'
    obtain ⟨hinbox', st', hst', hid', hreg'⟩ := h.own id' c' hold
    have hc : c' ≠ c := by
      rintro rfl
      obtain rfl : st = st' := Option.some.inj (hst.symm.trans hst')
      exact hne (hid'.symm.trans hid)
    exact ⟨(Function.update_of_ne hc _ _).trans hinbox', st', hst', hid', hreg'⟩
  · intro c' m' hm'
    rcases hupdate c' m' hm' with ⟨rfl, rfl⟩ | ⟨_, hold⟩
    · exact ⟨st, hst, hreg, hid.symm ▸ hans⟩
    · exact h.mail c' m' hold
  · intro c' m' hm'
    rcases hupdate c' m' hm' with ⟨rfl, rfl⟩ | ⟨_, hold⟩
    · exact ⟨h.reading m' hreader, nofun⟩
    · exact ⟨(h.dispatched c' m' hold).1, nofun⟩
  · intro a b ma mb ha hb heq
    rcases hupdate a ma ha with ⟨rfl, rfl⟩ | ⟨_, ha'⟩ <;>
      rcases hupdate b mb hb with ⟨rfl, rfl⟩ | ⟨_, hb'⟩
    · rfl
    · exact absurd heq (Nat.ne_of_gt (hearlier b mb hb'))
    · exact absurd heq (Nat.ne_of_lt (hearlier a ma ha'))
    · exact h.unique a b ma mb ha' hb' heq
  · intro c' st' hst' id' m' heq
    have hold := h.results c' st' hst' id' m' heq
    have hc : c' ≠ c := by
      rintro rfl
      rw [hinbox] at hold
      cases hold
    exact (Function.update_of_ne hc _ _).trans hold

theorem Correlated.dispatch (h : s.Correlated) {m : Message} (context : Option RequestContext)
    (hreader : s.reader.current = some m) : Correlated (s.dispatch m context) := by
  unfold Session.dispatch
  dsimp only
  split
  · exact h.read _ _ (fun _ _ hp => hp) (Nat.le_refl _) nofun
  · split
    next id c htarget =>
      obtain ⟨hans, hp⟩ := target_eq_some htarget
      exact h.deliver hreader hans hp _
    next => exact h.read _ _ (fun _ _ hp => hp) (Nat.le_refl _) nofun

theorem Correlated.stepReader (h : s.Correlated) {step : ReaderStep}
    (hstep : s.stepReader step = some s') : s'.Correlated := by
  unfold Session.stepReader at hstep
  split at hstep
  next hreader =>
    cases hstep
    refine h.read _ _ (fun _ _ hp => hp) (Nat.le_succ _) ?_
    intro m hm
    rw [hreader] at hm
    cases hm
  · cases hstep
    refine h.read _ _ (fun _ _ hp => hp) (Nat.le_succ _) ?_
    rintro _ ⟨⟩
    exact ⟨Nat.lt_succ_self _, .inr (Nat.le_refl _)⟩
  next m hreader =>
    have hcurrent : s.reader.current = some m := by rw [hreader]; rfl
    have hsame : ∀ m', some m = some m' → m'.index < s.lines ∧
        (s.reader.current = some m' ∨ s.lines ≤ m'.index) := by
      rintro _ ⟨⟩
      exact ⟨h.reading m hcurrent, .inl hcurrent⟩
    cases hstep
    unfold Session.lookupContext
    split
    · split
      · exact h.read _ _ (fun _ _ hp => hp) (Nat.le_refl _) hsame
      · exact h.read _ _ (fun _ _ hp => hp) (Nat.le_refl _) hsame
    · exact h.read _ _ (fun _ _ hp => hp) (Nat.le_refl _) hsame
  next m context hreader =>
    cases hstep
    refine h.dispatch context ?_
    rw [hreader]
    rfl
  · cases hstep
    exact h.read _ _ (fun _ _ hp => hp) (Nat.le_refl _) nofun
  · cases hstep
    refine h.read _ _ ?_ (Nat.le_refl _) nofun
    intro id c hp
    rw [AList.lookup_empty] at hp
    cases hp
  · cases hstep
    exact h.read _ _ (fun _ _ hp => hp) (Nat.le_refl _) nofun
  · cases hstep

theorem Correlated.init : Correlated {} :=
  ⟨Tasks.Each.idle, Tasks.Distinct.idle, Registry.Each.empty, nofun, nofun, nofun,
    Tasks.Each.idle, nofun⟩

/-- **Every step keeps the correlation.** -/
theorem Correlated.step (h : s.Correlated) {a : Action}
    (hstep : requestMachine.step s a = some s') : s'.Correlated := by
  cases a with
  | call c step => exact h.stepCall hstep
  | reader step => exact h.stepReader hstep

/-- A call that returned a message returned an answer to its request. -/
theorem Correlated.returned_answers (h : s.Correlated) {m : Message}
    (hreturned : s.calls c = some (.returned id (.ok m))) : Answers m.value id := by
  obtain ⟨st, hst, _, hanswers⟩ := h.mail c m (h.results c _ hreturned id m rfl)
  obtain rfl : _ = st := Option.some.inj (hreturned.symm.trans hst)
  exact hanswers

/-- A line is returned by one call. -/
theorem Correlated.returned_once (h : s.Correlated) {c' id' : Nat} {m m' : Message}
    (hc : s.calls c = some (.returned id (.ok m)))
    (hc' : s.calls c' = some (.returned id' (.ok m'))) (hindex : m.index = m'.index) : c = c' :=
  h.unique c c' m m' (h.results c _ hc id m rfl) (h.results c' _ hc' id' m' rfl) hindex

/-- **Responses reach their requests in every run**, whatever is left behind in the maps. -/
theorem correlated_run {actions : List Action}
    (hrun : requestMachine.run requestMachine.init actions = some s) : s.Correlated := by
  refine Machine.run_invariant (P := fun _ _ => True) ?_ Correlated.init
    (Machine.guarded_of_forall (fun _ _ _ => trivial) _) hrun
  intro s a s' h _ hstep
  exact h.step hstep

/-! ### Runs that leave nothing behind -/

/-- A call is dropped only with no entry in the maps; it registers its context only while its
    channel is registered, and returns as cancelled only when its context is gone; a line
    reaches a call only when the context of the call is gone. -/
def Careful (s : Session) : Action → Prop
  | .call c .drop => ∀ st, s.calls c = some st →
      s.pending.lookup st.id = none ∧ s.requestContext.lookup st.id = none
  | .call c .registerContext => ∀ st, s.calls c = some st → s.pending.lookup st.id = some c
  | .call c .senderDropped => ∀ st, s.calls c = some st → s.requestContext.lookup st.id = none
  | .reader .dispatch => ∀ m context, s.reader = .looked m context →
      droppedBeforeDispatch
        (hiddenAfter s.hiddenThreadIds (context.map RequestContext.method) m.value)
        m.value = false →
      ∀ id c, s.target m.value = some (id, c) → s.requestContext.lookup id = none
  | _ => True

/-- The invariant of the runs of careful steps. -/
structure Tidy (s : Session) : Prop where
  correlated : s.Correlated
  channels : Registry.Each (fun _ c => ∃ st, s.calls c = some st ∧ st.hasChannel) s.pending
  contexts : Registry.Each (fun id _ => ∃ c st, s.calls c = some st ∧ st.id = id ∧ st.hasContext)
    s.requestContext
  /-- The context of a call that has its response is gone. -/
  answered : ∀ c m, s.inbox c = some m → ∀ st, s.calls c = some st →
    s.requestContext.lookup st.id = none

/-- A call moves on; it keeps the marks of the entries that it may have in the maps. -/
theorem Tidy.advance (h : s.Tidy) (hst : s.calls c = some st)
    {pending : Registry Nat Nat} {context : Registry Nat RequestContext}
    (hnext : Correlated ({ s with pending := pending, requestContext := context }.moveCall c st'))
    (hid : st'.id = st.id)
    (hpending : ∀ id c, pending.lookup id = some c → s.pending.lookup id = some c)
    (hcontext : ∀ id r, context.lookup id = some r → s.requestContext.lookup id = some r)
    (hchannel : st'.hasChannel = false → pending.lookup st.id = none)
    (hctx : st'.hasContext = false → context.lookup st.id = none) :
    Tidy ({ s with pending := pending, requestContext := context }.moveCall c st') where
  correlated := hnext
  channels := by
    intro id c' (hp : pending.lookup id = some c')
    refine Tasks.exists_set (h.channels id c' (hpending id c' hp)) ?_
    rintro rfl _ _ _
    by_contra hno
    obtain ⟨_, v, hv, hvid, _⟩ := h.correlated.own id c' (hpending id c' hp)
    obtain rfl : st = v := Option.some.inj (hst.symm.trans hv)
    rw [← hvid, hchannel (Bool.eq_false_iff.mpr hno)] at hp
    cases hp
  contexts := by
    intro id r (hr : context.lookup id = some r)
    obtain ⟨c', hcall⟩ := h.contexts id r (hcontext id r hr)
    refine ⟨c', Tasks.exists_set hcall ?_⟩
    rintro rfl u hu ⟨huid, _⟩
    obtain rfl : st = u := Option.some.inj (hst.symm.trans hu)
    refine ⟨hid.trans huid, ?_⟩
    by_contra hno
    rw [← huid, hctx (Bool.eq_false_iff.mpr hno)] at hr
    cases hr
  answered := by
    intro c' m hm u hu
    have hgone : ∀ v, s.calls c' = some v → context.lookup v.id = none := by
      intro v hv
      by_contra hsome
      obtain ⟨r, hr⟩ := Option.ne_none_iff_exists'.mp hsome
      have hold := hcontext _ r hr
      rw [h.answered c' m hm v hv] at hold
      cases hold
    rcases Tasks.set_eq_some hu with ⟨rfl, rfl⟩ | ⟨_, hu'⟩
    · show context.lookup u.id = none
      rw [hid]
      exact hgone st hst
    · exact hgone u hu'

/-- A call that cannot have a channel registered has none. -/
theorem Tidy.channel_none (h : s.Tidy) (hst : s.calls c = some st)
    (hno : st.hasChannel = false) : s.pending.lookup st.id = none := by
  by_contra hsome
  obtain ⟨c', hp⟩ := Option.ne_none_iff_exists'.mp hsome
  obtain rfl := h.correlated.registered_eq hst hp
  obtain ⟨u, hu, hchan⟩ := h.channels _ c' hp
  obtain rfl : st = u := Option.some.inj (hst.symm.trans hu)
  rw [hno] at hchan
  cases hchan

theorem Tidy.context_none (h : s.Tidy) (hst : s.calls c = some st)
    (hno : st.hasContext = false) : s.requestContext.lookup st.id = none := by
  by_contra hsome
  obtain ⟨r, hr⟩ := Option.ne_none_iff_exists'.mp hsome
  obtain ⟨c', u, hu, huid, hhas⟩ := h.contexts _ r hr
  obtain rfl := h.correlated.distinct c' c u st st.id hu hst (congrArg some huid) rfl
  obtain rfl : st = u := Option.some.inj (hst.symm.trans hu)
  rw [hno] at hhas
  cases hhas

theorem Tidy.start (h : s.Tidy) (hnone : s.calls c = none) (request : Request) :
    Tidy ({ s with nextId := s.nextId + 1 }.moveCall c (.drawn s.nextId request)) where
  correlated := h.correlated.start hnone request
  channels := by
    refine h.channels.mono ?_
    intro id c' _ hcall
    exact Tasks.exists_set_of_none hcall hnone
  contexts := by
    refine h.contexts.mono ?_
    rintro id r - ⟨c', hcall⟩
    exact ⟨c', Tasks.exists_set_of_none hcall hnone⟩
  answered := by
    intro c' m hm u hu
    obtain ⟨st, hst, _⟩ := h.correlated.mail c' m hm
    rcases Tasks.set_eq_some hu with ⟨rfl, _⟩ | ⟨_, hold⟩
    · rw [hnone] at hst
      cases hst
    · exact h.answered c' m hm u hold

theorem Tidy.register (h : s.Tidy) {request : Request}
    (hst : s.calls c = some (.drawn id request)) :
    Tidy ({ s with pending := s.pending.insert id c }.moveCall c (.registered id request)) := by
  have hnext : Correlated (s.moveCall c (.registered id request)) :=
    h.correlated.move hst rfl trivial nofun
  have hmoved : Tidy (s.moveCall c (.registered id request)) :=
    h.advance hst hnext rfl (fun _ _ hp => hp) (fun _ _ hr => hr) nofun
      fun _ => h.context_none hst rfl
  refine ⟨h.correlated.register hst, ?_, hmoved.contexts, hmoved.answered⟩
  exact hmoved.channels.insert ⟨_, Tasks.set_self, rfl⟩

/-- The context is registered while the channel is, so there is no response yet. -/
theorem Tidy.registerContext (h : s.Tidy) {request : Request}
    (hst : s.calls c = some (.registered id request)) (hp : s.pending.lookup id = some c) :
    Tidy ({ s with requestContext := s.requestContext.insert id request.context }.moveCall c
      (.writing id)) := by
  have hwriting : Correlated (s.moveCall c (.writing id)) :=
    h.correlated.move hst rfl trivial nofun
  have hmoved : Tidy (s.moveCall c (.writing id)) :=
    h.advance hst hwriting rfl (fun _ _ hp => hp) (fun _ _ hr => hr) nofun nofun
  refine ⟨h.correlated.advance hst (by rfl) (by trivial) (by nofun) _ fun _ _ hp => hp,
    hmoved.channels, hmoved.contexts.insert ⟨c, _, Tasks.set_self, rfl, rfl⟩, ?_⟩
  intro c' m (hm : s.inbox c' = some m) u hu
  have hold := hmoved.answered c' m hm u hu
  have hne : u.id ≠ id := by
    intro heq
    -- only `c` has the number, and nothing was sent to it
    obtain rfl := hmoved.correlated.distinct c' c u _ id hu Tasks.set_self (congrArg some heq) rfl
    rw [(h.correlated.own id c' hp).1] at hm
    cases hm
  exact (AList.lookup_insert_ne hne).trans hold

/-- **Steps of a call** that are careful leave nothing behind. -/
theorem Tidy.stepCall (h : s.Tidy) {step : CallStep} (hguard : s.Careful (.call c step))
    (hstep : s.stepCall c step = some s') : s'.Tidy := by
  have hnext : s'.Correlated := h.correlated.stepCall hstep
  have hsame : ∀ id c, s.pending.lookup id = some c → s.pending.lookup id = some c :=
    fun _ _ hp => hp
  have hsameContext : ∀ id r, s.requestContext.lookup id = some r →
      s.requestContext.lookup id = some r := fun _ _ hr => hr
  unfold Session.stepCall at hstep
  split at hstep
  next hnone =>
    cases hstep
    exact h.start hnone _
  next id request hst =>
    cases hstep
    exact h.register hst
  next id request hst =>
    cases hstep
    exact h.registerContext hst (hguard _ hst)
  next id _ hst =>
    cases hstep
    exact h.advance hst hnext rfl hsame hsameContext nofun nofun
  next id error hst =>
    cases hstep
    exact h.advance hst hnext rfl hsame hsameContext nofun nofun
  next id error hst =>
    cases hstep
    exact h.advance hst hnext rfl (fun _ _ hp => (Registry.lookup_erase_eq_some hp).2)
      hsameContext (fun _ => AList.lookup_erase _ _) nofun
  next id error hst =>
    cases hstep
    exact h.advance hst hnext rfl hsame (fun _ _ hr => (Registry.lookup_erase_eq_some hr).2)
      (fun _ => h.channel_none hst rfl) fun _ => AList.lookup_erase _ _
  next id hst =>
    obtain ⟨m, hm, rfl⟩ := Option.map_eq_some_iff.mp hstep
    refine h.advance hst hnext rfl hsame hsameContext (fun _ => ?_) fun _ =>
      h.answered c m hm _ hst
    by_contra hsome
    obtain ⟨c', hp⟩ := Option.ne_none_iff_exists'.mp hsome
    obtain rfl := h.correlated.registered_eq hst hp
    rw [(h.correlated.own _ c' hp).1] at hm
    cases hm
  next id hst =>
    split at hstep <;> cases hstep
    next hdropped =>
      refine h.advance hst hnext rfl hsame hsameContext (fun _ => ?_) fun _ => hguard _ hst
      by_contra hsome
      obtain ⟨c', hp⟩ := Option.ne_none_iff_exists'.mp hsome
      obtain rfl := h.correlated.registered_eq hst hp
      exact hdropped.1 hp
  next id hst =>
    cases hstep
    exact h.advance hst hnext rfl hsame hsameContext nofun nofun
  next id hst =>
    cases hstep
    exact h.advance hst hnext rfl (fun _ _ hp => (Registry.lookup_erase_eq_some hp).2)
      hsameContext (fun _ => AList.lookup_erase _ _) nofun
  next id hst =>
    cases hstep
    exact h.advance hst hnext rfl hsame (fun _ _ hr => (Registry.lookup_erase_eq_some hr).2)
      (fun _ => h.channel_none hst rfl) fun _ => AList.lookup_erase _ _
  next stage hst =>
    split at hstep <;> cases hstep
    exact h.advance hst hnext rfl hsame hsameContext (fun _ => (hguard _ hst).1)
      fun _ => (hguard _ hst).2
  next => cases hstep

/-- The reader moves on without handing a line to a call. -/
theorem Tidy.read (h : s.Tidy) {reader : Reader} {lines : Nat} {pending : Registry Nat Nat}
    {context : Registry Nat RequestContext} {hidden : List Text}
    (hnext : Correlated { s with
      reader := reader, lines := lines, pending := pending, requestContext := context
      hiddenThreadIds := hidden })
    (hpending : ∀ id c, pending.lookup id = some c → s.pending.lookup id = some c)
    (hcontext : ∀ id r, context.lookup id = some r → s.requestContext.lookup id = some r) :
    Tidy { s with
      reader := reader, lines := lines, pending := pending, requestContext := context
      hiddenThreadIds := hidden } where
  correlated := hnext
  channels := fun id c hp => h.channels id c (hpending id c hp)
  contexts := fun id r hr => h.contexts id r (hcontext id r hr)
  answered := by
    intro c m hm st hst
    by_contra hsome
    obtain ⟨r, hr⟩ := Option.ne_none_iff_exists'.mp hsome
    have hold := hcontext _ r hr
    rw [h.answered c m hm st hst] at hold
    cases hold

theorem Tidy.dispatch (h : s.Tidy) {m : Message} {context : Option RequestContext}
    (hreader : s.reader = .looked m context) (hguard : s.Careful (.reader .dispatch)) :
    Tidy (s.dispatch m context) := by
  have hnext : Correlated (s.dispatch m context) :=
    h.correlated.dispatch context (by rw [hreader]; rfl)
  unfold Session.dispatch at hnext ⊢
  dsimp only at hnext ⊢
  split
  next hdropped =>
    rw [if_pos hdropped] at hnext
    exact h.read hnext (fun _ _ hp => hp) fun _ _ hr => hr
  next hdispatched =>
    rw [if_neg hdispatched] at hnext
    split
    next id c htarget =>
      have hgone : s.requestContext.lookup id = none :=
        hguard m context hreader (Bool.eq_false_iff.mpr hdispatched) id c htarget
      rw [htarget] at hnext
      obtain ⟨_, hp⟩ := target_eq_some htarget
      obtain ⟨_, st, hst, hid, _⟩ := h.correlated.own id c hp
      refine ⟨hnext, h.channels.erase, h.contexts, ?_⟩
      intro c' m' hm' u hu
      rcases Tasks.set_eq_some hm' with ⟨rfl, rfl⟩ | ⟨_, hold⟩
      · obtain rfl : st = u := Option.some.inj (hst.symm.trans hu)
        rw [hid]
        exact hgone
      · exact h.answered c' m' hold u hu
    next hnone =>
      rw [hnone] at hnext
      exact h.read hnext (fun _ _ hp => hp) fun _ _ hr => hr

/-- **Steps of the reader** that are careful leave nothing behind. -/
theorem Tidy.stepReader (h : s.Tidy) {step : ReaderStep} (hguard : s.Careful (.reader step))
    (hstep : s.stepReader step = some s') : s'.Tidy := by
  have hnext : s'.Correlated := h.correlated.stepReader hstep
  have hempty : ∀ {α : Type} (id : Nat) (a : α) (r : Registry Nat α),
      (∅ : Registry Nat α).lookup id = some a → r.lookup id = some a := by
    intro α id a r ha
    rw [AList.lookup_empty] at ha
    cases ha
  unfold Session.stepReader at hstep
  split at hstep
  · cases hstep
    exact h.read hnext (fun _ _ hp => hp) fun _ _ hr => hr
  · cases hstep
    exact h.read hnext (fun _ _ hp => hp) fun _ _ hr => hr
  · cases hstep
    unfold Session.lookupContext at hnext ⊢
    split
    · split
      · simp_all only
        exact h.read hnext (fun _ _ hp => hp) fun _ _ hr => (Registry.lookup_erase_eq_some hr).2
      · simp_all only
        exact h.read hnext (fun _ _ hp => hp) fun _ _ hr => hr
    · simp_all only
      exact h.read hnext (fun _ _ hp => hp) fun _ _ hr => hr
  next m context hreader =>
    cases hstep
    exact h.dispatch hreader hguard
  · cases hstep
    exact h.read hnext (fun _ _ hp => hp) fun _ _ hr => hr
  · cases hstep
    exact h.read hnext (fun _ _ hp => hempty _ _ _ hp) fun _ _ hr => hr
  · cases hstep
    exact h.read hnext (fun _ _ hp => hp) fun _ _ hr => hempty _ _ _ hr
  · cases hstep

theorem Tidy.init : Tidy {} :=
  ⟨Correlated.init, Registry.Each.empty, Registry.Each.empty, nofun⟩

/-- Every call has returned or was dropped. -/
def Quiet (s : Session) : Prop := s.calls.Each fun _ st => st.outstanding = false

theorem Tidy.pending_eq_empty (h : s.Tidy) (hquiet : s.Quiet) : s.pending = ∅ := by
  apply Registry.eq_empty_of_lookup
  intro id
  by_contra hsome
  obtain ⟨c, hp⟩ := Option.ne_none_iff_exists'.mp hsome
  obtain ⟨st, hst, hchan⟩ := h.channels id c hp
  have hdone := hquiet c st hst
  cases st <;> simp_all [Stage.outstanding, Stage.hasChannel]

theorem Tidy.requestContext_eq_empty (h : s.Tidy) (hquiet : s.Quiet) : s.requestContext = ∅ := by
  apply Registry.eq_empty_of_lookup
  intro id
  by_contra hsome
  obtain ⟨r, hr⟩ := Option.ne_none_iff_exists'.mp hsome
  obtain ⟨c, st, hst, _, hhas⟩ := h.contexts id r hr
  have hdone := hquiet c st hst
  cases st <;> simp_all [Stage.outstanding, Stage.hasContext]

end Session

open Session

/-- **Request correlation.** In every run of careful steps: a call returns only a message that
    carries its own number and is not a request of the server, no line is returned by two
    calls, and with no call outstanding both maps are empty. -/
theorem request_correlation (actions : List Action) (s : Session)
    (hguard : requestMachine.Guarded Careful requestMachine.init actions)
    (hrun : requestMachine.run requestMachine.init actions = some s) :
    (∀ c id m, s.calls c = some (.returned id (.ok m)) → Answers m.value id) ∧
    (∀ c c' id id' m m', s.calls c = some (.returned id (.ok m)) →
      s.calls c' = some (.returned id' (.ok m')) → m.index = m'.index → c = c') ∧
    (s.Quiet → s.pending = ∅ ∧ s.requestContext = ∅) := by
  have h : s.Tidy := by
    refine Machine.run_invariant ?_ Tidy.init hguard hrun
    intro s a s' h hg hstep
    cases a with
    | call c step => exact h.stepCall hg hstep
    | reader step => exact h.stepReader hg hstep
  refine ⟨?_, ?_, ?_⟩
  · intro c id m hreturned
    exact (correlated_run hrun).returned_answers hreturned
  · intro c c' id id' m m' hc hc' hindex
    exact (correlated_run hrun).returned_once hc hc' hindex
  · intro hquiet
    exact ⟨h.pending_eq_empty hquiet, h.requestContext_eq_empty hquiet⟩

/-- A call up to its wait for the response. -/
def waitingCall : List Action :=
  [.call 0 (.start ⟨⟨"w".toList, "account/login/start".toList⟩, .null⟩), .call 0 .register,
    .call 0 .registerContext, .call 0 (.write (.ok ()))]

/-- A line with the number 1 and the given further entries. -/
def lineOne (entries : List (Text × Json)) : Json :=
  .object (("id".toList, .number "1".toList) :: entries)

/-- The reader works through a line. -/
def readLine (value : Json) : List Action :=
  [.reader (.line (some value)), .reader .lookup, .reader .dispatch]

def answeredRun : List Action :=
  waitingCall ++ readLine (lineOne [("result".toList, .null)]) ++ [.call 0 .receive]

theorem answeredRun_careful :
    requestMachine.Guarded Careful requestMachine.init answeredRun := by
  refine ⟨trivial, ?_⟩
  rintro _ ⟨⟩
  refine ⟨trivial, ?_⟩
  rintro _ ⟨⟩
  refine ⟨?_, ?_⟩
  · rintro _ ⟨⟩
    rfl
  rintro _ ⟨⟩
  refine ⟨trivial, ?_⟩
  rintro _ ⟨⟩
  refine ⟨trivial, ?_⟩
  rintro _ ⟨⟩
  refine ⟨trivial, ?_⟩
  rintro _ ⟨⟩
  refine ⟨?_, ?_⟩
  · -- the lookup has removed the context of the request
    rintro _ _ ⟨⟩ _ id c htarget
    obtain ⟨⟨hid, _⟩, _⟩ := target_eq_some htarget
    obtain rfl : 1 = id := Option.some.inj hid
    rfl
  rintro _ ⟨⟩
  exact ⟨trivial, fun _ _ => trivial⟩

/-- A run of careful steps in which a call gets its response. -/
theorem correlation_answeredRun :
    ∃ s m, requestMachine.run requestMachine.init answeredRun = some s ∧
      s.calls 0 = some (.returned 1 (.ok m)) ∧ Answers m.value 1 := by
  obtain ⟨s, m, hrun, hreturned⟩ :
      ∃ s m, requestMachine.run requestMachine.init answeredRun = some s ∧
        s.calls 0 = some (.returned 1 (.ok m)) := ⟨_, _, rfl, rfl⟩
  have h := request_correlation answeredRun s answeredRun_careful hrun
  exact ⟨s, m, hrun, hreturned, h.1 0 1 m hreturned⟩

/-- A call that its caller drops while it waits. -/
def droppedRun : List Action := waitingCall ++ [.call 0 .drop]

/-- A call that gets a line with its number and neither a method nor a result nor an error. -/
def bareLineRun : List Action := waitingCall ++ readLine (lineOne []) ++ [.call 0 .receive]

/-- **Entries are left behind.** A dropped call leaves its entries in both maps, and a call
    answered by a line without result and error leaves its context. -/
theorem entries_left_behind :
    (∃ s, requestMachine.run requestMachine.init droppedRun = some s ∧ s.Quiet ∧
      s.pending.lookup 1 = some 0 ∧ (s.requestContext.lookup 1).isSome) ∧
    (∃ s, requestMachine.run requestMachine.init bareLineRun = some s ∧ s.Quiet ∧
      (s.requestContext.lookup 1).isSome) := by
  refine ⟨⟨_, rfl, ?_, rfl, rfl⟩, ⟨_, rfl, ?_, rfl⟩⟩
  · show Tasks.Each _ (Tasks.set _ 0 (Stage.dropped 1))
    refine Tasks.Each.set_alone rfl ?_
    intro j hj
    show ((((Tasks.idle.set 0 _).set 0 _).set 0 _).set 0 (Stage.waiting 1)) j = none
    simp [hj]
  · show Tasks.Each _ (Tasks.set _ 0 (Stage.returned 1 (.ok ⟨0, lineOne []⟩)))
    refine Tasks.Each.set_alone rfl ?_
    intro j hj
    show ((((Tasks.idle.set 0 _).set 0 _).set 0 _).set 0 (Stage.waiting 1)) j = none
    simp [hj]

end CodexMonitor.AppServer
