import CodexMonitor.Threads.QueuedSend

namespace CodexMonitor.Threads

/-!
# Threads — when the queue moves on

A slot is freed by the in-flight effect, and only for a thread that was seen busy since the
message went in.  A message that completes without making its thread look busy, such as
`/status`, keeps the slot for good.  `SeenStep` excludes that:

* an item that completes while it holds the slot has been seen busy, or its thread is busy;
* a thread that turns idle with an item in its slot was seen busy, or the item's send is
  still under way.

Under it an idle thread never holds back its queue (`not_jammed_run`).
-/

variable {s s' : QueueState}

/-- The active thread is idle and has messages queued, nothing of it is under way and the
    flush is not paused, but its slot is still taken after the in-flight effect. -/
def Jammed (s : QueueState) : Prop :=
  ∃ t, presentThread s.activeThreadId = some t ∧ s.isProcessing t = false ∧
    s.isReviewing t = false ∧ s.settings.queueFlushPaused = false ∧
    (∀ f ∈ s.flushed, f.threadId ≠ t) ∧ s.queuedByThread t ≠ [] ∧
    (inFlightEffect s s.options).inFlightByThread t ≠ none

/-- What keeps the slot of a thread alive: it was seen busy, it is busy, or the send of the
    item in the slot is under way. -/
def SlotAlive (s : QueueState) (t : ThreadId) (item : QueuedMessage) : Prop :=
  s.hasStartedByThread t = true ∨ (s.isProcessing t || s.isReviewing t) = true ∨
    ∃ f ∈ s.flushed, f.threadId = t ∧ f.item = item

/-- Every slot that is taken is alive. -/
def SlotsAlive (s : QueueState) : Prop :=
  ∀ t item, s.inFlightByThread t = some item → SlotAlive s t item

/-- A thread may turn idle: an item in its slot was seen busy or its send is under way. -/
def MayTurnIdle (s : QueueState) (t : ThreadId) : Prop :=
  ∀ item, s.inFlightByThread t = some item →
    s.hasStartedByThread t = true ∨ ∃ f ∈ s.flushed, f.threadId = t ∧ f.item = item

/-- The condition under which a step keeps the slots alive. -/
def SeenStep (s : QueueState) : QueueAction → Prop
  -- a render must see the thread busy before the send is over
  | .flushedSettled index outcome => ∀ done, s.flushed[index]? = some done → outcome ≠ .threw →
      s.inFlightByThread done.threadId = some done.item →
      s.hasStartedByThread done.threadId = true ∨
        (s.isProcessing done.threadId || s.isReviewing done.threadId) = true
  | .setProcessing t isProcessing =>
      isProcessing = true ∨ s.isReviewing t = true ∨ MayTurnIdle s t
  | .setReviewing t isReviewing =>
      isReviewing = true ∨ s.isProcessing t = true ∨ MayTurnIdle s t
  | _ => True

/-! ### Steps -/

theorem slotsAlive_render (h : SlotsAlive s) : SlotsAlive (render s) := by
  rcases render_cases s with hr | ⟨t, -, ⟨item, -, -, hr⟩ | ⟨item, -, -, -, hr⟩ |
    ⟨item, rest, -, -, -, hr⟩⟩
  · rw [hr]
    exact h
  · -- the thread was seen busy: its slot is now alive by the flag
    rw [hr]
    intro t' item' hitem'
    by_cases ht : t' = t
    · subst ht
      exact .inl (by simp)
    · rcases h t' item' hitem' with hs | halive
      · exact .inl (by simpa [ht] using hs)
      · exact .inr halive
  · -- the slot of the thread was freed
    rw [hr]
    intro t' item' hitem'
    by_cases ht : t' = t
    · subst ht
      simp at hitem'
    · rcases h t' item' (by simpa [ht] using hitem') with hs | halive
      · exact .inl (by simpa [ht] using hs)
      · exact .inr halive
  · -- an item was flushed into the slot, and its send is under way
    rw [hr]
    intro t' item' hitem'
    by_cases ht : t' = t
    · subst ht
      obtain rfl : item = item' := by simpa using hitem'
      exact .inr (.inr ⟨_, List.mem_append_right _ (List.mem_singleton.mpr rfl), rfl, rfl⟩)
    · rcases h t' item' (by simpa [ht] using hitem') with hs | hbusy | ⟨f, hf, hft⟩
      · exact .inl (by simpa [ht] using hs)
      · exact .inr (.inl hbusy)
      · exact .inr (.inr ⟨f, List.mem_append_left _ hf, hft⟩)

/-- The completion of one item leaves the other sends under way. -/
theorem mem_eraseIdx_of_ne {α : Type*} {l : List α} {i : Nat} {a b : α} (hi : l[i]? = some a)
    (hb : b ∈ l) (hne : b ≠ a) : b ∈ l.eraseIdx i := by
  obtain ⟨hlt, rfl⟩ := List.getElem?_eq_some_iff.mp hi
  obtain ⟨j, hj, rfl⟩ := List.mem_iff_getElem.mp hb
  exact List.mem_eraseIdx_iff_getElem.mpr ⟨j, hj, fun hij => hne (by subst hij; rfl), rfl⟩

theorem slotsAlive_settled (h : SlotsAlive s) {index : Nat} {done : Flushed} {outcome : Outcome}
    (hdone : s.flushed[index]? = some done) (hseen : SeenStep s (.flushedSettled index outcome)) :
    SlotsAlive (flushedSettled { s with flushed := s.flushed.eraseIdx index } done outcome) := by
  -- only the item that completed can lose what kept its slot alive
  have hrest : outcome ≠ .threw → SlotsAlive { s with flushed := s.flushed.eraseIdx index } := by
    intro hthrew t item hitem
    rcases h t item hitem with hs | hbusy | ⟨f, hf, rfl, rfl⟩
    · exact .inl hs
    · exact .inr (.inl hbusy)
    · by_cases hne : f = done
      · subst hne
        rcases hseen f hdone hthrew hitem with hs | hbusy
        · exact .inl hs
        · exact .inr (.inl hbusy)
      · exact .inr (.inr ⟨f, mem_eraseIdx_of_ne hdone hf hne, rfl, rfl⟩)
  cases outcome with
  | ran => exact hrest (by decide)
  | returned status =>
    cases status with
    | sent => exact hrest (by decide)
    | blocked => exact hrest (by decide)
    | steerFailed => exact hrest (by decide)
  -- a throw frees the slot of its thread
  | threw =>
    intro t item hitem
    by_cases ht : t = done.threadId
    · subst ht
      simp [flushedSettled, prependQueuedMessage] at hitem
    · rcases h t item (by simpa [flushedSettled, prependQueuedMessage, ht] using hitem) with
        hs | hbusy | ⟨f, hf, rfl, rfl⟩
      · exact .inl (by simpa [flushedSettled, prependQueuedMessage, ht] using hs)
      · exact .inr (.inl hbusy)
      · exact .inr (.inr ⟨f, mem_eraseIdx_of_ne hdone hf fun he => ht (he ▸ rfl), rfl, rfl⟩)

/-- A change of a thread's flags keeps its slot alive, if it may turn idle. -/
theorem slotsAlive_flags (h : SlotsAlive s) (t : ThreadId) (processing reviewing : ThreadId → Bool)
    (hother : ∀ t', t' ≠ t →
      (processing t' || reviewing t') = (s.isProcessing t' || s.isReviewing t'))
    (hturn : (processing t || reviewing t) = true ∨ MayTurnIdle s t) :
    SlotsAlive { s with isProcessing := processing, isReviewing := reviewing } := by
  intro t' item hitem
  by_cases ht : t' = t
  · subst ht
    rcases hturn with hbusy | hidle
    · exact .inr (.inl hbusy)
    · rcases hidle item hitem with hs | hflushed
      · exact .inl hs
      · exact .inr (.inr hflushed)
  · rcases h t' item hitem with hs | hbusy | hflushed
    · exact .inl hs
    · exact .inr (.inl ((hother t' ht).trans hbusy))
    · exact .inr (.inr hflushed)

/-- **One step.** A step under `SeenStep` keeps the slots alive. -/
theorem slotsAlive_step {a : QueueAction} (h : SlotsAlive s) (hseen : SeenStep s a)
    (hstep : queueStep s a = some s') : SlotsAlive s' := by
  cases a with
  | queueMessage id draft =>
    cases hstep
    rcases queueMessage_cases s id draft with heq | ⟨t, next, heq⟩ <;> rw [heq]
    · exact h
    · exact h
  | handleSend id draft submitIntent =>
    cases hstep
    rcases handleSend_cases s id draft submitIntent with heq | ⟨t, next, heq⟩ | ⟨direct, heq⟩ <;>
      rw [heq]
    · exact h
    · exact h
    · exact h
  | directSettled index id status =>
    simp only [queueStep] at hstep
    split at hstep
    · cases hstep
    · rename_i send hsend
      cases hstep
      rcases directSettled_cases { s with direct := s.direct.eraseIdx index } send id status with
        heq | ⟨t, next, heq⟩ <;> rw [heq]
      · exact h
      · exact h
  | removeQueuedMessage t messageId =>
    cases hstep
    exact h
  | selectThread t =>
    cases hstep
    exact h
  -- a thread that turns idle must not leave a slot behind that was never seen busy
  | setProcessing t isProcessing =>
    cases hstep
    refine slotsAlive_flags h t _ s.isReviewing (fun t' ht => by simp [ht]) ?_
    rcases hseen with rfl | hreviewing | hidle
    · exact .inl (by simp)
    · exact .inl (by simp [hreviewing])
    · exact .inr hidle
  | setReviewing t isReviewing =>
    cases hstep
    refine slotsAlive_flags h t s.isProcessing _ (fun t' ht => by simp [ht]) ?_
    rcases hseen with rfl | hprocessing | hidle
    · exact .inl (by simp)
    · exact .inl (by simp [hprocessing])
    · exact .inr hidle
  | setActiveTurnId t turnId =>
    cases hstep
    exact h
  | setSettings settings =>
    cases hstep
    exact h
  | render =>
    cases hstep
    exact slotsAlive_render h
  | flushedSettled index outcome =>
    simp only [queueStep] at hstep
    split at hstep
    · cases hstep
    · rename_i done hdone
      split at hstep
      · cases hstep
        exact slotsAlive_settled h hdone hseen
      · cases hstep

/-! ### Runs -/

/-- A slot that is alive is free after the in-flight effect of an idle thread. -/
theorem not_jammed_of_slotsAlive (h : SlotsAlive s) : ¬ Jammed s := by
  rintro ⟨t, hactive, hprocessing, hreviewing, -, hflushed, -, hslot⟩
  have hsome : s.activeThreadId = some t := (Option.filter_eq_some_iff.mp hactive).1
  have hoptions : presentThread s.options.activeThreadId = some t := hactive
  have hbusy : (s.options.isProcessing || s.options.isReviewing) = false := by
    simp [QueueState.options, hsome, hprocessing, hreviewing]
  cases hitem : s.inFlightByThread t with
  | none =>
    refine hslot ?_
    simp [inFlightEffect, hoptions, hitem]
  | some item =>
    -- idle with nothing under way, so only the flag can have kept the slot alive
    have hstarted : s.hasStartedByThread t = true := by
      rcases h t item hitem with hs | hb | ⟨f, hf, hft, -⟩
      · exact hs
      · simp [hprocessing, hreviewing] at hb
      · exact absurd hft (hflushed f hf)
    refine hslot ?_
    simp [inFlightEffect, hoptions, hitem, hbusy, hstarted]

/-- **The queue moves on.** In every run of steps under `SeenStep`, the active thread's slot
    is free for the next queued message whenever the thread is idle, nothing of it is under
    way and the flush is not paused. -/
theorem not_jammed_run (actions : List QueueAction) (s : QueueState)
    (hseen : queueMachine.Guarded SeenStep queueMachine.init actions)
    (hrun : queueMachine.run queueMachine.init actions = some s) : ¬ Jammed s :=
  not_jammed_of_slotsAlive
    (Machine.run_invariant (fun _ _ _ h hseen hs => slotsAlive_step h hseen hs)
      (fun _ _ hitem => by cases hitem) hseen hrun)

/-! ### A command that never looks busy -/

def statusThread : ThreadId := "main".toList

/-- `/status` is queued and run before another message is queued. -/
def statusRun : List QueueAction :=
  [ .selectThread (some statusThread), .render,
    .queueMessage "m1".toList { text := "/status".toList }, .render, .flushedSettled 0 .ran,
    .render, .queueMessage "m2".toList { text := "hi".toList } ]

def statusState : QueueState :=
  (queueMachine.run queueMachine.init statusRun).getD QueueState.initial

/-- **`/status` jams the queue.** It runs without the thread being busy, and its slot is
    never freed. -/
theorem jammed_status :
    queueMachine.run queueMachine.init statusRun = some statusState ∧ Jammed statusState :=
  ⟨rfl, statusThread, by decide, by decide, by decide, by decide, by decide, by decide, by decide⟩

/-- A message is queued and flushed, its turn is seen, and it is sent. -/
def turnRun : List QueueAction :=
  [ .selectThread (some statusThread), .render,
    .queueMessage "m1".toList { text := "hi".toList }, .render,
    .setProcessing statusThread true, .render, .flushedSettled 0 (.returned .sent) ]

def turnState : QueueState :=
  (queueMachine.run queueMachine.init turnRun).getD QueueState.initial

/-- `not_jammed_run` at `turnRun`. -/
theorem not_jammed_turnRun : ¬ Jammed turnState := by
  refine not_jammed_run turnRun turnState ?_ rfl
  refine ⟨trivial, fun _ h => ?_⟩
  cases h
  refine ⟨trivial, fun _ h => ?_⟩
  cases h
  refine ⟨trivial, fun _ h => ?_⟩
  cases h
  refine ⟨trivial, fun _ h => ?_⟩
  cases h
  refine ⟨.inl rfl, fun _ h => ?_⟩
  cases h
  refine ⟨trivial, fun _ h => ?_⟩
  cases h
  refine ⟨fun done hdone _ _ => ?_, fun _ _ => trivial⟩
  cases hdone
  exact .inl (by decide)

end CodexMonitor.Threads
