import CodexMonitor.Threads.QueuedSend
import CodexMonitor.Lib.Ledger

namespace CodexMonitor.Threads

/-!
# Threads — no queued message is lost, doubled or overtaken

Each thread's messages form a `Ledger`: accepted, being sent, queued and removed, of those
enqueued.  The hook keeps the ledgers as long as

* no flushed send returns `blocked` or `steer_failed`: the continuation drops such a
  message, although its `catch` would have put it back, and
* the in-flight effect frees a slot only when the send of the message in it is over:
  otherwise the next message is sent beside it.

`OrderlyStep` is that condition on a step, `Accounts` the invariant, and `accounts_run` the
result for whole runs.
-/

variable {s s' : QueueState}

/-! ### Accounting -/

/-- The messages of a thread whose sends are under way. -/
def QueueState.flushedTags (s : QueueState) (t : ThreadId) : List Nat :=
  (s.flushed.filter fun f => f.threadId = t).map fun f => f.item.tag

def QueueState.queuedTags (s : QueueState) (t : ThreadId) : List Nat :=
  (s.queuedByThread t).map QueuedMessage.tag

/-- The message in a thread's slot, unless it was accepted already. -/
def QueueState.inFlightTags (s : QueueState) (t : ThreadId) : List Nat :=
  ((s.inFlightByThread t).map QueuedMessage.tag).toList.filter fun tag => tag ∉ s.accepted t

/-- The ledgers, and how the slots go with the sends under way. -/
structure Accounts (s : QueueState) : Prop where
  ledger : ∀ t,
    Ledger (s.accepted t) (s.flushedTags t) (s.queuedTags t) (s.removed t) (s.enqueued t)
  fresh : ∀ t, ∀ tag ∈ s.enqueued t, tag < s.nextTag
  holds : ∀ f ∈ s.flushed, s.inFlightByThread f.threadId = some f.item
  slot : ∀ t item, s.inFlightByThread t = some item →
    item.tag ∈ s.flushedTags t ∨ item.tag ∈ s.accepted t

/-- The condition under which a step keeps the accounts. -/
def OrderlyStep (s : QueueState) : QueueAction → Prop
  -- a flushed send that reports failure without throwing is dropped
  | .flushedSettled _ outcome =>
      outcome ≠ .returned .blocked ∧ outcome ≠ .returned .steerFailed
  -- the slot is not freed while the send of its message is under way
  | .render => ∀ t, s.activeThreadId = some t → s.hasStartedByThread t = true →
      (s.isProcessing t || s.isReviewing t) = false → ∀ f ∈ s.flushed, f.threadId ≠ t
  | _ => True

theorem accounts_initial : Accounts QueueState.initial :=
  { ledger := fun _ => Ledger.empty
    fresh := fun _ tag h => absurd h List.not_mem_nil
    holds := fun f h => absurd h List.not_mem_nil
    slot := fun t item h => by cases h }

/-! ### Moves of the queue -/

theorem accounts_enqueueMessage (h : Accounts s) (t : ThreadId) (id : Text) (draft : Draft) :
    Accounts (enqueueMessage s t id draft) := by
  refine ⟨fun t' => ?_, fun t' tag htag => ?_, h.holds, h.slot⟩
  · by_cases ht : t' = t
    · subst ht
      have := (h.ledger t').enter (h.fresh t')
      simpa [enqueueMessage, QueueState.queuedTags, QueueState.flushedTags] using this
    · simpa [enqueueMessage, QueueState.queuedTags, QueueState.flushedTags, ht] using h.ledger t'
  · by_cases ht : t' = t
    · subst ht
      have htag' : tag ∈ s.enqueued t' ∨ tag = s.nextTag := by simpa [enqueueMessage] using htag
      rcases htag' with hold | rfl
      · exact Nat.lt_succ_of_lt (h.fresh t' tag hold)
      · exact Nat.lt_succ_self _
    · have hold : tag ∈ s.enqueued t' := by simpa [enqueueMessage, ht] using htag
      exact Nat.lt_succ_of_lt (h.fresh t' tag hold)

theorem accounts_removeQueuedMessage (h : Accounts s) (t : ThreadId) (messageId : Text) :
    Accounts (removeQueuedMessage s t messageId) := by
  refine ⟨fun t' => ?_, h.fresh, h.holds, h.slot⟩
  by_cases ht : t' = t
  · subst ht
    -- the queue splits into the entries that stay and those with the id
    have hkept : ((s.queuedByThread t').filter fun entry => entry.id != messageId).map
        QueuedMessage.tag |>.Sublist (s.queuedTags t') := List.filter_sublist.map _
    have hperm : (((s.queuedByThread t').filter fun entry => entry.id != messageId).map
          QueuedMessage.tag ++ ((s.queuedByThread t').filter fun entry => entry.id == messageId).map
          QueuedMessage.tag).Perm (s.queuedTags t') := by
      rw [← List.map_append]
      refine List.Perm.map _ ?_
      have hp := List.filter_append_perm (fun entry : QueuedMessage => entry.id != messageId)
        (s.queuedByThread t')
      simpa [bne] using hp
    have := (h.ledger t').withdraw hkept hperm
    simpa [removeQueuedMessage, QueueState.queuedTags, QueueState.flushedTags] using this
  · simpa [removeQueuedMessage, QueueState.queuedTags, QueueState.flushedTags, ht] using h.ledger t'

/-! ### Flushing and releasing -/

/-- A thread with a free slot has no send under way. -/
theorem flushedTags_eq_nil (h : Accounts s) {t : ThreadId} (hslot : s.inFlightByThread t = none) :
    s.flushedTags t = [] := by
  rw [QueueState.flushedTags, List.map_eq_nil_iff, List.filter_eq_nil_iff]
  intro f hf hft
  have hheld := h.holds f hf
  rw [of_decide_eq_true hft, hslot] at hheld
  cases hheld

/-- The flush effect's move: the first queued message goes into the free slot. -/
theorem accounts_flush (h : Accounts s) {t : ThreadId} {item : QueuedMessage}
    {rest : List QueuedMessage} (command : Option SlashCommandKind)
    (hslot : s.inFlightByThread t = none) (hqueue : s.queuedByThread t = item :: rest) :
    Accounts { rendered s with
      inFlightByThread := Function.update s.inFlightByThread t (some item)
      hasStartedByThread := Function.update s.hasStartedByThread t false
      queuedByThread := Function.update s.queuedByThread t rest
      flushed := s.flushed ++ [⟨t, item, command⟩] } := by
  have hnil := flushedTags_eq_nil h hslot
  refine ⟨fun t' => ?_, h.fresh, fun f hf => ?_, fun t' item' hitem' => ?_⟩
  · -- in the ledger the first queued message moves to the sends under way
    by_cases ht : t' = t
    · subst ht
      have hledger := h.ledger t'
      rw [hnil, QueueState.queuedTags, hqueue] at hledger
      have hnil' := hnil
      simp only [QueueState.flushedTags, List.map_eq_nil_iff] at hnil'
      simpa [rendered, QueueState.queuedTags, QueueState.flushedTags, hnil'] using hledger.take
    · simpa [rendered, QueueState.queuedTags, QueueState.flushedTags, ht, Ne.symm ht]
        using h.ledger t'
  · -- the sends of other threads still hold their slots
    rcases List.mem_append.mp hf with hold | hnew
    · have hne : f.threadId ≠ t := by
        intro heq
        have hheld := h.holds f hold
        rw [heq, hslot] at hheld
        cases hheld
      simpa [hne] using h.holds f hold
    · rw [List.mem_singleton.mp hnew]
      simp
  · by_cases ht : t' = t
    · subst ht
      obtain rfl : item = item' := by simpa using hitem'
      exact .inl (by simp [QueueState.flushedTags])
    · rcases h.slot t' item' (by simpa [ht] using hitem') with hflushed | haccepted
      · exact .inl (by simpa [QueueState.flushedTags, Ne.symm ht] using hflushed)
      · exact .inr haccepted

/-- Freeing the slot of a thread with no send under way. -/
theorem accounts_release (h : Accounts s) {t : ThreadId} (hidle : ∀ f ∈ s.flushed, f.threadId ≠ t)
    (started : ThreadId → Bool) :
    Accounts { rendered s with
      inFlightByThread := Function.update s.inFlightByThread t none
      hasStartedByThread := started } := by
  refine ⟨h.ledger, h.fresh, fun f hf => ?_, fun t' item' hitem' => ?_⟩
  · simpa [hidle f hf] using h.holds f hf
  · by_cases ht : t' = t
    · subst ht
      simp at hitem'
    · exact h.slot t' item' (by simpa [ht] using hitem')

theorem accounts_render (h : Accounts s) (horderly : OrderlyStep s .render) :
    Accounts (render s) := by
  rcases render_cases s with hr | ⟨t, hactive, ⟨item, -, -, hr⟩ | ⟨item, -, hidle, hstarted, hr⟩ |
    ⟨item, rest, hslot, -, hqueue, hr⟩⟩
  · rw [hr]
    exact ⟨h.ledger, h.fresh, h.holds, h.slot⟩
  · rw [hr]
    exact ⟨h.ledger, h.fresh, h.holds, h.slot⟩
  · rw [hr]
    exact accounts_release h (horderly t hactive hstarted hidle) _
  · rw [hr]
    exact accounts_flush h _ hslot hqueue

/-! ### Completing a send -/

/-- Around an element of a list. -/
theorem exists_split_eraseIdx {α : Type*} {l : List α} {i : Nat} {a : α} (h : l[i]? = some a) :
    ∃ pre post, l = pre ++ a :: post ∧ l.eraseIdx i = pre ++ post := by
  obtain ⟨hi, rfl⟩ := List.getElem?_eq_some_iff.mp h
  refine ⟨l.take i, l.drop (i + 1), ?_, List.eraseIdx_eq_take_drop_succ l i⟩
  rw [← List.drop_eq_getElem_cons hi, List.take_append_drop]

/-- A thread has at most one send under way, that of the message in its slot. -/
theorem flushed_split (h : Accounts s) {i : Nat} {done : Flushed} (hi : s.flushed[i]? = some done) :
    s.flushedTags done.threadId = [done.item.tag] ∧
      ∀ t, (s.flushed.eraseIdx i).filter (fun f => f.threadId = t) =
        if t = done.threadId then [] else s.flushed.filter fun f => f.threadId = t := by
  obtain ⟨pre, post, hsplit, herase⟩ := exists_split_eraseIdx hi
  -- two sends of one thread would be of the message in its slot, but their tags increase
  have hsame : ∀ f ∈ s.flushed, f.threadId = done.threadId → f.item.tag = done.item.tag := by
    intro f hf ht
    have hdone := h.holds done (by simp [hsplit])
    have hother := h.holds f hf
    rw [ht, hdone] at hother
    rw [Option.some.inj hother]
  have hsorted : (s.flushedTags done.threadId).Pairwise (· < ·) := by
    have hord := (h.ledger done.threadId).ordered
    exact (List.pairwise_append.mp (List.pairwise_append.mp hord).1).2.1
  simp only [QueueState.flushedTags, hsplit, List.filter_append, List.map_append, List.filter_cons,
    decide_true, if_true, List.map_cons, List.pairwise_append, List.pairwise_cons] at hsorted
  obtain ⟨-, ⟨hpost, -⟩, hpre⟩ := hsorted
  have hpreNil : (pre.filter fun f => f.threadId = done.threadId) = [] := by
    rw [List.filter_eq_nil_iff]
    intro f hf hft
    have hlt := hpre f.item.tag (List.mem_map.mpr ⟨f, List.mem_filter.mpr ⟨hf, hft⟩, rfl⟩)
      done.item.tag List.mem_cons_self
    rw [hsame f (by simp [hsplit, hf]) (of_decide_eq_true hft)] at hlt
    exact lt_irrefl _ hlt
  have hpostNil : (post.filter fun f => f.threadId = done.threadId) = [] := by
    rw [List.filter_eq_nil_iff]
    intro f hf hft
    have hlt := hpost f.item.tag (List.mem_map.mpr ⟨f, List.mem_filter.mpr ⟨hf, hft⟩, rfl⟩)
    rw [hsame f (by simp [hsplit, hf]) (of_decide_eq_true hft)] at hlt
    exact lt_irrefl _ hlt
  refine ⟨by simp [QueueState.flushedTags, hsplit, hpreNil, hpostNil], fun t => ?_⟩
  rw [herase, hsplit]
  by_cases ht : t = done.threadId
  · subst ht
    simp [hpreNil, hpostNil]
  · simp [ht, Ne.symm ht]

/-- A message that went out is accepted. -/
theorem accounts_accept (h : Accounts s) {i : Nat} {done : Flushed}
    (hi : s.flushed[i]? = some done) :
    Accounts (accept { s with flushed := s.flushed.eraseIdx i } done) := by
  obtain ⟨hone, herase⟩ := flushed_split h hi
  refine ⟨fun t => ?_, h.fresh, fun f hf => ?_, fun t item hitem => ?_⟩
  · by_cases ht : t = done.threadId
    · subst ht
      have hledger := h.ledger done.threadId
      rw [hone] at hledger
      simpa [accept, QueueState.queuedTags, QueueState.flushedTags, herase] using hledger.finish
    · simpa [accept, QueueState.queuedTags, QueueState.flushedTags, herase, ht] using h.ledger t
  · -- the slot is not freed here: that is left to the next render that sees it idle
    exact h.holds f (List.mem_of_mem_eraseIdx hf)
  · rcases h.slot t item hitem with hflushed | haccepted
    · by_cases ht : t = done.threadId
      · subst ht
        rw [hone] at hflushed
        exact .inr (by simp [accept, List.mem_singleton.mp hflushed])
      · exact .inl (by simpa [accept, QueueState.flushedTags, herase, ht] using hflushed)
    · by_cases ht : t = done.threadId
      · subst ht
        exact .inr (by simp [accept, haccepted])
      · exact .inr (by simpa [accept, ht] using haccepted)

/-- A message whose send threw goes back to the front of its queue. -/
theorem accounts_threw (h : Accounts s) {i : Nat} {done : Flushed}
    (hi : s.flushed[i]? = some done) :
    Accounts (flushedSettled { s with flushed := s.flushed.eraseIdx i } done .threw) := by
  obtain ⟨hone, herase⟩ := flushed_split h hi
  refine ⟨fun t => ?_, h.fresh, fun f hf => ?_, fun t item hitem => ?_⟩
  · by_cases ht : t = done.threadId
    · subst ht
      have hledger := h.ledger done.threadId
      rw [hone] at hledger
      simpa [flushedSettled, prependQueuedMessage, QueueState.queuedTags, QueueState.flushedTags,
        herase] using hledger.putBack
    · simpa [flushedSettled, prependQueuedMessage, QueueState.queuedTags, QueueState.flushedTags,
        herase, ht] using h.ledger t
  · -- no other send holds the slot that is freed
    have hne : f.threadId ≠ done.threadId := by
      intro heq
      have hmem : f ∈ (s.flushed.eraseIdx i).filter fun f => f.threadId = done.threadId :=
        List.mem_filter.mpr ⟨hf, by simp [heq]⟩
      rw [herase, if_pos rfl] at hmem
      exact absurd hmem List.not_mem_nil
    simpa [flushedSettled, prependQueuedMessage, hne] using
      h.holds f (List.mem_of_mem_eraseIdx hf)
  · by_cases ht : t = done.threadId
    · subst ht
      simp [flushedSettled, prependQueuedMessage] at hitem
    · rcases h.slot t item (by simpa [flushedSettled, prependQueuedMessage, ht] using hitem) with
        hflushed | haccepted
      · exact .inl (by
          simpa [flushedSettled, prependQueuedMessage, QueueState.flushedTags, herase, ht]
            using hflushed)
      · exact .inr haccepted

/-! ### Runs -/

/-- **One step.** An orderly step keeps the accounts. -/
theorem accounts_step {a : QueueAction} (h : Accounts s) (horderly : OrderlyStep s a)
    (hstep : queueStep s a = some s') : Accounts s' := by
  cases a with
  | queueMessage id draft =>
    cases hstep
    rcases queueMessage_cases s id draft with heq | ⟨t, next, heq⟩ <;> rw [heq]
    · exact h
    · exact accounts_enqueueMessage h t id next
  | handleSend id draft submitIntent =>
    cases hstep
    rcases handleSend_cases s id draft submitIntent with heq | ⟨t, next, heq⟩ | ⟨direct, heq⟩ <;>
      rw [heq]
    · exact h
    · exact accounts_enqueueMessage h t id next
    · exact ⟨h.ledger, h.fresh, h.holds, h.slot⟩
  | directSettled index id status =>
    simp only [queueStep] at hstep
    split at hstep
    · cases hstep
    · rename_i send hsend
      cases hstep
      have hdirect : Accounts { s with direct := s.direct.eraseIdx index } :=
        ⟨h.ledger, h.fresh, h.holds, h.slot⟩
      rcases directSettled_cases { s with direct := s.direct.eraseIdx index } send id status with
        heq | ⟨t, next, heq⟩ <;> rw [heq]
      · exact hdirect
      · exact accounts_enqueueMessage hdirect t id next
  | removeQueuedMessage t messageId =>
    cases hstep
    exact accounts_removeQueuedMessage h t messageId
  | selectThread t =>
    cases hstep
    exact ⟨h.ledger, h.fresh, h.holds, h.slot⟩
  | setProcessing t isProcessing =>
    cases hstep
    exact ⟨h.ledger, h.fresh, h.holds, h.slot⟩
  | setReviewing t isReviewing =>
    cases hstep
    exact ⟨h.ledger, h.fresh, h.holds, h.slot⟩
  | setActiveTurnId t turnId =>
    cases hstep
    exact ⟨h.ledger, h.fresh, h.holds, h.slot⟩
  | setSettings settings =>
    cases hstep
    exact ⟨h.ledger, h.fresh, h.holds, h.slot⟩
  | render =>
    cases hstep
    exact accounts_render h horderly
  | flushedSettled index outcome =>
    simp only [queueStep] at hstep
    split at hstep
    · cases hstep
    · rename_i done hdone
      split at hstep
      · cases hstep
        cases outcome with
        -- the only outcome that puts the message back
        | threw => exact accounts_threw h hdone
        | ran => exact accounts_accept h hdone
        | returned status =>
          cases status with
          | sent => exact accounts_accept h hdone
          | blocked => exact absurd rfl horderly.1
          | steerFailed => exact absurd rfl horderly.2
      · cases hstep

/-- With the accounts kept, the message in a slot that was not accepted is the one whose
    send is under way. -/
theorem inFlightTags_eq_flushedTags (h : Accounts s) (t : ThreadId) :
    s.inFlightTags t = s.flushedTags t := by
  have hord := (h.ledger t).ordered
  have hapart := (List.pairwise_append.mp (List.pairwise_append.mp hord).1).2.2
  cases hslot : s.inFlightByThread t with
  | none => simp [QueueState.inFlightTags, hslot, flushedTags_eq_nil h hslot]
  | some item =>
    by_cases hflushed : item.tag ∈ s.flushedTags t
    · -- its send is under way, and the only one; it is not accepted, by the order of tags
      obtain ⟨f, hf, htag⟩ := List.mem_map.mp hflushed
      obtain ⟨hmem, hthread⟩ := List.mem_filter.mp hf
      obtain ⟨i, hi⟩ := List.mem_iff_getElem?.mp hmem
      obtain ⟨hone, -⟩ := flushed_split h hi
      rw [of_decide_eq_true hthread, htag] at hone
      have hnot : item.tag ∉ s.accepted t := fun hacc =>
        lt_irrefl _ (hapart item.tag hacc item.tag hflushed)
      simp [QueueState.inFlightTags, hslot, hnot, hone]
    · -- already accepted: a send under way would be of this very message
      have hacc : item.tag ∈ s.accepted t := (h.slot t item hslot).resolve_left hflushed
      have hnil : s.flushedTags t = [] := by
        by_contra hne
        obtain ⟨tag, htag⟩ := List.exists_mem_of_ne_nil _ hne
        obtain ⟨f, hf, -⟩ := List.mem_map.mp htag
        obtain ⟨hmem, hthread⟩ := List.mem_filter.mp hf
        have hheld := h.holds f hmem
        rw [of_decide_eq_true hthread, hslot] at hheld
        rw [Option.some.inj hheld] at hflushed
        exact hflushed (List.mem_map.mpr ⟨f, hf, rfl⟩)
      simp [QueueState.inFlightTags, hslot, hacc, hnil]

/-- What the accounts say of a thread: each message ever enqueued on it is exactly one of
    accepted, in flight, queued and removed by the user, and the accepted ones were accepted
    in the order in which they were enqueued, each once. -/
structure NothingLost (s : QueueState) (t : ThreadId) : Prop where
  once : ∀ tag ∈ s.enqueued t,
    (s.accepted t ++ s.inFlightTags t ++ s.queuedTags t ++ s.removed t).count tag = 1
  inOrder : (s.accepted t).Sublist (s.enqueued t)
  distinct : (s.enqueued t).Nodup

/-- **Nothing is lost or doubled.** In every run of orderly steps, on every thread. -/
theorem nothingLost_run (actions : List QueueAction) (s : QueueState)
    (horderly : queueMachine.Guarded OrderlyStep queueMachine.init actions)
    (hrun : queueMachine.run queueMachine.init actions = some s) (t : ThreadId) :
    NothingLost s t := by
  have h : Accounts s := Machine.run_invariant
    (fun _ _ _ h ho hs => accounts_step h ho hs) accounts_initial horderly hrun
  refine ⟨fun tag htag => ?_, (h.ledger t).done_sublist,
    (h.ledger t).sorted.imp fun hlt => ne_of_lt hlt⟩
  rw [inFlightTags_eq_flushedTags h]
  exact (h.ledger t).count_eq_one htag

/-! ### A message that is blocked -/

def mainThread : ThreadId := "main".toList

/-- A message is queued, flushed, seen processing, and its send returns `blocked`. -/
def blockedRun : List QueueAction :=
  [ .selectThread (some mainThread), .render, .queueMessage "m".toList { text := "hi".toList },
    .render, .setProcessing mainThread true, .render, .flushedSettled 0 (.returned .blocked),
    .setProcessing mainThread false, .render ]

def blockedState : QueueState :=
  (queueMachine.run queueMachine.init blockedRun).getD QueueState.initial

/-- **A blocked message is gone.** It is not queued, no slot holds it, no send of it is under
    way, it was not removed and not accepted. -/
theorem not_nothingLost_blocked :
    queueMachine.run queueMachine.init blockedRun = some blockedState ∧
      blockedState.enqueued mainThread = [0] ∧
      blockedState.queuedByThread mainThread = [] ∧
      blockedState.inFlightByThread mainThread = none ∧
      blockedState.flushed = [] ∧
      blockedState.accepted mainThread = [] ∧
      blockedState.removed mainThread = [] ∧
      ¬ NothingLost blockedState mainThread := by
  refine ⟨rfl, by decide, by decide, by decide, by decide, by decide, by decide, fun h => ?_⟩
  have hcount := h.once 0 (by decide)
  exact absurd hcount (by decide)

/-- A message is queued, flushed and sent. -/
def sentRun : List QueueAction :=
  [ .selectThread (some mainThread), .render, .queueMessage "m".toList { text := "hi".toList },
    .render, .flushedSettled 0 (.returned .sent) ]

def sentState : QueueState :=
  (queueMachine.run queueMachine.init sentRun).getD QueueState.initial

/-- `nothingLost_run` at `sentRun`. -/
theorem nothingLost_sentRun : NothingLost sentState mainThread := by
  refine nothingLost_run sentRun sentState ?_ rfl mainThread
  refine ⟨trivial, fun _ h => ?_⟩
  cases h
  refine ⟨fun _ _ hstarted => absurd hstarted Bool.false_ne_true, fun _ h => ?_⟩
  cases h
  refine ⟨trivial, fun _ h => ?_⟩
  cases h
  refine ⟨fun _ _ hstarted => absurd hstarted Bool.false_ne_true, fun _ h => ?_⟩
  cases h
  exact ⟨⟨by decide, by decide⟩, fun _ _ => trivial⟩

end CodexMonitor.Threads
