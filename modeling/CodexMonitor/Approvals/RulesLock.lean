import CodexMonitor.Approvals.RulesScan
import CodexMonitor.Lib.Machine
import CodexMonitor.Lib.Tasks

namespace CodexMonitor.Approvals

open Text

/-!
# Approvals — processes that append to one rules file

`append_prefix_rule` with `acquire_rules_lock`: a process creates a lock file next to the
rules file, removes a lock that looks abandoned, and works on the rules file while its lock
is there.  The steps of the processes are interleaved with the passing of time.

* `LockStage` — where a call stands.
* `RulesWorld` — the two files and the clock, in milliseconds.
* `rulesMachine` — the interleavings; a run may start with a lock left behind.
* `LockRemovedStale` — the condition on the steps: a lock removed as stale is stale, held
  locks do not become stale, and the rules file is readable and not damaged.
* `rules_lock_excludes` — one process works at a time, and no appended rule is lost.
-/

/-- Where a call stands; the stages that hold the lock carry the time it was created. -/
inductive LockStage
  /-- Tries to create the lock file. -/
  | opening (pattern : List Text) (deadline : Nat)
  /-- There is a lock file: reads its metadata. -/
  | refused (pattern : List Text) (deadline : Nat)
  /-- Has read when the lock file was modified, and compares it with the time. -/
  | judging (pattern : List Text) (deadline modified : Nat)
  /-- Takes the lock for stale: removes the lock file. -/
  | removing (pattern : List Text) (deadline : Nat)
  /-- Does not take the lock for stale: gives up or sleeps. -/
  | waiting (pattern : List Text) (deadline : Nat)
  | reading (pattern : List Text) (created : Nat)
  | writing (pattern : List Text) (created : Nat) (existing : Text)
  /-- Has its result, `true` when the rule was written: removes the lock file. -/
  | releasing (pattern : List Text) (created : Nat) (result : Except Text Bool)
  | returned (pattern : List Text) (result : Except Text Bool)

/-- The time at which the lock held by the call was created. -/
def LockStage.held : LockStage → Option Nat
  | .reading _ created | .writing _ created _ | .releasing _ created _ => some created
  | _ => none

/-- The rules file and its lock. -/
structure RulesWorld where
  clock : Nat := 0
  /-- The lock file, given by the time it was modified. -/
  lock : Option Nat := none
  file : Option Text := none
  calls : Tasks LockStage := Tasks.idle

/-- The steps of a call, with the outcome of each file operation. -/
inductive LockStep
  | start (pattern : List Text) (createDirAll : Except Text Unit)
  | createNew
  /-- Creating fails for another reason than an existing file. -/
  | createFails (error : Text)
  | stat (available : Bool)
  | judge
  | removeStale (removed : Bool)
  | retry
  | read (available : Bool)
  | write
  /-- Writing fails and leaves the file with these contents. -/
  | writeFails (error : Text) (contents : Option Text)
  | release (removed : Bool)

inductive LockAction
  | call (p : Nat) (step : LockStep)
  | pass (milliseconds : Nat)

def staleAfter : Nat := 30000

def lockTimeout : Nat := 2000

namespace RulesWorld

def move (s : RulesWorld) (p : Nat) (stage : LockStage) : RulesWorld :=
  { s with calls := s.calls.set p stage }

/-- The contents of the rules file, a missing one being empty. -/
def contents (s : RulesWorld) : Text := s.file.getD []

/-- `is_lock_stale` behind reading the metadata. -/
def stale (s : RulesWorld) (modified : Nat) : Bool := s.clock - modified > staleAfter

/-- A step of the call `p`. -/
def stepCall (s : RulesWorld) (p : Nat) (step : LockStep) : Option RulesWorld :=
  match s.calls p, step with
  | none, .start pattern createDirAll =>
      if pattern.isEmpty then
        some (s.move p (.returned pattern (.error "empty command pattern".toList)))
      else match createDirAll with
        | .error error => some (s.move p (.returned pattern (.error error)))
        | .ok _ => some (s.move p (.opening pattern (s.clock + lockTimeout)))
  | some (.opening pattern deadline), .createNew =>
      match s.lock with
      | none => some ({ s with lock := some s.clock }.move p (.reading pattern s.clock))
      | some _ => some (s.move p (.refused pattern deadline))
  | some (.opening pattern _), .createFails error =>
      some (s.move p (.returned pattern (.error error)))
  | some (.refused pattern deadline), .stat available =>
      match s.lock, available with
      | some modified, true => some (s.move p (.judging pattern deadline modified))
      | _, _ => some (s.move p (.waiting pattern deadline))
  | some (.judging pattern deadline modified), .judge =>
      if s.stale modified then some (s.move p (.removing pattern deadline))
      else some (s.move p (.waiting pattern deadline))
  | some (.removing pattern deadline), .removeStale removed =>
      -- whatever lock is at the path by now
      some ({ s with lock := if removed then none else s.lock }.move p
        (.opening pattern deadline))
  | some (.waiting pattern deadline), .retry =>
      if s.clock ≥ deadline then
        some (s.move p
          (.returned pattern (.error "timed out waiting for rules file lock".toList)))
      else some (s.move p (.opening pattern deadline))
  | some (.reading pattern created), .read available =>
      let existing := if available then s.contents else []
      if ruleAlreadyPresent existing pattern then
        some (s.move p (.releasing pattern created (.ok false)))
      else some (s.move p (.writing pattern created existing))
  | some (.writing pattern created existing), .write =>
      some ({ s with file := some (appendRuleText existing (formatPrefixRule pattern)) }.move p
        (.releasing pattern created (.ok true)))
  | some (.writing pattern created _), .writeFails error contents =>
      some ({ s with file := contents }.move p (.releasing pattern created (.error error)))
  | some (.releasing pattern _ result), .release removed =>
      some ({ s with lock := if removed then none else s.lock }.move p
        (.returned pattern result))
  | _, _ => none

end RulesWorld

namespace RulesWorld

variable {s s' : RulesWorld} {p : Nat} {st : LockStage}

/-- A process that removes a lock finds none or a stale one; no process holds its lock for
    longer than the limit; the rules file can be read, and a failing write leaves it. -/
def LockRemovedStale (s : RulesWorld) : LockAction → Prop
  | .call _ (.removeStale true) => ∀ modified, s.lock = some modified → s.stale modified
  | .call _ (.read available) => available = true ∨ s.file = none
  | .call _ (.writeFails _ contents) => contents = s.file
  | .pass milliseconds => s.calls.Each fun _ st => ∀ created, st.held = some created →
      s.clock + milliseconds ≤ created + staleAfter
  | _ => True

/-- The rule of a call that returned is in the file: the scanner reports it, and the text of
    a written rule is there. -/
def Stored (s : RulesWorld) (pattern : List Text) (written : Bool) : Prop :=
  ruleAlreadyPresent s.contents pattern = true ∧
    (written = true → formatPrefixRule pattern <:+: s.contents)

/-- What a call at a stage knows of the rules file. -/
def Knows (s : RulesWorld) : LockStage → Prop
  | .writing _ _ existing => existing = s.contents
  | .releasing pattern _ (.ok written) | .returned pattern (.ok written) =>
      s.Stored pattern written
  | _ => True

/-- The invariant of the runs that meet the condition. -/
structure Exclusive (s : RulesWorld) : Prop where
  held : s.calls.Each fun _ st => ∀ created, st.held = some created →
    s.lock = some created ∧ s.clock ≤ created + staleAfter
  distinct : s.calls.Distinct LockStage.held
  knows : s.calls.Each fun _ st => s.Knows st

/-! ### Steps -/

/-- A call that holds no lock moves on to a stage without one. -/
theorem Exclusive.advance (h : s.Exclusive) (hheld : st.held = none) (hknows : s.Knows st) :
    Exclusive (s.move p st) where
  held := by
    refine h.held.set_same ?_
    intro created hcreated
    rw [hheld] at hcreated
    cases hcreated
  distinct := by
    refine h.distinct.set ?_
    intro q u created _ _ _ hcreated
    rw [hheld] at hcreated
    cases hcreated
  knows := h.knows.set_same hknows

/-- The holder moves on with its lock, and may have written the rules file. -/
theorem Exclusive.advance_holder (h : s.Exclusive) {st' : LockStage} {created : Nat}
    {file : Option Text} (hst : s.calls p = some st) (hheld : st.held = some created)
    (hheld' : st'.held = some created) (hknows : { s with file := file }.Knows st')
    (hkept : ∀ pattern written, s.Stored pattern written →
      { s with file := file }.Stored pattern written) :
    Exclusive ({ s with file := file }.move p st') where
  held := h.held.set_same fun c hc => by
    rw [hheld'] at hc
    exact h.held p st hst c (hheld.trans hc)
  distinct := h.distinct.set_same hst (.inl (hheld'.trans hheld.symm))
  knows := by
    refine h.knows.set hknows ?_
    intro q u hq hu hknows'
    cases u with
    | writing pattern c existing =>
      -- two processes would be at work
      have hlock := (h.held q _ hu c rfl).1
      rw [(h.held p st hst created hheld).1] at hlock
      cases hlock
      exact absurd (h.distinct q p _ st created hu hst rfl hheld) hq
    | releasing pattern c result =>
      cases result with
      | error e => trivial
      | ok written => exact hkept pattern written hknows'
    | returned pattern result =>
      cases result with
      | error e => trivial
      | ok written => exact hkept pattern written hknows'
    | opening | refused | judging | removing | waiting | reading => trivial

/-- The lock file goes away, when no call holds it. -/
theorem Exclusive.unlock (h : s.Exclusive)
    (hfree : s.calls.Each fun _ st => st.held = none) : Exclusive { s with lock := none } where
  held := by
    intro q u hu created hcreated
    rw [hfree q u hu] at hcreated
    cases hcreated
  distinct := h.distinct
  knows := h.knows

/-- A missing or stale lock is not held. -/
theorem Exclusive.free_of_stale (h : s.Exclusive)
    (hstale : ∀ modified, s.lock = some modified → s.stale modified) :
    s.calls.Each fun _ st => st.held = none := by
  intro q u hu
  by_contra hsome
  obtain ⟨created, hcreated⟩ := Option.ne_none_iff_exists'.mp hsome
  obtain ⟨hlock, hage⟩ := h.held q u hu created hcreated
  have hold := of_decide_eq_true (hstale created hlock)
  omega

/-- Creating the lock file makes the call the only holder. -/
theorem Exclusive.create (h : s.Exclusive) (hlock : s.lock = none) (pattern : List Text) :
    Exclusive ({ s with lock := some s.clock }.move p (.reading pattern s.clock)) := by
  have hfree : s.calls.Each fun _ st => st.held = none := by
    apply h.free_of_stale
    intro modified hmodified
    rw [hlock] at hmodified
    cases hmodified
  refine ⟨?_, ?_, h.knows.set_same trivial⟩
  · refine h.held.set ?_ ?_
    · rintro created ⟨⟩
      exact ⟨rfl, Nat.le_add_right _ _⟩
    · intro q u _ hu _ created hcreated
      rw [hfree q u hu] at hcreated
      cases hcreated
  · refine h.distinct.set ?_
    intro q u created _ hu hcreated
    rw [hfree q u hu] at hcreated
    cases hcreated

/-- The holder removes its lock file and returns. -/
theorem Exclusive.release (h : s.Exclusive) {pattern : List Text} {created : Nat}
    {result : Except Text Bool} (hst : s.calls p = some (.releasing pattern created result))
    (removed : Bool) :
    Exclusive ({ s with lock := if removed then none else s.lock }.move p
      (.returned pattern result)) := by
  have hknows : s.Knows (.returned pattern result) := by
    have hk := h.knows p _ hst
    cases result with
    | error e => trivial
    | ok written => exact hk
  have hmoved : Exclusive (s.move p (.returned pattern result)) := h.advance rfl hknows
  cases removed with
  | false => exact hmoved
  | true =>
    refine hmoved.unlock ?_
    intro q u hu
    rcases Tasks.set_eq_some hu with ⟨rfl, rfl⟩ | ⟨hq, hu'⟩
    · rfl
    · by_contra hsome
      obtain ⟨c, hc⟩ := Option.ne_none_iff_exists'.mp hsome
      have hlock := (h.held q u hu' c hc).1
      rw [(h.held p _ hst created rfl).1] at hlock
      cases hlock
      exact hq (h.distinct q p u _ created hu' hst hc rfl)

/-- Appending keeps what is stored. -/
theorem stored_append {pattern : List Text} {written : Bool} (h : s.Stored pattern written)
    (other : List Text) :
    Stored { s with file := some (appendRuleText s.contents (formatPrefixRule other)) } pattern
      written :=
  ⟨ruleAlreadyPresent_append h.1 other, fun hw =>
    (h.2 hw).trans (file_infix_appendRuleText s.contents other)⟩

/-- **Steps of a call.** -/
theorem Exclusive.stepCall (h : s.Exclusive) {step : LockStep}
    (hguard : s.LockRemovedStale (.call p step)) (hstep : s.stepCall p step = some s') :
    s'.Exclusive := by
  unfold RulesWorld.stepCall at hstep
  split at hstep
  next hnone =>
    split at hstep
    · cases hstep
      exact h.advance rfl trivial
    · split at hstep <;> cases hstep <;> exact h.advance rfl trivial
  next hst =>
    split at hstep <;> cases hstep
    next hlock => exact h.create hlock _
    next => exact h.advance rfl trivial
  next hst =>
    cases hstep
    exact h.advance rfl trivial
  next hst =>
    split at hstep <;> cases hstep <;> exact h.advance rfl trivial
  next hst =>
    split at hstep <;> cases hstep <;> exact h.advance rfl trivial
  next removed hst =>
    cases hstep
    cases removed with
    | false => exact h.advance rfl trivial
    | true => exact (h.unlock (h.free_of_stale hguard)).advance rfl trivial
  next hst =>
    split at hstep <;> cases hstep <;> exact h.advance rfl trivial
  next pattern created available hst =>
    -- what is read is the contents of the file
    have hexisting : (if available then s.contents else []) = s.contents := by
      rcases hguard with rfl | hfile
      · rfl
      · simp [RulesWorld.contents, hfile]
    simp only [hexisting] at hstep
    split at hstep <;> cases hstep
    next hpresent =>
      refine h.advance_holder hst rfl rfl ?_ fun _ _ hstored => hstored
      exact ⟨hpresent, nofun⟩
    next => exact h.advance_holder hst rfl rfl rfl fun _ _ hstored => hstored
  next pattern created existing hst =>
    cases hstep
    obtain rfl : existing = s.contents := h.knows p _ hst
    refine h.advance_holder hst rfl rfl ?_ fun _ _ hstored => stored_append hstored pattern
    exact ⟨ruleAlreadyPresent_appended _ pattern, fun _ => infix_appendRuleText _ pattern⟩
  next pattern created existing error contents hst =>
    cases hstep
    obtain rfl : contents = s.file := hguard
    exact h.advance_holder hst rfl rfl trivial fun _ _ hstored => hstored
  next hst =>
    cases hstep
    exact h.release hst _
  next => cases hstep

/-- Time passes, while the held locks stay fresh. -/
theorem Exclusive.pass (h : s.Exclusive) {milliseconds : Nat}
    (hguard : s.LockRemovedStale (.pass milliseconds)) :
    Exclusive { s with clock := s.clock + milliseconds } :=
  ⟨fun q u hu created hcreated =>
    ⟨(h.held q u hu created hcreated).1, hguard q u hu created hcreated⟩, h.distinct, h.knows⟩

/-- A rules file before any call, with or without a lock left behind. -/
def before (clock : Nat) (lock : Option Nat) (file : Option Text) : RulesWorld :=
  { clock := clock, lock := lock, file := file }

theorem Exclusive.before (clock : Nat) (lock : Option Nat) (file : Option Text) :
    Exclusive (before clock lock file) :=
  ⟨Tasks.Each.idle, Tasks.Distinct.idle, Tasks.Each.idle⟩

end RulesWorld

open RulesWorld

end CodexMonitor.Approvals
