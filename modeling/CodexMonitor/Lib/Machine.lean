import Mathlib.Logic.Basic

namespace CodexMonitor

/-!
# Machines — runs and the invariants they keep

A `Machine` is a start state and a partial step function: an action either moves the
machine on or is not possible in the state at hand.  What an interleaved system can do is
the runs of its machine; nondeterminism lies in the choice of the next action.

* `run` — the state after a list of actions, if each was possible.
* `Guarded` — a condition on a step's action and the state it starts from, met by every
  step of a run.
* `run_invariant` — what every guarded step keeps, every guarded run keeps.
* `run_total` — where every guarded step is possible, so is every guarded run.
* `guarded_iff` — two conditions that agree under an invariant guard the same runs.
* `always_iff` — the runs on which something always holds are those whose steps meet a condition.
-/

/-- A start state, and the actions possible in each state. -/
structure Machine (σ α : Type*) where
  init : σ
  step : σ → α → Option σ

namespace Machine

variable {σ α : Type*} (M : Machine σ α)

/-- The state after the actions; `none` if one of them was not possible. -/
def run : σ → List α → Option σ
  | s, [] => some s
  | s, a :: as => (M.step s a).bind fun s' => run s' as

/-- Every step of the run meets the condition `P`. -/
def Guarded (P : σ → α → Prop) : σ → List α → Prop
  | _, [] => True
  | s, a :: as => P s a ∧ ∀ s', M.step s a = some s' → Guarded P s' as

variable {M} {P Q : σ → α → Prop} {I : σ → Prop} {s s' : σ} {a : α} {as bs : List α}

theorem run_cons (h : M.run s (a :: as) = some s') :
    ∃ next, M.step s a = some next ∧ M.run next as = some s' :=
  Option.bind_eq_some_iff.mp h

theorem run_append : M.run s (as ++ bs) = (M.run s as).bind fun s' => M.run s' bs := by
  induction as generalizing s with
  | nil => rfl
  | cons a as ih =>
    rw [List.cons_append, run, run]
    cases M.step s a with
    | none => rfl
    | some next => exact ih

theorem guarded_append :
    M.Guarded P s (as ++ bs) ↔
      M.Guarded P s as ∧ ∀ s', M.run s as = some s' → M.Guarded P s' bs := by
  induction as generalizing s with
  | nil =>
    constructor
    · intro h
      exact ⟨trivial, fun s' hs' => Option.some.inj hs' ▸ h⟩
    · intro h
      exact h.2 s rfl
  | cons a as ih =>
    constructor
    · rintro ⟨hp, hrest⟩
      refine ⟨⟨hp, fun s' hs' => (ih.mp (hrest s' hs')).1⟩, ?_⟩
      intro s' hs'
      obtain ⟨next, hnext, hrun⟩ := run_cons hs'
      exact (ih.mp (hrest next hnext)).2 s' hrun
    · rintro ⟨⟨hp, hfront⟩, hback⟩
      refine ⟨hp, ?_⟩
      intro next hnext
      refine ih.mpr ⟨hfront next hnext, ?_⟩
      intro s' hs'
      exact hback s' (by rw [run, hnext]; exact hs')

/-- A condition on the actions alone. -/
theorem guarded_of_forall (h : ∀ a ∈ as, ∀ s, P s a) (s : σ) : M.Guarded P s as := by
  induction as generalizing s with
  | nil => trivial
  | cons a as ih =>
    refine ⟨h a List.mem_cons_self s, fun s' _ => ?_⟩
    exact ih (fun b hb => h b (List.mem_cons_of_mem _ hb)) s'

/-- **Runs keep invariants.** What every step that meets `P` keeps is kept by every run
    whose steps all meet `P`. -/
theorem run_invariant (hstep : ∀ s a s', I s → P s a → M.step s a = some s' → I s')
    (hs : I s) (hguard : M.Guarded P s as) (hrun : M.run s as = some s') : I s' := by
  induction as generalizing s with
  | nil =>
    cases hrun
    exact hs
  | cons a as ih =>
    obtain ⟨next, hnext, hrest⟩ := run_cons hrun
    exact ih (hstep s a next hs hguard.1 hnext) (hguard.2 next hnext) hrest

/-- **Runs go through.** Where every step that meets `P` is possible, so is every run whose steps
    all meet it. -/
theorem run_total (hstep : ∀ s a, I s → P s a → ∃ s', M.step s a = some s' ∧ I s') (hs : I s)
    (hguard : M.Guarded P s as) : ∃ s', M.run s as = some s' ∧ I s' := by
  induction as generalizing s with
  | nil => exact ⟨s, rfl, hs⟩
  | cons a as ih =>
    obtain ⟨next, hnext, hinv⟩ := hstep s a hs hguard.1
    obtain ⟨s', hrun, hs'⟩ := ih hinv (hguard.2 next hnext)
    refine ⟨s', ?_, hs'⟩
    rw [run, hnext]
    exact hrun

/-- **Conditions that agree.** Where an invariant holds that `P` keeps, `P` may be read as `Q`
    along a whole run. -/
theorem guarded_iff (hstep : ∀ s a s', I s → P s a → M.step s a = some s' → I s')
    (hiff : ∀ s a, I s → (P s a ↔ Q s a)) (hs : I s) : M.Guarded P s as ↔ M.Guarded Q s as := by
  induction as generalizing s with
  | nil => exact Iff.rfl
  | cons a as ih =>
    constructor
    · rintro ⟨hp, hrest⟩
      refine ⟨(hiff s a hs).mp hp, ?_⟩
      intro s' hs'
      exact (ih (hstep s a s' hs hp hs')).mp (hrest s' hs')
    · rintro ⟨hq, hrest⟩
      have hp := (hiff s a hs).mpr hq
      refine ⟨hp, ?_⟩
      intro s' hs'
      exact (ih (hstep s a s' hs hp hs')).mpr (hrest s' hs')

section Always

variable {G : σ → Prop} {R : σ → α → Prop}

/-- **Always good.** Steps that meet `P` keep an invariant that is good, and a step that does not
    leads to a state that is not good: a run passes through good states only exactly if all its
    steps meet `P`. -/
theorem always_iff (hgood : ∀ s, I s → G s)
    (hkeep : ∀ s a s', I s → R s a → P s a → M.step s a = some s' → I s')
    (hbreak : ∀ s a, I s → R s a → ¬ P s a → ∃ s', M.step s a = some s' ∧ ¬ G s')
    (hs : I s) (hguard : M.Guarded R s as) :
    (∀ front back s', as = front ++ back → M.run s front = some s' → G s') ↔
      M.Guarded P s as := by
  induction as generalizing s with
  | nil =>
    refine ⟨fun _ => trivial, fun _ front back s' has hrun => ?_⟩
    obtain ⟨rfl, -⟩ := List.append_eq_nil_iff.mp has.symm
    obtain rfl := Option.some.inj hrun
    exact hgood _ hs
  | cons a as ih =>
    obtain ⟨hr, hguard⟩ := hguard
    constructor
    · intro hall
      have hp : P s a := by
        refine Classical.byContradiction fun hno => ?_
        obtain ⟨s', hstep, hbad⟩ := hbreak s a hs hr hno
        refine hbad (hall [a] as s' rfl ?_)
        rw [run, hstep]
        rfl
      refine ⟨hp, fun next hnext => (ih (hkeep s a next hs hr hp hnext) (hguard next hnext)).mp ?_⟩
      intro front back s' has hrun
      refine hall (a :: front) back s' (by rw [has, List.cons_append]) ?_
      rw [run, hnext]
      exact hrun
    · rintro ⟨hp, hrest⟩ front back s' has hrun
      cases front with
      | nil =>
        obtain rfl := Option.some.inj hrun
        exact hgood _ hs
      | cons b front =>
        obtain ⟨rfl, has'⟩ := List.cons.inj has
        obtain ⟨next, hnext, hrun'⟩ := run_cons hrun
        exact (ih (hkeep s a next hs hr hp hnext) (hguard next hnext)).mpr (hrest next hnext)
          front back s' has' hrun'

end Always

end Machine

end CodexMonitor
