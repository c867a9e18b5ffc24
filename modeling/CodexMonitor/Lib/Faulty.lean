import Mathlib.Logic.Basic

namespace CodexMonitor

/-!
# Faulty — programs whose calls may fail

A program makes calls on a state; which of the calls fails, and what it leaves behind, is given by
the surroundings.  A run remembers whether the call that fails was reached.

* `Fault` — the call that fails, with the damage it does.
* `Faulty` — a program: a state monad with errors, run under at most one fault.
* `Faulty.Triple` — pre- and postconditions, one for the result and one for the error, with a rule
  for each construct.
-/

/-- The call that fails, and what it leaves. -/
structure Fault (κ δ : Type) where
  call : κ
  damage : δ
  deriving DecidableEq, Repr

/-- A state, and whether the fault was met. -/
structure Marked (σ : Type) where
  state : σ
  met : Bool := false

/-- A program with calls `κ`, damages `δ`, states `σ` and errors `ε`. -/
def Faulty (κ δ σ ε α : Type) : Type :=
  Option (Fault κ δ) → Marked σ → Except ε α × Marked σ

namespace Faulty

variable {κ δ σ ε α β : Type}

/-! ### Programs -/

instance : Monad (Faulty κ δ σ ε) where
  pure a := fun _ m => (.ok a, m)
  bind x f := fun fault m =>
    match x fault m with
    | (.ok a, m') => f a fault m'
    | (.error e, m') => (.error e, m')

def fail (e : ε) : Faulty κ δ σ ε α := fun _ m => (.error e, m)

/-- The state is read, which never fails. -/
def query (read : σ → α) : Faulty κ δ σ ε α := fun _ m => (.ok (read m.state), m)

/-- What a call does if it does not fail. -/
def perform (act : σ → Except ε (α × σ)) (m : Marked σ) : Except ε α × Marked σ :=
  match act m.state with
  | .ok (a, s) => (.ok a, { m with state := s })
  | .error e => (.error e, m)

/-- A call: what it does to the state, or the error that follows from the state.  If it is the call
    that fails, `spoil` is its error and what it leaves. -/
def call [DecidableEq κ] (k : κ) (act : σ → Except ε (α × σ)) (spoil : δ → σ → ε × σ) :
    Faulty κ δ σ ε α := fun fault m =>
  match fault with
  | none => perform act m
  | some f =>
      if f.call = k then (.error (spoil f.damage m.state).1, ⟨(spoil f.damage m.state).2, true⟩)
      else perform act m

theorem call_of_ne [DecidableEq κ] {k : κ} {act : σ → Except ε (α × σ)} {spoil : δ → σ → ε × σ}
    {fault : Option (Fault κ δ)} {m : Marked σ} (h : ∀ f, fault = some f → f.call ≠ k) :
    call k act spoil fault m = perform act m := by
  unfold call
  cases hf : fault with
  | none => rfl
  | some f => simp only [if_neg (h f hf)]

/-- The error is a result. -/
def attempt (x : Faulty κ δ σ ε α) : Faulty κ δ σ ε (Except ε α) := fun fault m =>
  (.ok (x fault m).1, (x fault m).2)

/-! ### Triples -/

/-- The run ended with a result that meets `Q`, or with an error in a state that meets `E`. -/
def Settles (Q : α → Marked σ → Prop) (E : Marked σ → Prop) : Except ε α × Marked σ → Prop
  | (.ok a, m) => Q a m
  | (.error _, m) => E m

/-- From states that meet `P` every run settles with `Q` or `E`. -/
def Triple (fault : Option (Fault κ δ)) (P : Marked σ → Prop) (x : Faulty κ δ σ ε α)
    (Q : α → Marked σ → Prop) (E : Marked σ → Prop) : Prop :=
  ∀ m, P m → Settles Q E (x fault m)

variable {fault : Option (Fault κ δ)} {P P' E E' : Marked σ → Prop} {Q Q' : α → Marked σ → Prop}
  {R : β → Marked σ → Prop} {x : Faulty κ δ σ ε α} {f : α → Faulty κ δ σ ε β} {m m' : Marked σ}

theorem Triple.bind (hx : Triple fault P x Q E) (hf : ∀ a, Triple fault (Q a) (f a) R E) :
    Triple fault P (x >>= f) R E := by
  intro m hm
  have hfirst := hx m hm
  show Settles R E (match x fault m with
    | (.ok a, m') => f a fault m'
    | (.error e, m') => (.error e, m'))
  rcases hrun : x fault m with ⟨result, m'⟩
  rw [hrun] at hfirst
  cases result with
  | error e => exact hfirst
  | ok a => exact hf a m' hfirst

theorem Triple.pure {a : α} (h : ∀ m, P m → Q a m) :
    Triple fault P (Pure.pure a : Faulty κ δ σ ε α) Q E := fun m hm => h m hm

theorem Triple.fail {e : ε} (h : ∀ m, P m → E m) :
    Triple fault P (Faulty.fail e : Faulty κ δ σ ε α) Q E := fun m hm => h m hm

theorem Triple.query {read : σ → α} (h : ∀ m, P m → Q (read m.state) m) :
    Triple fault P (Faulty.query read : Faulty κ δ σ ε α) Q E := fun m hm => h m hm

theorem Triple.weaken (h : Triple fault P x Q E) (hP : ∀ m, P' m → P m)
    (hQ : ∀ a m, Q a m → Q' a m) (hE : ∀ m, E m → E' m) : Triple fault P' x Q' E' := by
  intro m hm
  have hrun := h m (hP m hm)
  rcases hresult : x fault m with ⟨result, m'⟩
  rw [hresult] at hrun
  cases result with
  | error e => exact hE m' hrun
  | ok a => exact hQ a m' hrun

theorem Triple.mono_error (h : Triple fault P x Q E) (hE : ∀ m, E m → E' m) :
    Triple fault P x Q E' := h.weaken (fun _ hm => hm) (fun _ _ hm => hm) hE

/-- What holds of every state before the program may be assumed. -/
theorem Triple.assuming {A : Prop} (hA : ∀ m, P m → A) (h : A → Triple fault P x Q E) :
    Triple fault P x Q E := fun m hm => h (hA m hm) m hm

theorem Triple.attempt (h : Triple fault P x Q E) :
    Triple fault P x.attempt (fun result m => Settles Q E (result, m)) E' :=
  fun m hm => h m hm

/-- A call fails as the surroundings have it, or it does what the state makes it do. -/
theorem Triple.call [DecidableEq κ] {k : κ} {act : σ → Except ε (α × σ)} {spoil : δ → σ → ε × σ}
    (hfault : ∀ m g, P m → fault = some g → g.call = k → E ⟨(spoil g.damage m.state).2, true⟩)
    (hok : ∀ m a s, P m → act m.state = .ok (a, s) → Q a { m with state := s })
    (herror : ∀ m e, P m → act m.state = .error e → E m) :
    Triple fault P (Faulty.call k act spoil) Q E := by
  intro m hm
  have hnormal : Settles Q E (perform act m) := by
    unfold perform
    cases hact : act m.state with
    | ok result => exact hok m result.1 result.2 hm hact
    | error e => exact herror m e hm hact
  unfold Faulty.call
  cases hg : fault with
  | none => exact hnormal
  | some g =>
    by_cases hk : g.call = k
    · simp only [if_pos hk]
      exact hfault m g hm hg hk
    · simp only [if_neg hk]
      exact hnormal

/-! ### Clean states -/

/-- No fault was met so far. -/
def Clean (F : σ → Prop) (m : Marked σ) : Prop := m.met = false ∧ F m.state

/-- The run starts from here. -/
def From (s : σ) (m : Marked σ) : Prop := m = ⟨s, false⟩

theorem Triple.of_clean {F : σ → Prop} (h : ∀ s, F s → Triple fault (From s) x Q E) :
    Triple fault (Clean F) x Q E := by
  rintro ⟨s, met⟩ ⟨hmet, hs⟩
  exact h s hs ⟨s, met⟩ (by rw [From, show met = false from hmet])

/-- The result of the first program is handed on with the state. -/
theorem Triple.bind_clean {F : α → σ → Prop} (hx : Triple fault P x (fun a => Clean (F a)) E)
    (hf : ∀ a s, F a s → Triple fault (From s) (f a) R E) : Triple fault P (x >>= f) R E :=
  Triple.bind hx fun a => Triple.of_clean (hf a)

/-- The program goes on with the result or with the error of the first one. -/
theorem Triple.bind_attempt {F : α → σ → Prop} {g : Except ε α → Faulty κ δ σ ε β}
    (hx : Triple fault P x (fun a => Clean (F a)) E')
    (hok : ∀ a s, F a s → Triple fault (From s) (g (.ok a)) R E)
    (herror : ∀ e, Triple fault E' (g (.error e)) R E) : Triple fault P (x.attempt >>= g) R E := by
  refine Triple.bind hx.attempt fun result => ?_
  cases result with
  | ok a => exact Triple.of_clean (hok a)
  | error e => exact herror e

theorem Triple.pure_clean {a : α} {F : α → σ → Prop} {s : σ} (h : F a s) :
    Triple fault (From s) (Pure.pure a : Faulty κ δ σ ε α) (fun a => Clean (F a)) E := by
  refine Triple.pure fun m hm => ?_
  rw [From] at hm
  subst hm
  exact ⟨rfl, h⟩

theorem Triple.query_clean {read : σ → α} {F : α → σ → Prop} {s : σ} (h : F (read s) s) :
    Triple fault (From s) (Faulty.query read : Faulty κ δ σ ε α) (fun a => Clean (F a)) E := by
  refine Triple.query fun m hm => ?_
  rw [From] at hm
  subst hm
  exact ⟨rfl, h⟩

theorem Triple.fail_from {e : ε} {s : σ} (h : E ⟨s, false⟩) :
    Triple fault (From s) (Faulty.fail e : Faulty κ δ σ ε α) Q E := by
  refine Triple.fail fun m hm => ?_
  rw [From] at hm
  subst hm
  exact h

theorem Triple.call_from [DecidableEq κ] {k : κ} {act : σ → Except ε (α × σ)}
    {spoil : δ → σ → ε × σ} {F : α → σ → Prop} {s : σ}
    (hfault : ∀ g, fault = some g → g.call = k → E ⟨(spoil g.damage s).2, true⟩)
    (hok : ∀ a s', act s = .ok (a, s') → F a s')
    (herror : ∀ e, act s = .error e → E ⟨s, false⟩) :
    Triple fault (From s) (Faulty.call k act spoil) (fun a => Clean (F a)) E := by
  refine Triple.call ?_ ?_ ?_
  · intro m g hm hg hk
    rw [From] at hm
    subst hm
    exact hfault g hg hk
  · intro m a s' hm hact
    rw [From] at hm
    subst hm
    exact ⟨rfl, hok a s' hact⟩
  · intro m e hm hact
    rw [From] at hm
    subst hm
    exact herror e hact

/-- What a triple says of one run. -/
theorem Triple.run (h : Triple fault P x Q E) (hm : P m) {result : Except ε α}
    (hrun : x fault m = (result, m')) :
    (∃ a, result = .ok a ∧ Q a m') ∨ (∃ e, result = .error e ∧ E m') := by
  have hpost := h m hm
  rw [hrun] at hpost
  cases result with
  | error e => exact .inr ⟨e, rfl, hpost⟩
  | ok a => exact .inl ⟨a, rfl, hpost⟩

end Faulty

end CodexMonitor
