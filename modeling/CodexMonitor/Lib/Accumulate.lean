import Mathlib.Data.List.Basic

namespace CodexMonitor

/-!
# Folds that accumulate

A fold that may fail and whose steps each append to a measure of the state.

* `foldlM_accumulates` — a fold that succeeds has appended what each step appends.
* `foldlM_split` — a fold over two lists is two folds.
* `bind_eq_ok`, `mapError_eq_ok` — what a computation that succeeds went through.
-/

universe u v w x

variable {α : Type u} {σ : Type v} {γ : Type w} {ε : Type x} {step : σ → α → Except ε σ}
  {start last : σ} {l : List α}

/-- **A sequence that succeeds** succeeds in its first step, and then in the rest. -/
theorem bind_eq_ok {α β : Type u} {x : Except ε α} {f : α → Except ε β} {b : β}
    (h : (x >>= f) = .ok b) : ∃ a, x = .ok a ∧ f a = .ok b := by
  cases x with
  | error e => cases h
  | ok a => exact ⟨a, rfl, h⟩

theorem mapError_eq_ok {ε' : Type*} {x : Except ε α} {f : ε → ε'} {a : α}
    (h : x.mapError f = .ok a) : x = .ok a := by
  cases x with
  | error e => cases h
  | ok b =>
    obtain rfl := Except.ok.inj h
    rfl

/-- **A fold appends what its steps append.** -/
theorem foldlM_accumulates (measure : σ → List γ) (added : α → List γ)
    (hstep : ∀ {s a s'}, step s a = .ok s' → measure s' = measure s ++ added a)
    (h : l.foldlM step start = .ok last) : measure last = measure start ++ l.flatMap added := by
  induction l generalizing start with
  | nil =>
    obtain rfl := Except.ok.inj h
    exact (List.append_nil _).symm
  | cons a l ih =>
    rw [List.foldlM_cons] at h
    cases hnext : step start a with
    | error e =>
      rw [hnext] at h
      cases h
    | ok next =>
      rw [hnext] at h
      rw [ih h, hstep hnext, List.flatMap_cons, List.append_assoc]

/-- A fold over two lists passes through the state between them. -/
theorem foldlM_split {l₁ l₂ : List α} (h : (l₁ ++ l₂).foldlM step start = .ok last) :
    ∃ middle, l₁.foldlM step start = .ok middle ∧ l₂.foldlM step middle = .ok last := by
  rw [List.foldlM_append] at h
  cases hmiddle : l₁.foldlM step start with
  | error e =>
    rw [hmiddle] at h
    cases h
  | ok middle =>
    rw [hmiddle] at h
    exact ⟨middle, rfl, h⟩

/-- A check of every element that succeeds has succeeded for each. -/
theorem forM_ok {check : α → Except ε PUnit} (h : l.forM check = .ok ⟨⟩) {a : α} (ha : a ∈ l) :
    check a = .ok ⟨⟩ := by
  induction l with
  | nil => cases ha
  | cons b l ih =>
    rw [List.forM] at h
    cases hb : check b with
    | error e =>
      rw [hb] at h
      cases h
    | ok checked =>
      rw [hb] at h
      rcases List.mem_cons.mp ha with rfl | hmem
      · exact hb
      · exact ih h hmem

end CodexMonitor
