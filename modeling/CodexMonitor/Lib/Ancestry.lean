import Mathlib.Logic.Relation
import Mathlib.Logic.Function.Basic

namespace CodexMonitor

/-!
# Ancestry — maps from a child to its parent

A partial map `parent` makes its domain a forest if no element is its own ancestor.

* `Descends` — the element itself, its parent, the parent of its parent and so on.
* `Forest` — no element is its own ancestor.
* `Forest.update_iff` — setting a parent keeps a forest exactly if the new parent does not
  descend from the child.
-/

namespace Ancestry

variable {α : Type*} {parent : α → Option α} {a b c p : α}

/-- `b` is `a`, or an ancestor of `a`. -/
def Descends (parent : α → Option α) : α → α → Prop :=
  Relation.ReflTransGen fun x y => parent x = some y

/-- No element is its own ancestor. -/
def Forest (parent : α → Option α) : Prop :=
  ∀ a b, parent a = some b → ¬ Descends parent b a

theorem forest_empty : Forest fun _ : α => none := by
  intro a b hparent
  cases hparent

theorem Descends.of_parent (h : parent a = some b) (hrest : Descends parent b c) :
    Descends parent a c :=
  Relation.ReflTransGen.head h hrest

/-- An element without a parent descends from itself only. -/
theorem Descends.eq_of_none (h : Descends parent a b) (ha : parent a = none) : a = b := by
  rcases Relation.ReflTransGen.cases_head h with heq | ⟨next, hnext, _⟩
  · exact heq
  · rw [ha] at hnext
    cases hnext

/-- A walk from an element goes through its parent. -/
theorem Descends.eq_or_parent (h : Descends parent a c) (ha : parent a = some b) :
    a = c ∨ Descends parent b c := by
  rcases Relation.ReflTransGen.cases_head h with heq | ⟨next, hnext, hrest⟩
  · exact .inl heq
  · rw [ha] at hnext
    cases hnext
    exact .inr hrest

variable [DecidableEq α]

/-- A walk of the changed map is one of the old map, or it passes the child: then the old map
    leads to the child, and from the new parent on. -/
theorem Descends.of_update (h : Descends (Function.update parent c (some p)) a b) :
    Descends parent a b ∨ Descends parent a c ∧ Descends parent p b := by
  induction h with
  | refl => exact .inl .refl
  | @tail x y _ hxy ih =>
    by_cases hx : x = c
    · subst hx
      obtain rfl : p = y := by simpa using hxy
      have hreach : Descends parent a x := by
        rcases ih with hold | ⟨hold, _⟩ <;> exact hold
      exact .inr ⟨hreach, .refl⟩
    · rw [Function.update_of_ne hx] at hxy
      rcases ih with hold | ⟨hold, hnew⟩
      · exact .inl (hold.tail hxy)
      · exact .inr ⟨hold, hnew.tail hxy⟩

/-- Up to the child the changed map leads where the old one does. -/
theorem Descends.update (h : Descends parent a c) :
    Descends (Function.update parent c (some p)) a c := by
  induction h using Relation.ReflTransGen.head_induction_on with
  | refl => exact .refl
  | @head x y hxy _ ih =>
    by_cases hx : x = c
    · subst hx
      exact .refl
    · have hstep : Function.update parent c (some p) x = some y := by
        rw [Function.update_of_ne hx, hxy]
      exact Descends.of_parent hstep ih

/-- **Setting a parent.** A forest stays one exactly if the new parent does not descend from
    the child. -/
theorem Forest.update_iff (h : Forest parent) :
    Forest (Function.update parent c (some p)) ↔ ¬ Descends parent p c := by
  constructor
  · intro hforest hdescends
    have hset : Function.update parent c (some p) c = some p := by simp
    exact hforest c p hset hdescends.update
  · intro hfree x y hxy hback
    by_cases hx : x = c
    · subst hx
      obtain rfl : p = y := by simpa using hxy
      rcases hback.of_update with hold | ⟨hold, _⟩
      · exact hfree hold
      · exact hfree hold
    · rw [Function.update_of_ne hx] at hxy
      rcases hback.of_update with hold | ⟨hchild, hnew⟩
      · exact h x y hxy hold
      · exact hfree (hnew.trans (Descends.of_parent hxy hchild))

end Ancestry

end CodexMonitor
