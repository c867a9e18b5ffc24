import Mathlib.Data.List.Basic

namespace CodexMonitor

/-!
# Escapes — a mark in front of some elements

* `escapeWith` — the list with a mark in front of each element of a class.
* `mem_escapeWith` — its elements, and `escapeWith_eq_self_iff`, when nothing is marked.
-/

variable {α : Type*} {mark a : α} {p : α → Bool} {l : List α}

def escapeWith (mark : α) (p : α → Bool) (l : List α) : List α :=
  l.flatMap fun a => if p a then [mark, a] else [a]

theorem escapeWith_cons_of_pos (h : p a = true) :
    escapeWith mark p (a :: l) = mark :: a :: escapeWith mark p l := by
  unfold escapeWith
  rw [List.flatMap_cons, if_pos h]
  rfl

theorem escapeWith_cons_of_neg (h : p a = false) :
    escapeWith mark p (a :: l) = a :: escapeWith mark p l := by
  unfold escapeWith
  rw [List.flatMap_cons, if_neg (by rw [h]; exact Bool.false_ne_true)]
  rfl

theorem mem_escapeWith (hne : a ≠ mark) : a ∈ escapeWith mark p l ↔ a ∈ l := by
  induction l with
  | nil => rfl
  | cons b l ih =>
    cases hb : p b with
    | true =>
      rw [escapeWith_cons_of_pos hb, List.mem_cons, List.mem_cons, List.mem_cons, ih,
        or_iff_right hne]
    | false => rw [escapeWith_cons_of_neg hb, List.mem_cons, List.mem_cons, ih]

theorem length_le_escapeWith (l : List α) : l.length ≤ (escapeWith mark p l).length := by
  induction l with
  | nil => exact Nat.zero_le _
  | cons b l ih =>
    cases hb : p b with
    | true =>
      rw [escapeWith_cons_of_pos hb]
      simp only [List.length_cons]
      omega
    | false =>
      rw [escapeWith_cons_of_neg hb]
      simp only [List.length_cons]
      omega

/-- **Nothing is marked** exactly if the list has no element of the class. -/
theorem escapeWith_eq_self_iff : escapeWith mark p l = l ↔ ∀ a ∈ l, p a = false := by
  induction l with
  | nil => exact iff_of_true rfl nofun
  | cons b l ih =>
    rw [List.forall_mem_cons]
    cases hb : p b with
    | true =>
      refine iff_of_false (fun heq => ?_) (fun h => Bool.noConfusion h.1)
      rw [escapeWith_cons_of_pos hb] at heq
      have hlen := congrArg List.length heq
      have hle := @length_le_escapeWith α mark p l
      simp only [List.length_cons] at hlen
      omega
    | false =>
      rw [escapeWith_cons_of_neg hb, List.cons_inj_right, ih]
      exact (and_iff_right rfl).symm

end CodexMonitor
