import Mathlib.Data.List.Induction

namespace CodexMonitor

/-!
# The n-th match from the end of a list

* `NthLast` — a list split at the element that is the `n`-th match of a predicate, counted from
  the end.
* `exists_nthLast`, `NthLast.unique` — there is one such split, if there are `n` matches.
* `NthLast.append`, `NthLast.trans` — the split when the list grows, and of the part before one.
-/

variable {α : Type*}

/-- `b` is the `n`-th match from the end. -/
structure NthLast (p : α → Bool) (n : Nat) (items before : List α) (b : α) (after : List α) :
    Prop where
  split : items = before ++ b :: after
  holds : p b = true
  count : after.countP p + 1 = n

variable {p : α → Bool} {n m : Nat} {items before before' after after' : List α} {b b' : α}

theorem NthLast.append (h : NthLast p n items before b after) (newer : List α) :
    NthLast p (n + newer.countP p) (items ++ newer) before b (after ++ newer) := by
  refine ⟨by rw [h.split, List.append_assoc]; rfl, h.holds, ?_⟩
  have hcount := h.count
  rw [List.countP_append]
  omega

theorem NthLast.pos (h : NthLast p n items before b after) : 0 < n := by
  have hcount := h.count
  omega

theorem NthLast.countP (h : NthLast p n items before b after) :
    items.countP p = before.countP p + n := by
  have hcount := h.count
  rw [h.split, List.countP_append, List.countP_cons_of_pos h.holds]
  omega

theorem exists_nthLast (hn : 0 < n) (hle : n ≤ items.countP p) :
    ∃ before b after, NthLast p n items before b after := by
  induction items using List.reverseRecOn generalizing n with
  | nil =>
    rw [List.countP_nil] at hle
    omega
  | append_singleton items x ih =>
    rw [List.countP_append, List.countP_singleton] at hle
    by_cases hx : p x = true
    · rw [if_pos hx] at hle
      by_cases hone : n = 1
      · exact ⟨items, x, [], rfl, hx, by rw [hone]; rfl⟩
      · obtain ⟨before, b, after, h⟩ := ih (n := n - 1) (by omega) (by omega)
        have hgrown := h.append [x]
        rw [List.countP_singleton, if_pos hx, Nat.sub_add_cancel hn] at hgrown
        exact ⟨before, b, _, hgrown⟩
    · rw [if_neg hx] at hle
      obtain ⟨before, b, after, h⟩ := ih hn hle
      have hgrown := h.append [x]
      rw [List.countP_singleton, if_neg hx] at hgrown
      exact ⟨before, b, _, hgrown⟩

/-- The `n`-th match from the end is one element. -/
theorem NthLast.unique (h : NthLast p n items before b after)
    (h' : NthLast p n items before' b' after') : before = before' ∧ b = b' ∧ after = after' := by
  have hcount := h.count
  have hcount' := h'.count
  -- a longer rest would hold one more match
  have hnot : ∀ {before before' after after' : List α} {b b' : α} {c : List α}, p b' = true →
      after.countP p = after'.countP p → before' = before ++ c →
      b :: after = c ++ b' :: after' → before = before' ∧ b = b' ∧ after = after' := by
    intro before before' after after' b b' c hb' heq hbefore hafter
    cases c with
    | nil =>
      obtain ⟨rfl, rfl⟩ := List.cons.inj hafter
      exact ⟨(hbefore.trans (List.append_nil _)).symm, rfl, rfl⟩
    | cons x c =>
      have hrest : after = c ++ b' :: after' := (List.cons.inj hafter).2
      rw [hrest, List.countP_append, List.countP_cons_of_pos hb'] at heq
      omega
  rcases List.append_eq_append_iff.mp (h.split.symm.trans h'.split) with
    ⟨c, hbefore, hafter⟩ | ⟨c, hbefore, hafter⟩
  · exact hnot h'.holds (by omega) hbefore hafter
  · obtain ⟨h1, h2, h3⟩ := hnot h.holds (by omega) hbefore hafter
    exact ⟨h1.symm, h2.symm, h3.symm⟩

/-- The match of a front part, counted in the whole list. -/
theorem NthLast.trans {front mid : List α} (h : NthLast p m items (front ++ mid) b after)
    (h' : NthLast p n front before b' after') (hmid : mid.countP p = 0) :
    NthLast p (m + n) items before b' (after' ++ (mid ++ b :: after)) := by
  have hgrown := h'.append (mid ++ b :: after)
  have hcount := h.count
  rw [List.countP_append, hmid, List.countP_cons_of_pos h.holds] at hgrown
  have hsplit := h.split
  rw [List.append_assoc] at hsplit
  rw [← hsplit] at hgrown
  have hsum : m + n = n + (0 + (after.countP p + 1)) := by omega
  rwa [hsum]

end CodexMonitor
