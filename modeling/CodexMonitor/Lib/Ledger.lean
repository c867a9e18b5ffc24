import Mathlib.Data.List.Sort

namespace CodexMonitor

/-!
# Ledgers — items on their way through a queue

Numbered items enter a queue, are taken out one at a time, and are then either done or put
back at the front; waiting items may be withdrawn.  A `Ledger` relates the five lists of
such a queue: every item that entered is in exactly one of the other four, and those not
withdrawn stand in the order in which they entered.

The rules `enter`, `withdraw`, `take`, `finish` and `putBack` are the moves of the queue;
`count_eq_one` and `done_sublist` are what a ledger says in the end.
-/

variable {α : Type*} [Preorder α]

/-- The items that are done, on the move, waiting and withdrawn, of those that entered. -/
structure Ledger (done moving waiting withdrawn entered : List α) : Prop where
  sorted : entered.Pairwise (· < ·)
  ordered : (done ++ moving ++ waiting).Pairwise (· < ·)
  perm : (done ++ moving ++ waiting ++ withdrawn).Perm entered

namespace Ledger

variable {done moving waiting withdrawn entered : List α} {x : α}

theorem empty : Ledger ([] : List α) [] [] [] [] :=
  ⟨List.Pairwise.nil, List.Pairwise.nil, List.Perm.nil⟩

/-- A new item, greater than all before it, enters at the back. -/
theorem enter (h : Ledger done moving waiting withdrawn entered) (hx : ∀ y ∈ entered, y < x) :
    Ledger done moving (waiting ++ [x]) withdrawn (entered ++ [x]) := by
  have hmem : ∀ y ∈ done ++ moving ++ waiting, y < x := fun y hy =>
    hx y (h.perm.subset (List.mem_append_left _ hy))
  refine ⟨?_, ?_, ?_⟩
  · exact List.pairwise_append.mpr ⟨h.sorted, List.pairwise_singleton _ _, by simpa using hx⟩
  · rw [← List.append_assoc]
    exact List.pairwise_append.mpr ⟨h.ordered, List.pairwise_singleton _ _, by simpa using hmem⟩
  · calc (done ++ moving ++ (waiting ++ [x]) ++ withdrawn)
        = (done ++ moving ++ waiting) ++ ([x] ++ withdrawn) := by simp
      _ |>.Perm ((done ++ moving ++ waiting) ++ (withdrawn ++ [x])) :=
          List.Perm.append_left _ List.perm_append_comm
      _ = (done ++ moving ++ waiting ++ withdrawn) ++ [x] := by simp
      _ |>.Perm (entered ++ [x]) := h.perm.append_right _

/-- Waiting items are withdrawn, the others keep their order. -/
theorem withdraw (h : Ledger done moving waiting withdrawn entered) {kept gone : List α}
    (hkept : kept.Sublist waiting) (hperm : (kept ++ gone).Perm waiting) :
    Ledger done moving kept (withdrawn ++ gone) entered := by
  refine ⟨h.sorted, h.ordered.sublist (hkept.append_left _), ?_⟩
  calc (done ++ moving ++ kept ++ (withdrawn ++ gone))
      = (done ++ moving ++ kept) ++ (withdrawn ++ gone) := rfl
    _ |>.Perm ((done ++ moving ++ kept) ++ (gone ++ withdrawn)) :=
        List.Perm.append_left _ List.perm_append_comm
    _ = (done ++ moving) ++ (kept ++ gone) ++ withdrawn := by simp
    _ |>.Perm ((done ++ moving) ++ waiting ++ withdrawn) :=
        (hperm.append_left _).append_right _
    _ |>.Perm entered := h.perm

/-- The first waiting item is taken out, if nothing else is on the move. -/
theorem take (h : Ledger done [] (x :: waiting) withdrawn entered) :
    Ledger done [x] waiting withdrawn entered :=
  ⟨h.sorted, by simpa using h.ordered, by simpa using h.perm⟩

/-- The item on the move is done. -/
theorem finish (h : Ledger done [x] waiting withdrawn entered) :
    Ledger (done ++ [x]) [] waiting withdrawn entered :=
  ⟨h.sorted, by simpa using h.ordered, by simpa using h.perm⟩

/-- The item on the move goes back to the front. -/
theorem putBack (h : Ledger done [x] waiting withdrawn entered) :
    Ledger done [] (x :: waiting) withdrawn entered :=
  ⟨h.sorted, by simpa using h.ordered, by simpa using h.perm⟩

/-- **Nothing is lost or doubled.** An item that entered is in exactly one place. -/
theorem count_eq_one [DecidableEq α] (h : Ledger done moving waiting withdrawn entered)
    (hx : x ∈ entered) : (done ++ moving ++ waiting ++ withdrawn).count x = 1 := by
  have hnodup : entered.Nodup := h.sorted.imp fun hlt => ne_of_lt hlt
  rw [h.perm.count_eq]
  exact List.count_eq_one_of_mem hnodup hx

/-- **First in, first done.** The items done stand in the order in which they entered. -/
theorem done_sublist (h : Ledger done moving waiting withdrawn entered) :
    done.Sublist entered := by
  have hsub : done.Sublist (done ++ moving ++ waiting ++ withdrawn) := by
    simp only [List.append_assoc]
    exact List.sublist_append_left _ _
  have hsorted : done.Pairwise (· < ·) := by
    have hord := h.ordered
    rw [List.append_assoc] at hord
    exact (List.pairwise_append.mp hord).1
  exact List.sublist_of_subperm_of_pairwise (hsub.subperm.trans h.perm.subperm) hsorted h.sorted

end Ledger

end CodexMonitor
