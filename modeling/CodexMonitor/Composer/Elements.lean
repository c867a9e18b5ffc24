import CodexMonitor.Composer.TextArea
import Mathlib.Data.List.Pairwise

namespace CodexMonitor.Composer

open Text

/-!
# Composer — elements around an edit

An edit whose range cuts no element leaves the elements in front of it, moves those behind it, and
removes those that it covers.

* `Placed` — elements at boundaries of the text, no two of which meet.
* `Placed.shiftElements` — they are still so after an edit, and have the text that they had.
* `expandRange_spec` — an expanded range cuts no element.
* `clampPosToNearestBoundary_spec` — a position that is clamped is in no element.
-/

variable {t t' : Text} {elements : List TextElement} {e e' f : TextElement} {a b n p : Nat}
  {range : Nat × Nat}

/-! ### Placed elements -/

/-- Two elements meet. -/
def Overlap (e f : TextElement) : Prop := e.start < f.stop ∧ f.start < e.stop

/-- **Placed elements** are at boundaries of the text, and no two of them meet. -/
structure Placed (t : Text) (elements : List TextElement) : Prop where
  ordered : ∀ e ∈ elements, e.start ≤ e.stop
  starts : ∀ e ∈ elements, Boundary t e.start
  stops : ∀ e ∈ elements, Boundary t e.stop
  disjoint : elements.Pairwise fun e f => ¬ Overlap e f

/-- The element is the same, and has the same text. -/
structure Kept (t t' : Text) (e e' : TextElement) : Prop where
  id : e'.id = e.id
  name : e'.name = e.name
  text : slice t' e'.start e'.stop = slice t e.start e.stop

namespace Placed

theorem nil (t : Text) : Placed t [] :=
  ⟨fun _ h => absurd h List.not_mem_nil, fun _ h => absurd h List.not_mem_nil,
    fun _ h => absurd h List.not_mem_nil, .nil⟩

theorem sublist {elements' : List TextElement} (h : Placed t elements)
    (hsub : elements'.Sublist elements) : Placed t elements' :=
  ⟨fun e he => h.ordered e (hsub.mem he), fun e he => h.starts e (hsub.mem he),
    fun e he => h.stops e (hsub.mem he), h.disjoint.sublist hsub⟩

theorem perm {elements' : List TextElement} (h : Placed t elements)
    (hperm : elements'.Perm elements) : Placed t elements' := by
  refine ⟨fun e he => h.ordered e (hperm.mem_iff.mp he), fun e he => h.starts e (hperm.mem_iff.mp he),
    fun e he => h.stops e (hperm.mem_iff.mp he), (hperm.pairwise_iff ?_).mpr h.disjoint⟩
  exact fun hdisjoint hoverlap => hdisjoint ⟨hoverlap.2, hoverlap.1⟩

theorem not_overlap (h : Placed t elements) (he : e ∈ elements) (hf : f ∈ elements) (hne : e ≠ f) :
    ¬ Overlap e f := by
  have hsymm : Std.Symm fun e f : TextElement => ¬ Overlap e f :=
    ⟨fun _ _ hdisjoint hoverlap => hdisjoint ⟨hoverlap.2, hoverlap.1⟩⟩
  exact h.disjoint.forall he hf hne

/-- One more element, which meets none. -/
theorem append (h : Placed t elements) (hle : e.start ≤ e.stop) (hstart : Boundary t e.start)
    (hstop : Boundary t e.stop) (hnone : ∀ f ∈ elements, ¬ Overlap f e) :
    Placed t (elements ++ [e]) := by
  refine ⟨?_, ?_, ?_, ?_⟩
  · exact List.forall_mem_append.mpr ⟨h.ordered, List.forall_mem_singleton.mpr hle⟩
  · exact List.forall_mem_append.mpr ⟨h.starts, List.forall_mem_singleton.mpr hstart⟩
  · exact List.forall_mem_append.mpr ⟨h.stops, List.forall_mem_singleton.mpr hstop⟩
  · refine List.pairwise_append.mpr ⟨h.disjoint, List.pairwise_singleton _ _, ?_⟩
    intro f hf e' he'
    rw [List.mem_singleton.mp he']
    exact hnone f hf

end Placed

/-! ### Sorted elements -/

theorem sortElements_perm (elements : List TextElement) : (sortElements elements).Perm elements :=
  List.perm_insertionSort _ _

def SortedByStart (elements : List TextElement) : Prop := elements.Pairwise (·.start ≤ ·.start)

theorem sortElements_sorted (elements : List TextElement) :
    SortedByStart (sortElements elements) := by
  have htotal : Std.Total fun e f : TextElement => e.start ≤ f.start :=
    ⟨fun e f => Nat.le_total e.start f.start⟩
  have htrans : IsTrans TextElement fun e f => e.start ≤ f.start :=
    ⟨fun _ _ _ hab hbc => Nat.le_trans hab hbc⟩
  exact List.pairwise_insertionSort (fun e f : TextElement => e.start ≤ f.start) elements

theorem sortElements_of_sorted (h : SortedByStart elements) : sortElements elements = elements :=
  List.Pairwise.insertionSort_eq h

/-! ### Shifting -/

/-- The range cuts the element at most at its ends, or covers it. -/
def Uncut (a b : Nat) (e : TextElement) : Prop :=
  e.stop ≤ a ∨ b ≤ e.start ∨ (a ≤ e.start ∧ e.stop ≤ b)

/-- The edit covers the element. -/
def covered (a b : Nat) (e : TextElement) : Bool := a ≤ e.start && e.stop ≤ b

/-- An element in front of an edit, or behind it. -/
def moveElement (a b n : Nat) (e : TextElement) : TextElement :=
  if e.stop ≤ a then e
  else { e with start := e.start + n - (b - a), stop := e.stop + n - (b - a) }

theorem shiftElements_eq (hab : a ≤ b) (h : ∀ e ∈ elements, Uncut a b e) :
    shiftElements elements a (b - a) n =
      (elements.filter fun e => !covered a b e).map (moveElement a b n) := by
  have hstop : a + (b - a) = b := by omega
  unfold shiftElements covered
  rw [hstop]
  refine List.map_congr_left fun e he => ?_
  obtain ⟨hmem, hnot⟩ := List.mem_filter.mp he
  simp only [Bool.not_eq_true', Bool.and_eq_false_iff, decide_eq_false_iff_not] at hnot
  unfold moveElement
  split
  · rfl
  next hbehind =>
    have hstart : b ≤ e.start := by
      rcases h e hmem with hcut | hcut | hcut <;> omega
    rw [if_pos hstart]

/-- The element is in front of the edit, or behind it. -/
def Beside (a b : Nat) (e : TextElement) : Prop := e.stop ≤ a ∨ (a < e.stop ∧ b ≤ e.start)

theorem mem_filter_covered (h : ∀ e ∈ elements, Uncut a b e)
    (he : e ∈ elements.filter fun e => !covered a b e) :
    e ∈ elements ∧ Beside a b e ∧ covered a b e = false := by
  obtain ⟨hmem, hnot⟩ := List.mem_filter.mp he
  rw [Bool.not_eq_true'] at hnot
  refine ⟨hmem, ?_, hnot⟩
  unfold Beside
  unfold covered at hnot
  simp only [Bool.and_eq_false_iff, decide_eq_false_iff_not] at hnot
  rcases h e hmem with hcut | hcut | hcut <;> omega

/-- **What is left of the elements**: each is in front of the edit, or behind it and moved. -/
theorem mem_shiftElements (hab : a ≤ b) (h : ∀ e ∈ elements, Uncut a b e)
    (he : e' ∈ shiftElements elements a (b - a) n) :
    ∃ e ∈ elements, e' = moveElement a b n e ∧ Beside a b e := by
  rw [shiftElements_eq hab h] at he
  obtain ⟨e, hfilter, rfl⟩ := List.mem_map.mp he
  obtain ⟨hmem, hbeside, -⟩ := mem_filter_covered h hfilter
  exact ⟨e, hmem, rfl, hbeside⟩

theorem moveElement_front (h : e.stop ≤ a) : moveElement a b n e = e := if_pos h

theorem moveElement_back (h : a < e.stop) : moveElement a b n e =
    { e with start := e.start + n - (b - a), stop := e.stop + n - (b - a) } :=
  if_neg (by omega)

/-- Two elements that are left keep their order. -/
theorem moveElement_le (hab : a ≤ b) (hordered : e.start ≤ e.stop) (he : Beside a b e)
    (hf : Beside a b f) (hcovered : covered a b f = false) (hle : e.start ≤ f.start) :
    (moveElement a b n e).start ≤ (moveElement a b n f).start := by
  unfold covered at hcovered
  simp only [Bool.and_eq_false_iff, decide_eq_false_iff_not] at hcovered
  rcases he with hfront | ⟨hstop, hback⟩ <;> rcases hf with hfront' | ⟨hstop', hback'⟩
  · rw [moveElement_front hfront, moveElement_front hfront']
    exact hle
  · rw [moveElement_front hfront, moveElement_back hstop']
    dsimp only
    omega
  · rw [moveElement_back hstop, moveElement_front hfront']
    dsimp only
    omega
  · rw [moveElement_back hstop, moveElement_back hstop']
    dsimp only
    omega

/-- Two elements that do not meet do not meet after the edit. -/
theorem moveElement_disjoint (hab : a ≤ b) (he : Beside a b e) (hf : Beside a b f)
    (hdisjoint : ¬ Overlap e f) : ¬ Overlap (moveElement a b n e) (moveElement a b n f) := by
  unfold Overlap at hdisjoint ⊢
  rcases he with hfront | ⟨hstop, hback⟩ <;> rcases hf with hfront' | ⟨hstop', hback'⟩
  · rw [moveElement_front hfront, moveElement_front hfront']
    exact hdisjoint
  · rw [moveElement_front hfront, moveElement_back hstop']
    dsimp only
    omega
  · rw [moveElement_back hstop, moveElement_front hfront']
    dsimp only
    omega
  · rw [moveElement_back hstop, moveElement_back hstop']
    dsimp only
    omega

section Move

variable (hsplice : Splice t t' a b n) (hordered : e.start ≤ e.stop) (hstart : Boundary t e.start)
  (hstop : Boundary t e.stop) (hbeside : Beside a b e)

include hsplice hordered hstart hstop hbeside

/-- **A moved element** is where its text is now. -/
theorem moveElement_kept : Kept t t' e (moveElement a b n e) := by
  rcases hbeside with hfront | ⟨hlt, hback⟩
  · rw [moveElement_front hfront]
    exact ⟨rfl, rfl, hsplice.slice_front hstart hstop hordered hfront⟩
  · rw [moveElement_back hlt]
    exact ⟨rfl, rfl, hsplice.slice_back hstart hstop hordered hback⟩

theorem moveElement_bounds : (moveElement a b n e).start ≤ (moveElement a b n e).stop ∧
    Boundary t' (moveElement a b n e).start ∧ Boundary t' (moveElement a b n e).stop := by
  rcases hbeside with hfront | ⟨hlt, hback⟩
  · rw [moveElement_front hfront]
    exact ⟨hordered, hsplice.boundary_front hstart (by omega), hsplice.boundary_front hstop hfront⟩
  · rw [moveElement_back hlt]
    exact ⟨by dsimp only; omega, hsplice.boundary_back hstart hback,
      hsplice.boundary_back hstop (by omega)⟩

end Move

/-- A moved element is beside what was inserted. -/
theorem moveElement_side (hab : a ≤ b) (hbeside : Beside a b e) :
    (moveElement a b n e).stop ≤ a ∨ a + n ≤ (moveElement a b n e).start := by
  rcases hbeside with hfront | ⟨hstop, hback⟩
  · rw [moveElement_front hfront]
    exact .inl hfront
  · rw [moveElement_back hstop]
    right
    dsimp only
    omega

/-- No element is around the position. -/
def Outside (elements : List TextElement) (p : Nat) : Prop := ∀ e ∈ elements, e.contains p = false

theorem contains_eq_false : e.contains p = false ↔ (p ≤ e.start ∨ e.stop ≤ p) := by
  unfold TextElement.contains
  simp only [Bool.and_eq_false_iff, decide_eq_false_iff_not, Nat.not_lt]

/-- The elements that are left are in front of what was inserted, or behind it. -/
theorem shiftElements_side (hab : a ≤ b) (hcut : ∀ e ∈ elements, Uncut a b e) :
    ∀ e' ∈ shiftElements elements a (b - a) n, e'.stop ≤ a ∨ a + n ≤ e'.start := by
  intro e' he'
  obtain ⟨e, -, rfl, hbeside⟩ := mem_shiftElements hab hcut he'
  exact moveElement_side hab hbeside

/-- **Positions that no element is around** stay so, in front of the edit and behind it. -/
theorem Outside.shiftElements (hab : a ≤ b) (hcut : ∀ e ∈ elements, Uncut a b e)
    (hout : Outside elements p) :
    (p ≤ a → Outside (Composer.shiftElements elements a (b - a) n) p) ∧
      (b ≤ p → Outside (Composer.shiftElements elements a (b - a) n) (p + n - (b - a))) := by
  refine ⟨fun hp e' he' => ?_, fun hp e' he' => ?_⟩
  all_goals
    rw [contains_eq_false]
    obtain ⟨e, hmem, rfl, hfront | ⟨hstop, hback⟩⟩ := mem_shiftElements hab hcut he'
    · have hclear := contains_eq_false.mp (hout e hmem)
      rw [moveElement_front hfront]
      omega
    · have hclear := contains_eq_false.mp (hout e hmem)
      rw [moveElement_back hstop]
      dsimp only
      omega

section Shift

variable (hplaced : Placed t elements) (hsplice : Splice t t' a b n)
  (hcut : ∀ e ∈ elements, Uncut a b e)

include hplaced hsplice hcut

/-- **The elements after an edit** are placed in the new text. -/
theorem Placed.shiftElements : Placed t' (shiftElements elements a (b - a) n) := by
  have hab := hsplice.le
  have hfacts : ∀ e' ∈ Composer.shiftElements elements a (b - a) n,
      e'.start ≤ e'.stop ∧ Boundary t' e'.start ∧ Boundary t' e'.stop := by
    intro e' he'
    obtain ⟨e, he, rfl, hbeside⟩ := mem_shiftElements hab hcut he'
    exact moveElement_bounds hsplice (hplaced.ordered e he) (hplaced.starts e he)
      (hplaced.stops e he) hbeside
  refine ⟨fun e he => (hfacts e he).1, fun e he => (hfacts e he).2.1,
    fun e he => (hfacts e he).2.2, ?_⟩
  rw [shiftElements_eq hab hcut, List.pairwise_map]
  refine (hplaced.disjoint.filter _).imp_of_mem fun he hf hdisjoint => ?_
  obtain ⟨-, hbeside, -⟩ := mem_filter_covered hcut he
  obtain ⟨-, hbeside', -⟩ := mem_filter_covered hcut hf
  exact moveElement_disjoint hab hbeside hbeside' hdisjoint

theorem SortedByStart.shiftElements (hsorted : SortedByStart elements) :
    SortedByStart (shiftElements elements a (b - a) n) := by
  have hab := hsplice.le
  unfold SortedByStart
  rw [shiftElements_eq hab hcut, List.pairwise_map]
  refine (List.Pairwise.filter _ hsorted).imp_of_mem fun he hf hle => ?_
  obtain ⟨hmem, hbeside, -⟩ := mem_filter_covered hcut he
  obtain ⟨-, hbeside', hnot⟩ := mem_filter_covered hcut hf
  exact moveElement_le hab (hplaced.ordered _ hmem) hbeside hbeside' hnot hle

/-- **The text of the elements that are left** is what it was. -/
theorem kept_of_mem_shiftElements (he : e' ∈ Composer.shiftElements elements a (b - a) n) :
    ∃ e ∈ elements, Kept t t' e e' := by
  obtain ⟨e, hmem, rfl, hbeside⟩ := mem_shiftElements hsplice.le hcut he
  exact ⟨e, hmem, moveElement_kept hsplice (hplaced.ordered e hmem) (hplaced.starts e hmem)
    (hplaced.stops e hmem) hbeside⟩

end Shift

/-- **One element is resized**, and the others are moved. -/
theorem Placed.resize {others : List TextElement} (h : Placed t (e :: others))
    (hsplice : Splice t t' e.start e.stop n) :
    Placed t' ({ e with stop := e.start + n } :: others.map (moveElement e.start e.stop n)) ∧
      ∀ f ∈ others, Beside e.start e.stop f := by
  have hab := hsplice.le
  obtain ⟨hothers, hdisjoint⟩ := List.pairwise_cons.mp h.disjoint
  have hbeside : ∀ f ∈ others, Beside e.start e.stop f := by
    intro f hf
    have hno := hothers f hf
    unfold Overlap at hno
    unfold Beside
    omega
  have hfacts : ∀ f ∈ others.map (moveElement e.start e.stop n),
      f.start ≤ f.stop ∧ Boundary t' f.start ∧ Boundary t' f.stop := by
    intro f' hf'
    obtain ⟨f, hf, rfl⟩ := List.mem_map.mp hf'
    have hmem := List.mem_cons_of_mem e hf
    exact moveElement_bounds hsplice (h.ordered f hmem) (h.starts f hmem) (h.stops f hmem)
      (hbeside f hf)
  refine ⟨⟨?_, ?_, ?_, ?_⟩, hbeside⟩
  · exact List.forall_mem_cons.mpr ⟨Nat.le_add_right _ _, fun f hf => (hfacts f hf).1⟩
  · exact List.forall_mem_cons.mpr ⟨hsplice.boundary_inserted.1, fun f hf => (hfacts f hf).2.1⟩
  · exact List.forall_mem_cons.mpr ⟨hsplice.boundary_inserted.2, fun f hf => (hfacts f hf).2.2⟩
  · refine List.pairwise_cons.mpr ⟨?_, ?_⟩
    · intro f' hf'
      obtain ⟨f, hf, rfl⟩ := List.mem_map.mp hf'
      have hside := moveElement_side (n := n) hab (hbeside f hf)
      unfold Overlap
      dsimp only
      omega
    · rw [List.pairwise_map]
      exact hdisjoint.imp_of_mem fun hf hg hno =>
        moveElement_disjoint hab (hbeside _ hf) (hbeside _ hg) hno

/-! ### Ranges that cut no element -/

section Expand

/-- A range that has met the element. -/
theorem expandOver_uncut (e : TextElement) (range : Nat × Nat) :
    Uncut (expandOver range e).1 (expandOver range e).2 e := by
  unfold expandOver Uncut
  split
  next hmeet =>
    right; right
    exact ⟨Nat.min_le_right _ _, Nat.le_max_right _ _⟩
  next hmeet =>
    simp only [Bool.and_eq_true, decide_eq_true_eq] at hmeet
    omega

/-- **Meeting one more element** cuts none of those that were met before. -/
theorem Uncut.expandOver (h : Uncut range.1 range.2 e) (hle : e.start ≤ e.stop)
    (hdisjoint : e ≠ f → ¬ Overlap e f) :
    Uncut (expandOver range f).1 (expandOver range f).2 e := by
  by_cases hef : e = f
  · rw [hef]
    exact expandOver_uncut f range
  · have hno := hdisjoint hef
    unfold Overlap at hno
    unfold Uncut at h ⊢
    unfold Composer.expandOver
    split
    next hmeet =>
      simp only [Bool.and_eq_true, decide_eq_true_eq] at hmeet
      dsimp only
      omega
    next => exact h

theorem expandOver_eq_self (h : Uncut range.1 range.2 e) : expandOver range e = range := by
  unfold expandOver
  unfold Uncut at h
  split
  next hmeet =>
    simp only [Bool.and_eq_true, decide_eq_true_eq] at hmeet
    have hstart : min range.1 e.start = range.1 := by omega
    have hstop : max range.2 e.stop = range.2 := by omega
    rw [hstart, hstop]
  next => rfl

/-- A range around another one, whose ends are those of that one or of elements. -/
structure Expanded (elements : List TextElement) (range range' : Nat × Nat) : Prop where
  first : range'.1 ≤ range.1
  last : range.2 ≤ range'.2
  start : range'.1 = range.1 ∨ ∃ e ∈ elements, range'.1 = e.start
  stop : range'.2 = range.2 ∨ ∃ e ∈ elements, range'.2 = e.stop

theorem Expanded.refl (elements : List TextElement) (range : Nat × Nat) :
    Expanded elements range range :=
  ⟨Nat.le_refl _, Nat.le_refl _, .inl rfl, .inl rfl⟩

theorem Expanded.expandOver {range' : Nat × Nat} (h : Expanded elements range range')
    (he : e ∈ elements) : Expanded elements range (expandOver range' e) := by
  unfold Composer.expandOver
  split
  next hmeet =>
    refine ⟨?_, ?_, ?_, ?_⟩
    · exact Nat.le_trans (Nat.min_le_left _ _) h.first
    · exact Nat.le_trans h.last (Nat.le_max_left _ _)
    · rcases Nat.le_total range'.1 e.start with hle | hle
      · rw [Nat.min_eq_left hle]
        exact h.start
      · rw [Nat.min_eq_right hle]
        exact .inr ⟨e, he, rfl⟩
    · rcases Nat.le_total range'.2 e.stop with hle | hle
      · rw [Nat.max_eq_right hle]
        exact .inr ⟨e, he, rfl⟩
      · rw [Nat.max_eq_left hle]
        exact h.stop
  next => exact h

theorem expandPass_of_uncut (h : ∀ e ∈ elements, Uncut range.1 range.2 e) :
    expandPass elements range = range := by
  unfold expandPass
  induction elements with
  | nil => rfl
  | cons e elements ih =>
    rw [List.foldl_cons, expandOver_eq_self (h e List.mem_cons_self)]
    exact ih fun e he => h e (List.mem_cons_of_mem _ he)

theorem expandPass_expanded (elements : List TextElement) (range : Nat × Nat) :
    Expanded elements range (expandPass elements range) := by
  have hfold : ∀ (behind : List TextElement) (range' : Nat × Nat), (∀ e ∈ behind, e ∈ elements) →
      Expanded elements range range' → Expanded elements range (expandPass behind range') := by
    intro behind
    induction behind with
    | nil => exact fun _ _ h => h
    | cons f behind ih =>
      intro range' hmem h
      exact ih _ (fun e he => hmem e (List.mem_cons_of_mem _ he))
        (h.expandOver (hmem f List.mem_cons_self))
  exact hfold elements range (fun _ he => he) (Expanded.refl elements range)

variable (hplaced : Placed t elements)

include hplaced

/-- **One pass is enough**: it meets every element, and those that it met stay uncut. -/
theorem expandPass_uncut (range : Nat × Nat) :
    ∀ e ∈ elements, Uncut (expandPass elements range).1 (expandPass elements range).2 e := by
  -- the elements that the pass has met so far are a part of the list
  have hmet : ∀ (behind : List TextElement) (range : Nat × Nat) (met : List TextElement),
      (∀ e ∈ behind, e ∈ elements) → (∀ e ∈ met, e ∈ elements ∧ Uncut range.1 range.2 e) →
      ∀ e ∈ met ++ behind, Uncut (expandPass behind range).1 (expandPass behind range).2 e := by
    intro behind
    induction behind with
    | nil =>
      intro range met _ hmet e he
      rw [List.append_nil] at he
      exact (hmet e he).2
    | cons f behind ih =>
      intro range met hmem hmet e he
      have hf := hmem f List.mem_cons_self
      refine ih (expandOver range f) (met ++ [f]) (fun e he => hmem e (List.mem_cons_of_mem _ he))
        ?_ e ?_
      · intro e he
        rcases List.mem_append.mp he with he | he
        · obtain ⟨hmem', huncut⟩ := hmet e he
          exact ⟨hmem', huncut.expandOver (hplaced.ordered e hmem') (hplaced.not_overlap hmem' hf)⟩
        · rw [List.mem_singleton.mp he]
          exact ⟨hf, expandOver_uncut f range⟩
      · rw [List.append_assoc]
        exact he
  exact hmet elements range [] (fun _ he => he) (fun _ he => absurd he List.not_mem_nil)

/-- **The loop ends after the first pass**, however many more it may make. -/
theorem expandLoop_succ (fuel : Nat) (range : Nat × Nat) :
    expandLoop elements (fuel + 1) range = expandPass elements range := by
  have hfix := expandPass_of_uncut (expandPass_uncut hplaced range)
  rw [expandLoop]
  split
  next hsame => exact hsame.symm
  next =>
    cases fuel with
    | zero => rw [expandLoop]
    | succ fuel => rw [expandLoop, if_pos hfix]

/-- **An expanded range** cuts no element, and begins and ends at boundaries. -/
theorem expandRange_spec (hstart : Boundary t range.1) (hstop : Boundary t range.2) :
    (∀ e ∈ elements, Uncut (expandRange elements range).1 (expandRange elements range).2 e) ∧
      Boundary t (expandRange elements range).1 ∧ Boundary t (expandRange elements range).2 ∧
      (expandRange elements range).1 ≤ range.1 ∧ range.2 ≤ (expandRange elements range).2 := by
  unfold expandRange
  rw [expandLoop_succ hplaced]
  have hexpanded := expandPass_expanded elements range
  refine ⟨expandPass_uncut hplaced range, ?_, ?_, hexpanded.first, hexpanded.last⟩
  · rcases hexpanded.start with heq | ⟨e, he, heq⟩
    · rw [heq]
      exact hstart
    · rw [heq]
      exact hplaced.starts e he
  · rcases hexpanded.stop with heq | ⟨e, he, heq⟩
    · rw [heq]
      exact hstop
    · rw [heq]
      exact hplaced.stops e he

end Expand

/-! ### Positions that are in no element -/

namespace Placed

/-- The ends of an element that is not empty are in no element. -/
theorem outside_ends (h : Placed t elements) (he : e ∈ elements) (hlt : e.start < e.stop) :
    Outside elements e.start ∧ Outside elements e.stop := by
  refine ⟨fun f hf => ?_, fun f hf => ?_⟩
  all_goals
    rw [contains_eq_false]
    by_cases hfe : f = e
    · rw [hfe]
      omega
    · have hno := h.not_overlap hf he hfe
      unfold Overlap at hno
      omega

end Placed

namespace TextArea

variable {s : TextArea}

theorem findElementContaining_eq_none : s.findElementContaining p = none ↔ Outside s.elements p := by
  unfold findElementContaining Outside
  rw [List.find?_eq_none]
  simp only [Bool.not_eq_true]

theorem findElementContaining_eq_some (h : s.findElementContaining p = some e) :
    e ∈ s.elements ∧ e.start < p ∧ p < e.stop := by
  unfold findElementContaining at h
  have hcontains := List.find?_some h
  unfold TextElement.contains at hcontains
  simp only [Bool.and_eq_true, decide_eq_true_eq] at hcontains
  exact ⟨List.mem_of_find?_eq_some h, hcontains⟩

section

variable (hplaced : Placed s.text s.elements)

include hplaced

/-- **A clamped position** is a boundary, in no element. -/
theorem clampPosToNearestBoundary_spec (p : Nat) :
    Boundary s.text (s.clampPosToNearestBoundary p) ∧
      Outside s.elements (s.clampPosToNearestBoundary p) := by
  unfold clampPosToNearestBoundary clampPosToCharBoundary
  dsimp only
  split
  next e hfind =>
    obtain ⟨he, hafter, hbefore⟩ := findElementContaining_eq_some hfind
    obtain ⟨hstart, hstop⟩ := hplaced.outside_ends he (by omega)
    rw [clampToCharBoundary_of_boundary (hplaced.starts e he),
      clampToCharBoundary_of_boundary (hplaced.stops e he)]
    split
    · exact ⟨hplaced.starts e he, hstart⟩
    · exact ⟨hplaced.stops e he, hstop⟩
  next hfind =>
    exact ⟨boundary_clampToCharBoundary _ _, findElementContaining_eq_none.mp hfind⟩

theorem adjustPosOutOfElements_spec (hp : Boundary s.text p) (preferStart : Bool) :
    Boundary s.text (s.adjustPosOutOfElements p preferStart) ∧
      Outside s.elements (s.adjustPosOutOfElements p preferStart) := by
  unfold adjustPosOutOfElements
  split
  next e hfind =>
    obtain ⟨he, hafter, hbefore⟩ := findElementContaining_eq_some hfind
    obtain ⟨hstart, hstop⟩ := hplaced.outside_ends he (by omega)
    cases preferStart with
    | true => exact ⟨hplaced.starts e he, hstart⟩
    | false => exact ⟨hplaced.stops e he, hstop⟩
  next hfind => exact ⟨hp, findElementContaining_eq_none.mp hfind⟩

end

/-- A position that is not in a range that no element reaches into stays so. -/
theorem clampPosToNearestBoundary_clear (hplaced : Placed s.text s.elements)
    (hside : ∀ e ∈ s.elements, e.stop ≤ a ∨ b ≤ e.start) (hp : Boundary s.text p)
    (hclear : p ≤ a ∨ b ≤ p) :
    s.clampPosToNearestBoundary p ≤ a ∨ b ≤ s.clampPosToNearestBoundary p := by
  unfold clampPosToNearestBoundary clampPosToCharBoundary
  rw [clampToCharBoundary_of_boundary hp]
  dsimp only
  split
  next e hfind =>
    have he := (findElementContaining_eq_some hfind).1
    have hle := hplaced.ordered e he
    rw [clampToCharBoundary_of_boundary (hplaced.starts e he),
      clampToCharBoundary_of_boundary (hplaced.stops e he)]
    rcases hside e he with hfront | hback
    · split <;> omega
    · split <;> omega
  next => exact hclear

theorem clampPosToNearestBoundary_of_outside (hp : Boundary s.text p) (hout : Outside s.elements p) :
    s.clampPosToNearestBoundary p = p := by
  unfold clampPosToNearestBoundary clampPosToCharBoundary
  rw [clampToCharBoundary_of_boundary hp]
  dsimp only
  rw [findElementContaining_eq_none.mpr hout]

/-- A position is moved to the side that is preferred. -/
theorem adjustPosOutOfElements_side (s : TextArea) (p : Nat) :
    s.adjustPosOutOfElements p true ≤ p ∧ p ≤ s.adjustPosOutOfElements p false := by
  unfold adjustPosOutOfElements
  split
  next e hfind =>
    have hcontains := (findElementContaining_eq_some hfind).2
    refine ⟨?_, ?_⟩
    · rw [if_pos rfl]
      omega
    · rw [if_neg Bool.false_ne_true]
      omega
  next => exact ⟨Nat.le_refl _, Nat.le_refl _⟩

end TextArea

end CodexMonitor.Composer
