import CodexMonitor.Lib.TextLength

namespace CodexMonitor.Text

/-!
# Offsets — cutting a text at byte offsets

A text is cut at its character boundaries.  Replacing the part between two of them moves what is
behind, and leaves the rest as it is.

* `Boundary`, `isCharBoundary` — the offsets at which a text can be cut.
* `slice`, `replaceRange` — what is between two offsets, and a text with something else there.
* `replaceRange_undo` — what was cut out can be put back.
* `Splice` — a replacement; `Splice.boundary_front`, `Splice.slice_back` — what it leaves as it is.
* `clampToCharBoundary` — the boundary that is closest to an offset.
-/

variable {t t' front mid back inserted piece : Text} {a b n p q : Nat}

/-- The order of the pieces of a text does not change its length. -/
theorem byteLen_flatten_reverse (pieces : List Text) :
    byteLen pieces.reverse.flatten = byteLen pieces.flatten := by
  induction pieces with
  | nil => rfl
  | cons piece pieces ih =>
    rw [List.reverse_cons, List.flatten_append, List.flatten_singleton, byteLen_append, ih,
      List.flatten_cons, byteLen_append, Nat.add_comm]

/-! ### Boundaries -/

/-- `is_char_boundary`. -/
def isCharBoundary (t : Text) (p : Nat) : Bool := (byteTake p t).isSome

/-- **A character boundary** is the length of a part that a text begins with. -/
def Boundary (t : Text) (p : Nat) : Prop := ∃ front back, t = front ++ back ∧ byteLen front = p

theorem byteTake_eq_some (h : byteTake p t = some front) :
    ∃ back, t = front ++ back ∧ byteLen front = p := by
  induction t generalizing p front with
  | nil =>
    cases p with
    | zero =>
      obtain rfl := Option.some.inj h
      exact ⟨[], rfl, rfl⟩
    | succ p => cases h
  | cons c t ih =>
    cases p with
    | zero =>
      obtain rfl := Option.some.inj h
      exact ⟨c :: t, rfl, rfl⟩
    | succ p =>
      rw [byteTake] at h
      split at h
      next hle =>
        obtain ⟨rest, hrest, rfl⟩ := Option.map_eq_some_iff.mp h
        obtain ⟨back, rfl, hlen⟩ := ih hrest
        refine ⟨back, rfl, ?_⟩
        rw [byteLen_cons]
        omega
      next => cases h

theorem isCharBoundary_iff : isCharBoundary t p = true ↔ Boundary t p := by
  unfold isCharBoundary
  rw [Option.isSome_iff_exists]
  constructor
  · rintro ⟨front, hfront⟩
    obtain ⟨back, ht, hlen⟩ := byteTake_eq_some hfront
    exact ⟨front, back, ht, hlen⟩
  · rintro ⟨front, back, rfl, rfl⟩
    exact ⟨front, byteTake_append front back⟩

namespace Boundary

theorem of_append (front back : Text) : Boundary (front ++ back) (byteLen front) :=
  ⟨front, back, rfl, rfl⟩

theorem zero (t : Text) : Boundary t 0 := ⟨[], t, rfl, rfl⟩

theorem all (t : Text) : Boundary t (byteLen t) := ⟨t, [], (List.append_nil t).symm, rfl⟩

theorem le_byteLen (h : Boundary t p) : p ≤ byteLen t := by
  obtain ⟨front, back, rfl, rfl⟩ := h
  rw [byteLen_append]
  omega

/-- A boundary of what is behind another one. -/
theorem append (h : Boundary back p) (front : Text) : Boundary (front ++ back) (byteLen front + p) := by
  obtain ⟨more, rest, rfl, rfl⟩ := h
  rw [← List.append_assoc, ← byteLen_append]
  exact Boundary.of_append _ _

end Boundary

/-- The shorter one of two parts that a text begins with is part of the longer one. -/
theorem prefix_of_byteLen_le {front front' : Text} (h : front <+: t) (h' : front' <+: t)
    (hle : byteLen front ≤ byteLen front') : front <+: front' := by
  rcases List.prefix_or_prefix_of_prefix h h' with hprefix | ⟨more, rfl⟩
  · exact hprefix
  · rw [byteLen_append] at hle
    by_cases hmore : more = []
    · have hsame : front' ++ more = front' := by rw [hmore, List.append_nil]
      exact ⟨[], by rw [List.append_nil, hsame]⟩
    · have hpos := byteLen_pos hmore
      omega

/-- **Two boundaries** cut a text into three parts. -/
theorem exists_parts (ha : Boundary t a) (hb : Boundary t b) (hle : a ≤ b) :
    ∃ front mid back, t = front ++ mid ++ back ∧ byteLen front = a ∧
      byteLen (front ++ mid) = b := by
  obtain ⟨front, rest, rfl, rfl⟩ := ha
  obtain ⟨front', back, ht, rfl⟩ := hb
  obtain ⟨mid, rfl⟩ := prefix_of_byteLen_le (List.prefix_append front rest) ⟨back, ht.symm⟩ hle
  exact ⟨front, mid, back, ht, rfl, rfl⟩

/-! ### Slices and replacements -/

/-- `t.get(a..b)`. -/
def slice (t : Text) (a b : Nat) : Option Text := (byteTake b t).bind (byteDrop a)

/-- `t.replace_range(a..b, inserted)`; it panics where the offsets are no boundaries. -/
def replaceRange (t : Text) (a b : Nat) (inserted : Text) : Option Text :=
  if a ≤ b then
    match byteTake a t, byteDrop b t with
    | some front, some back => some (front ++ inserted ++ back)
    | _, _ => none
  else none

theorem slice_parts (front mid back : Text) :
    slice (front ++ mid ++ back) (byteLen front) (byteLen (front ++ mid)) = some mid := by
  unfold slice
  rw [byteTake_append]
  exact byteDrop_append front mid

theorem exists_slice (ha : Boundary t a) (hb : Boundary t b) (hle : a ≤ b) :
    ∃ piece, slice t a b = some piece ∧ a + byteLen piece = b := by
  obtain ⟨front, mid, back, rfl, rfl, rfl⟩ := exists_parts ha hb hle
  exact ⟨mid, slice_parts front mid back, (byteLen_append front mid).symm⟩

/-- **What was cut out** can be put back. -/
theorem replaceRange_undo {removed cut : Text} (hremoved : slice t a b = some removed)
    (hcut : replaceRange t a b [] = some cut) (hback : replaceRange cut a a removed = some t') :
    t' = t := by
  unfold replaceRange at hcut
  split at hcut
  next hle =>
    split at hcut
    next front back hfront hback' =>
      obtain rfl := Option.some.inj hcut
      obtain ⟨rest, ht, rfl⟩ := byteTake_eq_some hfront
      unfold slice at hremoved
      obtain ⟨first, hfirst, hdrop⟩ := Option.bind_eq_some_iff.mp hremoved
      obtain ⟨rest', ht', rfl⟩ := byteTake_eq_some hfirst
      have hrest' : rest' = back := by
        rw [ht', byteDrop_append] at hback'
        exact Option.some.inj hback'
      have hfirst' : first = front ++ removed := by
        obtain ⟨mid, rfl⟩ := prefix_of_byteLen_le ⟨rest, ht.symm⟩ ⟨rest', ht'.symm⟩ hle
        rw [byteDrop_append] at hdrop
        rw [Option.some.inj hdrop]
      unfold replaceRange at hback
      rw [if_pos (Nat.le_refl _), List.append_nil, byteTake_append, byteDrop_append] at hback
      rw [← Option.some.inj hback, ht', hrest', hfirst']
    next => cases hcut
  next => cases hcut

/-- **A replacement**: what is between two offsets becomes something of another length. -/
structure Splice (t t' : Text) (a b n : Nat) : Prop where
  parts : ∃ front mid back inserted, t = front ++ mid ++ back ∧ t' = front ++ inserted ++ back ∧
    byteLen front = a ∧ byteLen (front ++ mid) = b ∧ byteLen inserted = n

theorem replaceRange_eq_some (ha : Boundary t a) (hb : Boundary t b) (hle : a ≤ b)
    (inserted : Text) : ∃ t', replaceRange t a b inserted = some t' ∧
      Splice t t' a b (byteLen inserted) ∧ slice t' a (a + byteLen inserted) = some inserted := by
  obtain ⟨front, mid, back, rfl, rfl, rfl⟩ := exists_parts ha hb hle
  refine ⟨front ++ inserted ++ back, ?_, ⟨front, mid, back, inserted, rfl, rfl, rfl, rfl, rfl⟩, ?_⟩
  · unfold replaceRange
    rw [if_pos hle, byteDrop_append, List.append_assoc, byteTake_append]
  · rw [← byteLen_append]
    exact slice_parts front inserted back

namespace Splice

theorem le (h : Splice t t' a b n) : a ≤ b := by
  obtain ⟨front, mid, back, inserted, -, -, rfl, rfl, -⟩ := h.parts
  rw [byteLen_append]
  omega

theorem byteLen_eq (h : Splice t t' a b n) :
    b ≤ byteLen t ∧ byteLen t' = byteLen t + n - (b - a) := by
  obtain ⟨front, mid, back, inserted, rfl, rfl, rfl, rfl, rfl⟩ := h.parts
  simp only [byteLen_append]
  omega

/-- The boundaries in front of the replacement. -/
theorem boundary_front (h : Splice t t' a b n) (hp : Boundary t p) (hle : p ≤ a) :
    Boundary t' p := by
  obtain ⟨front, mid, back, inserted, rfl, rfl, rfl, rfl, rfl⟩ := h.parts
  obtain ⟨first, rest, ht, rfl⟩ := hp
  have hfront : front <+: front ++ mid ++ back := ⟨mid ++ back, (List.append_assoc _ _ _).symm⟩
  obtain ⟨more, rfl⟩ := prefix_of_byteLen_le ⟨rest, ht.symm⟩ hfront hle
  rw [List.append_assoc, List.append_assoc]
  exact Boundary.of_append _ _

/-- The boundaries behind it are moved. -/
theorem boundary_back (h : Splice t t' a b n) (hp : Boundary t p) (hle : b ≤ p) :
    Boundary t' (p + n - (b - a)) := by
  obtain ⟨front, mid, back, inserted, rfl, rfl, rfl, rfl, rfl⟩ := h.parts
  obtain ⟨first, rest, ht, rfl⟩ := hp
  obtain ⟨more, rfl⟩ := prefix_of_byteLen_le ⟨back, rfl⟩ ⟨rest, ht.symm⟩ hle
  rw [List.append_assoc (front ++ mid)] at ht
  obtain rfl := List.append_cancel_left ht
  have hlen : byteLen (front ++ mid ++ more) + byteLen inserted -
      (byteLen (front ++ mid) - byteLen front) = byteLen (front ++ inserted ++ more) := by
    simp only [byteLen_append]
    omega
  rw [hlen, ← List.append_assoc]
  exact Boundary.of_append _ _

/-- The end of what was inserted. -/
theorem boundary_inserted (h : Splice t t' a b n) : Boundary t' a ∧ Boundary t' (a + n) := by
  obtain ⟨front, mid, back, inserted, rfl, rfl, rfl, rfl, rfl⟩ := h.parts
  refine ⟨?_, ?_⟩
  · rw [List.append_assoc]
    exact Boundary.of_append _ _
  · rw [← byteLen_append]
    exact Boundary.of_append _ _

/-- **What is in front stays as it is.** -/
theorem slice_front (h : Splice t t' a b n) (hp : Boundary t p) (hq : Boundary t q) (hpq : p ≤ q)
    (hle : q ≤ a) : slice t' p q = slice t p q := by
  obtain ⟨front, mid, back, inserted, rfl, rfl, rfl, rfl, rfl⟩ := h.parts
  obtain ⟨first, piece, rest, ht, rfl, rfl⟩ := exists_parts hp hq hpq
  have hfront : front <+: front ++ mid ++ back := ⟨mid ++ back, (List.append_assoc _ _ _).symm⟩
  obtain ⟨more, rfl⟩ := prefix_of_byteLen_le ⟨rest, ht.symm⟩ hfront hle
  simp only [List.append_assoc]
  rw [← List.append_assoc, slice_parts, ← List.append_assoc, slice_parts]

/-- **What is behind stays as it is**, and is moved. -/
theorem slice_back (h : Splice t t' a b n) (hp : Boundary t p) (hq : Boundary t q) (hpq : p ≤ q)
    (hle : b ≤ p) : slice t' (p + n - (b - a)) (q + n - (b - a)) = slice t p q := by
  obtain ⟨front, mid, back, inserted, rfl, rfl, rfl, rfl, rfl⟩ := h.parts
  obtain ⟨first, piece, rest, ht, rfl, rfl⟩ := exists_parts hp hq hpq
  have hfirst : first <+: front ++ mid ++ back :=
    ⟨piece ++ rest, by rw [ht, List.append_assoc]⟩
  obtain ⟨more, rfl⟩ := prefix_of_byteLen_le ⟨back, rfl⟩ hfirst hle
  have hback : back = more ++ (piece ++ rest) := by
    have hall : front ++ mid ++ back = front ++ mid ++ (more ++ (piece ++ rest)) := by
      rw [ht]
      simp only [List.append_assoc]
    exact List.append_cancel_left hall
  have hstart : byteLen (front ++ mid ++ more) + byteLen inserted -
      (byteLen (front ++ mid) - byteLen front) = byteLen (front ++ inserted ++ more) := by
    simp only [byteLen_append]
    omega
  have hstop : byteLen (front ++ mid ++ more ++ piece) + byteLen inserted -
      (byteLen (front ++ mid) - byteLen front) = byteLen (front ++ inserted ++ more ++ piece) := by
    simp only [byteLen_append]
    omega
  rw [hstart, hstop, hback]
  have ht' : front ++ inserted ++ (more ++ (piece ++ rest)) =
      front ++ inserted ++ more ++ piece ++ rest := by simp only [List.append_assoc]
  have ht'' : front ++ mid ++ (more ++ (piece ++ rest)) =
      front ++ mid ++ more ++ piece ++ rest := by simp only [List.append_assoc]
  rw [ht', ht'', slice_parts, slice_parts]

end Splice

/-! ### The closest boundary -/

/-- The last boundary that is not behind the offset. -/
def boundaryBefore (t : Text) : Nat → Nat
  | 0 => 0
  | p + 1 => if isCharBoundary t (p + 1) then p + 1 else boundaryBefore t p

/-- The first boundary that is not in front of the offset, within some bytes. -/
def boundaryAfter (t : Text) : Nat → Nat → Nat
  | 0, p => p
  | fuel + 1, p => if isCharBoundary t p then p else boundaryAfter t fuel (p + 1)

def clampToCharBoundary (t : Text) (p : Nat) : Nat :=
  let p := min p (byteLen t)
  if isCharBoundary t p then p
  else
    let before := boundaryBefore t p
    let after := boundaryAfter t (byteLen t - p) p
    if p - before ≤ after - p then before else after

theorem boundaryBefore_spec (t : Text) (p : Nat) : Boundary t (boundaryBefore t p) ∧
    boundaryBefore t p ≤ p ∧ ∀ q, Boundary t q → q ≤ p → q ≤ boundaryBefore t p := by
  induction p with
  | zero => exact ⟨Boundary.zero t, Nat.le_refl _, fun q _ hle => hle⟩
  | succ p ih =>
    rw [boundaryBefore]
    split
    next hboundary =>
      exact ⟨isCharBoundary_iff.mp hboundary, Nat.le_refl _, fun q _ hle => hle⟩
    next hinside =>
      refine ⟨ih.1, by omega, fun q hq hle => ih.2.2 q hq ?_⟩
      have hne : q ≠ p + 1 := by
        rintro rfl
        exact hinside (isCharBoundary_iff.mpr hq)
      omega

theorem boundaryAfter_spec {fuel : Nat} (h : p + fuel = byteLen t) :
    Boundary t (boundaryAfter t fuel p) ∧ p ≤ boundaryAfter t fuel p ∧
      ∀ q, Boundary t q → p ≤ q → boundaryAfter t fuel p ≤ q := by
  induction fuel generalizing p with
  | zero =>
    rw [boundaryAfter]
    refine ⟨?_, Nat.le_refl _, fun q _ hle => hle⟩
    have hp : p = byteLen t := by omega
    rw [hp]
    exact Boundary.all t
  | succ fuel ih =>
    rw [boundaryAfter]
    split
    next hboundary =>
      exact ⟨isCharBoundary_iff.mp hboundary, Nat.le_refl _, fun q _ hle => hle⟩
    next hinside =>
      obtain ⟨hafter, hle, hfirst⟩ := ih (p := p + 1) (by omega)
      refine ⟨hafter, by omega, fun q hq hpq => hfirst q hq ?_⟩
      have hne : q ≠ p := by
        rintro rfl
        exact hinside (isCharBoundary_iff.mpr hq)
      omega

/-- **The closest boundary.**  No boundary is between it and the offset; of two that are as close it
    is the first. -/
structure Closest (t : Text) (p c : Nat) : Prop where
  boundary : Boundary t c
  below : ∀ q, Boundary t q → q ≤ p → q ≤ c
  above : ∀ q, Boundary t q → p ≤ q → c ≤ q
  nearest_before : c < p → ∀ q, Boundary t q → p ≤ q → p - c ≤ q - p
  nearest_after : p < c → ∀ q, Boundary t q → q ≤ p → c - p < p - q

theorem clampToCharBoundary_closest (t : Text) (p : Nat) :
    Closest t p (clampToCharBoundary t p) := by
  unfold clampToCharBoundary
  by_cases hlong : byteLen t < p
  · rw [Nat.min_eq_right (Nat.le_of_lt hlong)]
    dsimp only
    rw [if_pos (isCharBoundary_iff.mpr (Boundary.all t))]
    refine ⟨Boundary.all t, fun q hq _ => hq.le_byteLen, ?_, ?_, ?_⟩
    · intro q hq hle
      have := hq.le_byteLen
      omega
    · intro _ q hq hle
      have := hq.le_byteLen
      omega
    · intro hlt
      omega
  · rw [Nat.min_eq_left (by omega)]
    dsimp only
    obtain ⟨hbefore, hbefore_le, hlast⟩ := boundaryBefore_spec t p
    obtain ⟨hafter, hafter_le, hfirst⟩ : Boundary t (boundaryAfter t (byteLen t - p) p) ∧ _ :=
      boundaryAfter_spec (by omega)
    split
    next hboundary =>
      have hp := isCharBoundary_iff.mp hboundary
      exact ⟨hp, fun _ _ hle => hle, fun _ _ hle => hle, fun hlt => absurd hlt (by omega),
        fun hlt => absurd hlt (by omega)⟩
    · split
      next hcloser =>
        refine ⟨hbefore, hlast, ?_, ?_, ?_⟩
        · intro q _ hle
          omega
        · intro _ q hq hle
          have := hfirst q hq hle
          omega
        · intro hlt
          omega
      next hcloser =>
        refine ⟨hafter, ?_, hfirst, ?_, ?_⟩
        · intro q _ hle
          omega
        · intro hlt
          omega
        · intro _ q hq hle
          have := hlast q hq hle
          omega

theorem boundary_clampToCharBoundary (t : Text) (p : Nat) : Boundary t (clampToCharBoundary t p) :=
  (clampToCharBoundary_closest t p).boundary

theorem clampToCharBoundary_of_boundary (h : Boundary t p) : clampToCharBoundary t p = p := by
  have hclosest := clampToCharBoundary_closest t p
  have hbelow := hclosest.below p h (Nat.le_refl p)
  have habove := hclosest.above p h (Nat.le_refl p)
  omega

/-- **Clamping keeps the order** of two offsets. -/
theorem clampToCharBoundary_mono (t : Text) (h : p ≤ q) :
    clampToCharBoundary t p ≤ clampToCharBoundary t q := by
  have hp := clampToCharBoundary_closest t p
  have hq := clampToCharBoundary_closest t q
  by_contra hlt
  rw [Nat.not_le] at hlt
  -- both offsets would be between the same two boundaries
  have hqp : clampToCharBoundary t q < p := by
    by_contra hge
    have := hp.above _ hq.boundary (by omega)
    omega
  have hpq : q < clampToCharBoundary t p := by
    by_contra hge
    have := hq.below _ hp.boundary (by omega)
    omega
  have hafter := hp.nearest_after (by omega) _ hq.boundary (by omega)
  have hbefore := hq.nearest_before (by omega) _ hp.boundary (by omega)
  omega

end CodexMonitor.Text
