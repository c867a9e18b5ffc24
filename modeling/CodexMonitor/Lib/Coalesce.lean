import Mathlib.Data.List.Basic
import Mathlib.Data.List.Induction
import Mathlib.Tactic.Tauto

namespace CodexMonitor

/-!
# Coalescing — neighbours of a list that are put together

* `dedupFrom` — the first element of each key.
* `push`, `pushAll` — an element is put together with the last one, if the two combine, and
  becomes the new last one otherwise.  The list under construction is kept in reverse.
* `coalesce_append`, `append_coalesce` — for an associative combination, a part of the list may
  be coalesced before the whole (`Combination` carries the laws).
* `coalesce_alone` — what does not combine with its neighbours.
-/

/-! ### The first of each key -/

section Dedup

variable {α κ : Type*} [DecidableEq κ] (key : α → κ)

/-- The elements with a key that is not in `seen`, the first of each key. -/
def dedupFrom (seen : List κ) : List α → List α
  | [] => []
  | x :: xs =>
      if key x ∈ seen then dedupFrom seen xs else x :: dedupFrom (key x :: seen) xs

def dedupOn (l : List α) : List α := dedupFrom key [] l

variable {key} {seen seen' : List κ}

theorem dedupFrom_congr (h : ∀ k, k ∈ seen ↔ k ∈ seen') (l : List α) :
    dedupFrom key seen l = dedupFrom key seen' l := by
  induction l generalizing seen seen' with
  | nil => rfl
  | cons x xs ih =>
    unfold dedupFrom
    by_cases hx : key x ∈ seen
    · rw [if_pos hx, if_pos ((h _).mp hx), ih h]
    · rw [if_neg hx, if_neg fun h' => hx ((h _).mpr h')]
      congr 1
      apply ih
      intro k
      rw [List.mem_cons, List.mem_cons, h k]

/-- A second pass that has seen more. -/
theorem dedupFrom_dedupFrom (h : ∀ k ∈ seen', k ∈ seen) (l : List α) :
    dedupFrom key seen (dedupFrom key seen' l) = dedupFrom key seen l := by
  induction l generalizing seen seen' with
  | nil => rfl
  | cons x xs ih =>
    by_cases hx' : key x ∈ seen'
    · rw [dedupFrom, if_pos hx', ih h]
      conv_rhs => rw [dedupFrom, if_pos (h _ hx')]
    · rw [dedupFrom, if_neg hx', dedupFrom]
      by_cases hx : key x ∈ seen
      · rw [if_pos hx]
        conv_rhs => rw [dedupFrom, if_pos hx]
        apply ih
        intro k hk
        rcases List.mem_cons.mp hk with rfl | hk
        · exact hx
        · exact h k hk
      · rw [if_neg hx]
        conv_rhs => rw [dedupFrom, if_neg hx]
        congr 1
        apply ih
        intro k hk
        rcases List.mem_cons.mp hk with rfl | hk
        · exact List.mem_cons_self
        · exact List.mem_cons_of_mem _ (h k hk)

theorem dedupFrom_append (l m : List α) :
    dedupFrom key seen (l ++ m) =
      dedupFrom key seen l ++ dedupFrom key (l.map key ++ seen) m := by
  induction l generalizing seen with
  | nil => rfl
  | cons x xs ih =>
    simp only [List.cons_append, dedupFrom, List.map_cons]
    by_cases hx : key x ∈ seen
    · rw [if_pos hx, if_pos hx, ih]
      congr 1
      apply dedupFrom_congr
      intro k
      simp only [List.mem_append, List.mem_cons]
      constructor
      · intro h
        exact .inr h
      · rintro (rfl | h)
        · exact .inr hx
        · exact h
    · rw [if_neg hx, if_neg hx, ih, List.cons_append]
      congr 2
      apply dedupFrom_congr
      intro k
      simp only [List.mem_append, List.mem_cons]
      tauto

theorem mem_keys_dedupFrom (l : List α) (k : κ) :
    k ∈ (dedupFrom key seen l).map key ++ seen ↔ k ∈ l.map key ++ seen := by
  induction l generalizing seen with
  | nil => rfl
  | cons x xs ih =>
    simp only [dedupFrom, List.map_cons, List.mem_append, List.mem_cons]
    by_cases hx : key x ∈ seen
    · rw [if_pos hx, ← List.mem_append, ih, List.mem_append]
      constructor
      · rintro (h | h)
        · exact .inl (.inr h)
        · exact .inr h
      · rintro ((rfl | h) | h)
        · exact .inr hx
        · exact .inl h
        · exact .inr h
    · have hrest := @ih (key x :: seen)
      simp only [List.mem_append, List.mem_cons] at hrest
      rw [if_neg hx, List.map_cons, List.mem_cons]
      tauto

theorem dedupOn_dedupOn_append (l m : List α) :
    dedupOn key (dedupOn key l ++ m) = dedupOn key (l ++ m) := by
  unfold dedupOn
  rw [dedupFrom_append, dedupFrom_append, dedupFrom_dedupFrom fun _ h => h]
  congr 1
  exact dedupFrom_congr (mem_keys_dedupFrom l) m

theorem dedupOn_append_dedupOn (l m : List α) :
    dedupOn key (l ++ dedupOn key m) = dedupOn key (l ++ m) := by
  unfold dedupOn
  rw [dedupFrom_append, dedupFrom_append,
    dedupFrom_dedupFrom fun _ hk => absurd hk List.not_mem_nil]

end Dedup

/-! ### Coalescing -/

/-- A partial combination of two neighbours.  It is associative where it is defined, and a
    combination combines with the neighbours that its parts combine with. -/
structure Combination (α : Type*) where
  combine : α → α → Option α
  assoc : ∀ {a b c ab bc}, combine a b = some ab → combine b c = some bc →
    combine ab c = combine a bc ∧ (combine a bc).isSome
  left : ∀ {a b c bc}, combine a b = none → combine b c = some bc → combine a bc = none
  right : ∀ {a b c ab}, combine b c = none → combine a b = some ab → combine ab c = none

namespace Combination

variable {α : Type*} (C : Combination α)

/-- The next element, onto the list so far in reverse. -/
def push (acc : List α) (x : α) : List α :=
  match acc with
  | [] => [x]
  | last :: rest =>
      match C.combine last x with
      | some combined => combined :: rest
      | none => x :: last :: rest

def pushAll (acc l : List α) : List α := l.foldl C.push acc

def coalesce (l : List α) : List α := (C.pushAll [] l).reverse

variable {C} {acc l m : List α} {a b x : α}

theorem push_some (h : C.combine a x = some b) : C.push (a :: acc) x = b :: acc := by
  simp only [push, h]

theorem push_none (h : C.combine a x = none) : C.push (a :: acc) x = x :: a :: acc := by
  simp only [push, h]

theorem pushAll_append : C.pushAll acc (l ++ m) = C.pushAll (C.pushAll acc l) m :=
  List.foldl_append

/-- Two elements that combine may be combined before they are pushed. -/
theorem push_push (h : C.combine a x = some b) : C.push (C.push acc a) x = C.push acc b := by
  cases acc with
  | nil => exact push_some h
  | cons last rest =>
    cases hlast : C.combine last a with
    | none => rw [push_none hlast, push_some h, push_none (C.left hlast h)]
    | some combined =>
      obtain ⟨hassoc, hsome⟩ := C.assoc hlast h
      obtain ⟨all, hall⟩ := Option.isSome_iff_exists.mp hsome
      rw [push_some hlast, push_some (hassoc.trans hall), push_some hall]

/-- **A coalesced list pushes like the list itself.** -/
theorem pushAll_coalesce (acc l : List α) : C.pushAll acc (C.coalesce l) = C.pushAll acc l := by
  induction l using List.reverseRecOn with
  | nil => rfl
  | append_singleton l x ih =>
    have hlast : C.coalesce (l ++ [x]) = (C.push (C.pushAll [] l) x).reverse := by
      unfold coalesce
      rw [pushAll_append]
      rfl
    have hpush : C.pushAll acc (l ++ [x]) = C.push (C.pushAll acc (C.coalesce l)) x := by
      rw [pushAll_append, ih]
      rfl
    rw [hlast, hpush, coalesce]
    cases hr : C.pushAll [] l with
    | nil => rfl
    | cons last rest =>
      have hsplit : ∀ y, C.pushAll acc (y :: rest).reverse =
          C.push (C.pushAll acc rest.reverse) y := by
        intro y
        rw [List.reverse_cons, pushAll_append]
        rfl
      cases hx : C.combine last x with
      | some combined => rw [push_some hx, hsplit, hsplit, push_push hx]
      | none =>
        rw [push_none hx, List.reverse_cons, pushAll_append]
        rfl

/-- A part at the front may be coalesced first. -/
theorem coalesce_append (l m : List α) : C.coalesce (C.coalesce l ++ m) = C.coalesce (l ++ m) := by
  unfold coalesce
  rw [pushAll_append, pushAll_append, ← coalesce, pushAll_coalesce]

/-- A part at the end may be coalesced first. -/
theorem append_coalesce (l m : List α) : C.coalesce (l ++ C.coalesce m) = C.coalesce (l ++ m) := by
  unfold coalesce
  rw [pushAll_append, pushAll_append, ← coalesce, pushAll_coalesce]

/-- Pushing touches the last element only. -/
theorem pushAll_cons (a : α) (acc l : List α) :
    C.pushAll (a :: acc) l = C.pushAll [a] l ++ acc := by
  induction l generalizing a acc with
  | nil => rfl
  | cons x l ih =>
    show C.pushAll (C.push (a :: acc) x) l = C.pushAll (C.push [a] x) l ++ acc
    cases hx : C.combine a x with
    | some b => rw [push_some hx, push_some hx, ih]
    | none => rw [push_none hx, push_none hx, ih, ih x [a], List.append_assoc, List.singleton_append]

/-- An element that does not combine with the last element of a list does not combine with what
    that element has become. -/
theorem combine_head_pushAll (h : ∀ b ∈ l.getLast?, C.combine b x = none) :
    ∀ b ∈ (C.pushAll [] l).head?, C.combine b x = none := by
  induction l using List.reverseRecOn with
  | nil => nofun
  | append_singleton l y _ =>
    have hy : C.combine y x = none := h y (by simp)
    rw [pushAll_append]
    show ∀ b ∈ (C.push (C.pushAll [] l) y).head?, _
    cases C.pushAll [] l with
    | nil =>
      rintro b ⟨⟩
      exact hy
    | cons last rest =>
      cases hlast : C.combine last y with
      | some combined =>
        rw [push_some hlast]
        rintro b ⟨⟩
        exact C.right hy hlast
      | none =>
        rw [push_none hlast]
        rintro b ⟨⟩
        exact hy

/-- **An element that stands alone** separates what stands on its two sides. -/
theorem coalesce_alone (hl : ∀ b ∈ l.getLast?, C.combine b x = none)
    (hr : ∀ b ∈ m.head?, C.combine x b = none) :
    C.coalesce (l ++ x :: m) = C.coalesce l ++ x :: C.coalesce m := by
  have hx : C.push (C.pushAll [] l) x = x :: C.pushAll [] l := by
    have hhead := combine_head_pushAll hl
    cases hacc : C.pushAll [] l with
    | nil => rfl
    | cons last rest =>
      rw [hacc] at hhead
      exact push_none (hhead last rfl)
  have hm : C.pushAll [x] m = C.pushAll [] m ++ [x] := by
    cases m with
    | nil => rfl
    | cons b m =>
      show C.pushAll (C.push [x] b) m = C.pushAll [b] m ++ [x]
      rw [push_none (hr b rfl), pushAll_cons]
  unfold coalesce
  rw [pushAll_append]
  show (C.pushAll (C.push _ x) m).reverse = _
  rw [hx, pushAll_cons, hm, List.reverse_append, List.reverse_append]
  rfl

/-- A condition that combinations keep. -/
theorem coalesce_forall {P : α → Prop}
    (hP : ∀ {a b c}, C.combine a b = some c → P a → P b → P c) (h : ∀ a ∈ l, P a) :
    ∀ a ∈ C.coalesce l, P a := by
  induction l using List.reverseRecOn with
  | nil => nofun
  | append_singleton l x ih =>
    have hx := h x (by simp)
    have hacc := ih fun a ha => h a (List.mem_append_left _ ha)
    unfold coalesce at hacc ⊢
    simp only [List.mem_reverse] at hacc ⊢
    rw [pushAll_append]
    show ∀ a ∈ C.push (C.pushAll [] l) x, P a
    cases hr : C.pushAll [] l with
    | nil =>
      intro a ha
      rwa [List.mem_singleton.mp ha]
    | cons last rest =>
      rw [hr] at hacc
      cases hlast : C.combine last x with
      | some combined =>
        rw [push_some hlast]
        intro a ha
        rcases List.mem_cons.mp ha with rfl | ha
        · exact hP hlast (hacc last List.mem_cons_self) hx
        · exact hacc a (List.mem_cons_of_mem _ ha)
      | none =>
        rw [push_none hlast]
        intro a ha
        rcases List.mem_cons.mp ha with rfl | ha
        · exact hx
        · exact hacc a ha

/-- An attribute that a combination takes from its first part. -/
theorem map_coalesce_sublist {β : Type*} {f : α → β}
    (hf : ∀ {a b c}, C.combine a b = some c → f c = f a) (l : List α) :
    List.Sublist ((C.coalesce l).map f) (l.map f) := by
  induction l using List.reverseRecOn with
  | nil => exact List.Sublist.refl _
  | append_singleton l x ih =>
    have hlast : C.coalesce (l ++ [x]) = (C.push (C.pushAll [] l) x).reverse := by
      unfold coalesce
      rw [pushAll_append]
      rfl
    rw [hlast, List.map_append]
    unfold coalesce at ih
    cases hr : C.pushAll [] l with
    | nil => exact List.sublist_append_right _ _
    | cons last rest =>
      rw [hr] at ih
      cases hx : C.combine last x with
      | some combined =>
        rw [push_some hx, List.reverse_cons, List.map_append, List.map_singleton, hf hx]
        rw [List.reverse_cons, List.map_append, List.map_singleton] at ih
        exact ih.trans (List.sublist_append_left _ _)
      | none =>
        rw [push_none hx, List.reverse_cons, List.map_append]
        exact ih.append (List.Sublist.refl _)

/-- A fold that takes a combination for its two parts, one after the other. -/
theorem foldl_coalesce {β : Type*} {f : β → α → β}
    (hf : ∀ {a b c}, C.combine a b = some c → ∀ s, f s c = f (f s a) b) (l : List α) (s : β) :
    (C.coalesce l).foldl f s = l.foldl f s := by
  induction l using List.reverseRecOn with
  | nil => rfl
  | append_singleton l x ih =>
    have hlast : C.coalesce (l ++ [x]) = (C.push (C.pushAll [] l) x).reverse := by
      unfold coalesce
      rw [pushAll_append]
      rfl
    have hsplit : (l ++ [x]).foldl f s = f (l.foldl f s) x := List.foldl_append
    rw [hlast, hsplit, ← ih]
    unfold coalesce
    cases hr : C.pushAll [] l with
    | nil => rfl
    | cons last rest =>
      cases hx : C.combine last x with
      | some combined =>
        rw [push_some hx, List.reverse_cons, List.reverse_cons, List.foldl_append,
          List.foldl_append]
        exact hf hx _
      | none =>
        rw [push_none hx, List.reverse_cons, List.foldl_append]
        rfl

/-- What a combination holds of its two parts, one after the other. -/
theorem flatMap_coalesce {β : Type*} {f : α → List β}
    (hf : ∀ {a b c}, C.combine a b = some c → f c = f a ++ f b) (l : List α) :
    (C.coalesce l).flatMap f = l.flatMap f := by
  induction l using List.reverseRecOn with
  | nil => rfl
  | append_singleton l x ih =>
    have hlast : C.coalesce (l ++ [x]) = (C.push (C.pushAll [] l) x).reverse := by
      unfold coalesce
      rw [pushAll_append]
      rfl
    rw [hlast, List.flatMap_append, ← ih, List.flatMap_singleton]
    unfold coalesce
    cases hr : C.pushAll [] l with
    | nil => exact List.flatMap_singleton f x
    | cons last rest =>
      cases hx : C.combine last x with
      | some combined =>
        rw [push_some hx, List.reverse_cons, List.reverse_cons, List.flatMap_append,
          List.flatMap_append, List.flatMap_singleton, List.flatMap_singleton, hf hx,
          List.append_assoc]
      | none =>
        rw [push_none hx, List.reverse_cons, List.flatMap_append, List.flatMap_singleton]

/-- A map that respects the combinations. -/
theorem map_coalesce {β : Type*} {D : Combination β} {f : α → β}
    (hf : ∀ a b, D.combine (f a) (f b) = (C.combine a b).map f) (l : List α) :
    D.coalesce (l.map f) = (C.coalesce l).map f := by
  have hpush : ∀ acc x, D.push (acc.map f) (f x) = (C.push acc x).map f := by
    intro acc x
    cases acc with
    | nil => rfl
    | cons last rest =>
      have hlast := hf last x
      cases hx : C.combine last x with
      | some combined =>
        rw [hx, Option.map_some] at hlast
        rw [push_some hx]
        exact push_some hlast
      | none =>
        rw [hx, Option.map_none] at hlast
        rw [push_none hx]
        exact push_none hlast
  have hall : ∀ acc, D.pushAll (acc.map f) (l.map f) = (C.pushAll acc l).map f := by
    induction l with
    | nil => exact fun _ => rfl
    | cons x l ih =>
      intro acc
      show D.pushAll (D.push (acc.map f) (f x)) (l.map f) = _
      rw [hpush]
      exact ih _
  unfold coalesce
  have hnil := hall []
  rw [List.map_nil] at hnil
  rw [hnil, List.map_reverse]

end Combination

end CodexMonitor
