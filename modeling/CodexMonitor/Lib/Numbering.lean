import Mathlib.Data.List.Nodup
import Mathlib.Data.List.Forall2

namespace CodexMonitor

/-!
# Numbering — numbered elements of a list of groups

Elements are added to groups: numbered ones to the last group, with the next number, and others to
any group.  When groups are cut off at the end, the numbers go on behind the number of elements that
are left, whether these are numbered or not.

* `Numbered` — what holds between the groups and the next number.
* `Grown` — a group to which only elements without a number were added.
* `Numbered.number`, `Numbered.grow`, `Numbered.cut` — the three operations keep it.
-/

/-- The number of each element of a group, if it has one. -/
abbrev Group := List (Option Nat)

/-- The numbers of a group. -/
def numbersIn (group : Group) : List Nat := group.filterMap id

/-- **Numbers do not repeat.** They are below the next one, and no group holds a number that exceeds
    the number of elements up to its end. -/
structure Numbered (groups : List Group) (next : Nat) : Prop where
  distinct : (numbersIn groups.flatten).Nodup
  fresh : ∀ n ∈ numbersIn groups.flatten, n < next
  counted : ∀ k, ∀ n ∈ numbersIn (groups.take k).flatten, n ≤ (groups.take k).flatten.length
  next_le : next ≤ groups.flatten.length + 1

/-- The same numbers, and perhaps more elements. -/
structure Grown (group group' : Group) : Prop where
  numbers : numbersIn group' = numbersIn group
  length : group.length ≤ group'.length

variable {groups groups' : List Group} {group group' : Group} {next : Nat}

theorem numbersIn_append (group group' : Group) :
    numbersIn (group ++ group') = numbersIn group ++ numbersIn group' := List.filterMap_append

theorem Grown.refl (group : Group) : Grown group group := ⟨rfl, Nat.le_refl _⟩

theorem Grown.append (h : Grown group group') {more more' : Group} (h' : Grown more more') :
    Grown (group ++ more) (group' ++ more') where
  numbers := by rw [numbersIn_append, numbersIn_append, h.numbers, h'.numbers]
  length := by
    rw [List.length_append, List.length_append]
    exact Nat.add_le_add h.length h'.length

theorem Grown.flatten (h : List.Forall₂ Grown groups groups') :
    Grown groups.flatten groups'.flatten := by
  induction h with
  | nil => exact .refl []
  | cons hgroup _ ih => exact hgroup.append ih

theorem numbered_nil : Numbered [] 1 where
  distinct := List.nodup_nil
  fresh := by simp [numbersIn]
  counted := by simp [numbersIn]
  next_le := Nat.le_refl _

/-- **Elements without a number** may be added to all groups. -/
theorem Numbered.grow (h : Numbered groups next) (hgrown : List.Forall₂ Grown groups groups') :
    Numbered groups' next := by
  have hall := Grown.flatten hgrown
  refine ⟨?_, ?_, ?_, ?_⟩
  · rw [hall.numbers]
    exact h.distinct
  · rw [hall.numbers]
    exact h.fresh
  · intro k n hn
    have htake := Grown.flatten (List.forall₂_take k hgrown)
    rw [htake.numbers] at hn
    exact Nat.le_trans (h.counted k n hn) htake.length
  · exact Nat.le_trans h.next_le (Nat.succ_le_succ hall.length)

/-- An empty group may be added at the end. -/
theorem Numbered.open (h : Numbered groups next) : Numbered (groups ++ [[]]) next := by
  have hflatten : (groups ++ [[]]).flatten = groups.flatten := by simp
  refine ⟨?_, ?_, fun k n hn => ?_, ?_⟩
  · rw [hflatten]
    exact h.distinct
  · rw [hflatten]
    exact h.fresh
  · have htake : ((groups ++ [[]]).take k).flatten = (groups.take k).flatten := by
      rw [List.take_append, List.flatten_append]
      cases k - groups.length <;> simp
    rw [htake] at hn ⊢
    exact h.counted k n hn
  · rw [hflatten]
    exact h.next_le

/-- An empty group at the end may go. -/
theorem Numbered.drop (h : Numbered (groups ++ [[]]) next) : Numbered groups next := by
  have hflatten : (groups ++ [[]]).flatten = groups.flatten := by simp
  refine ⟨?_, ?_, fun k n hn => ?_, ?_⟩
  · rw [← hflatten]
    exact h.distinct
  · rw [← hflatten]
    exact h.fresh
  · have htake : groups.take k = (groups ++ [[]]).take (min k groups.length) := by
      rw [List.take_append_of_le_length (Nat.min_le_right _ _), List.take_eq_take_iff]
      omega
    rw [htake] at hn ⊢
    exact h.counted _ n hn
  · rw [← hflatten]
    exact h.next_le

/-- **The next number** goes to the last group. -/
theorem Numbered.number (h : Numbered (groups ++ [group]) next) :
    Numbered (groups ++ [group ++ [some next]]) (next + 1) := by
  have hnumbers : numbersIn (groups ++ [group ++ [some next]]).flatten =
      numbersIn (groups ++ [group]).flatten ++ [next] := by
    simp [numbersIn]
  have hlength : (groups ++ [group ++ [some next]]).flatten.length =
      (groups ++ [group]).flatten.length + 1 := by
    simp
    omega
  have hle := h.next_le
  refine ⟨?_, ?_, fun k n hn => ?_, ?_⟩
  · rw [hnumbers, List.nodup_append]
    refine ⟨h.distinct, List.nodup_singleton next, fun n hn m hm => ?_⟩
    have hlt := h.fresh n hn
    rw [List.mem_singleton] at hm
    omega
  · intro n hn
    rw [hnumbers, List.mem_append, List.mem_singleton] at hn
    rcases hn with hn | rfl
    · have hlt := h.fresh n hn
      omega
    · omega
  · by_cases hk : k ≤ groups.length
    · rw [List.take_append_of_le_length hk] at hn ⊢
      have hcounted := h.counted k n
      rw [List.take_append_of_le_length hk] at hcounted
      exact hcounted hn
    · -- the last group ends behind all elements
      have htake : (groups ++ [group ++ [some next]]).take k = groups ++ [group ++ [some next]] :=
        List.take_of_length_le (by simp; omega)
      rw [htake, hnumbers, List.mem_append, List.mem_singleton] at hn
      rw [htake, hlength]
      rcases hn with hn | rfl
      · have hlt := h.fresh n hn
        omega
      · exact hle
  · omega

/-- **Groups are cut off**, and the numbers go on behind the elements that are left. -/
theorem Numbered.cut (h : Numbered groups next) (k : Nat) :
    Numbered (groups.take k) ((groups.take k).flatten.length + 1) where
  distinct := by
    have hdistinct := h.distinct
    rw [← List.take_append_drop k groups, List.flatten_append, numbersIn_append] at hdistinct
    exact hdistinct.of_append_left
  fresh n hn := Nat.lt_succ_of_le (h.counted k n hn)
  counted j n hn := by
    rw [List.take_take] at hn ⊢
    exact h.counted _ n hn
  next_le := Nat.le_refl _

end CodexMonitor
