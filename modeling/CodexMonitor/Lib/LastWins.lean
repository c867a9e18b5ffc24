import Mathlib.Data.List.Basic
import Mathlib.Data.List.Nodup

namespace CodexMonitor

/-!
# Last decision wins

Events decide, one after the other, on which side their key is; some decide nothing.  A list of
keys is kept for each side: the key of an event is taken out of every list and put at the end of
its own.

* `LastEvent` — the last event that decides for a key, and its position.
* `Reflects` — a list holds the keys whose last decision is one side, in the order of these
  decisions.
* `Reflects.upsert`, `Reflects.retain`, `Reflects.skip` — what one more event does to a list.
* `Reflects.nodup`, `Reflects.disjoint` — no key twice, and on one side only.
-/

variable {α κ δ : Type*} {key : α → κ} {side : α → Option δ}
variable {events : List α} {event : α} {d d' : δ} {k : κ} {keys keys' : List κ} {i j : Nat}

/-- The event at position `i` puts the key `k` on the side `d`, and no later one decides for `k`. -/
def LastEvent (key : α → κ) (side : α → Option δ) (events : List α) (d : δ) (k : κ) (i : Nat) :
    Prop :=
  (∃ event, events[i]? = some event ∧ key event = k ∧ side event = some d) ∧
    ∀ j event, i < j → events[j]? = some event → key event = k → side event = none

theorem LastEvent.lt_length (h : LastEvent key side events d k i) : i < events.length := by
  obtain ⟨⟨event, hevent, -⟩, -⟩ := h
  exact (List.getElem?_eq_some_iff.mp hevent).1

/-- The side and the position are determined. -/
theorem LastEvent.unique (h : LastEvent key side events d k i)
    (h' : LastEvent key side events d' k j) : i = j ∧ d = d' := by
  obtain ⟨⟨event, hevent, hkey, hside⟩, hlater⟩ := h
  obtain ⟨⟨event', hevent', hkey', hside'⟩, hlater'⟩ := h'
  rcases Nat.lt_trichotomy i j with hlt | rfl | hgt
  · rw [hlater j event' hlt hevent' hkey'] at hside'
    cases hside'
  · rw [hevent] at hevent'
    obtain rfl := Option.some.inj hevent'
    rw [hside] at hside'
    exact ⟨rfl, Option.some.inj hside'⟩
  · rw [hlater' i event hgt hevent hkey] at hside
    cases hside

/-- **One more event** decides for its own key, if at all. -/
theorem lastEvent_concat_iff : LastEvent key side (events ++ [event]) d k i ↔
    (i = events.length ∧ key event = k ∧ side event = some d) ∨
      (LastEvent key side events d k i ∧ (key event = k → side event = none)) := by
  constructor
  · rintro ⟨⟨found, hfound, hkey, hside⟩, hlater⟩
    by_cases hlt : i < events.length
    · rw [List.getElem?_append_left hlt] at hfound
      refine Or.inr ⟨⟨⟨found, hfound, hkey, hside⟩, ?_⟩, ?_⟩
      · intro j later hj hget hkey'
        have hjlt := (List.getElem?_eq_some_iff.mp hget).1
        exact hlater j later hj (by rw [List.getElem?_append_left hjlt, hget]) hkey'
      · intro hkey'
        exact hlater events.length event hlt List.getElem?_concat_length hkey'
    · have hbound := (List.getElem?_eq_some_iff.mp hfound).1
      rw [List.length_append, List.length_singleton] at hbound
      have hi : i = events.length := by omega
      subst hi
      rw [List.getElem?_concat_length] at hfound
      obtain rfl := Option.some.inj hfound
      exact Or.inl ⟨rfl, hkey, hside⟩
  · rintro (⟨rfl, hkey, hside⟩ | ⟨h, hnone⟩)
    · refine ⟨⟨event, List.getElem?_concat_length, hkey, hside⟩, ?_⟩
      intro j later hj hget
      have hbound := (List.getElem?_eq_some_iff.mp hget).1
      rw [List.length_append, List.length_singleton] at hbound
      omega
    · have hlt := h.lt_length
      obtain ⟨⟨found, hfound, hkey, hside⟩, hlater⟩ := h
      refine ⟨⟨found, by rw [List.getElem?_append_left hlt, hfound], hkey, hside⟩, ?_⟩
      intro j later hj hget hkey'
      by_cases hjlt : j < events.length
      · rw [List.getElem?_append_left hjlt] at hget
        exact hlater j later hj hget hkey'
      · have hbound := (List.getElem?_eq_some_iff.mp hget).1
        rw [List.length_append, List.length_singleton] at hbound
        have hjlen : j = events.length := by omega
        subst hjlen
        rw [List.getElem?_concat_length] at hget
        obtain rfl := Option.some.inj hget
        exact hnone hkey'

/-- The list of one side. -/
structure Reflects (key : α → κ) (side : α → Option δ) (events : List α) (d : δ)
    (keys : List κ) : Prop where
  mem_iff : ∀ k, k ∈ keys ↔ ∃ i, LastEvent key side events d k i
  ordered : keys.Pairwise fun a b => ∃ i j, LastEvent key side events d a i ∧
    LastEvent key side events d b j ∧ i < j

theorem reflects_nil : Reflects key side [] d [] := by
  refine ⟨?_, List.Pairwise.nil⟩
  intro k
  constructor
  · intro h
    cases h
  · rintro ⟨i, h⟩
    exact absurd h.lt_length (Nat.not_lt_zero i)

theorem Reflects.nodup (h : Reflects key side events d keys) : keys.Nodup := by
  refine h.ordered.imp ?_
  rintro a b ⟨i, j, hi, hj, hlt⟩ rfl
  have hsame := (hi.unique hj).1
  omega

theorem Reflects.disjoint (h : Reflects key side events d keys)
    (h' : Reflects key side events d' keys') (hne : d ≠ d') : keys.Disjoint keys' := by
  intro k hmem hmem'
  obtain ⟨i, hi⟩ := (h.mem_iff k).mp hmem
  obtain ⟨j, hj⟩ := (h'.mem_iff k).mp hmem'
  exact hne (hi.unique hj).2

/-- An event that decides nothing changes no list. -/
theorem Reflects.skip (h : Reflects key side events d keys) (hside : side event = none) :
    Reflects key side (events ++ [event]) d keys := by
  have hiff : ∀ k i, LastEvent key side (events ++ [event]) d k i ↔
      LastEvent key side events d k i := by
    intro k i
    rw [lastEvent_concat_iff, hside]
    simp
  refine ⟨?_, ?_⟩
  · simpa only [hiff] using h.mem_iff
  · simpa only [hiff] using h.ordered

/-- Other keys keep their last event. -/
theorem LastEvent.other (h : LastEvent key side events d k i) (hne : key event ≠ k) :
    LastEvent key side (events ++ [event]) d k i :=
  lastEvent_concat_iff.mpr (Or.inr ⟨h, fun heq => absurd heq hne⟩)

variable [DecidableEq κ]

/-- The keys that stay, in the order they had. -/
theorem Reflects.ordered_filter (h : Reflects key side events d keys) :
    (keys.filter (· ≠ key event)).Pairwise fun a b => ∃ i j,
      LastEvent key side (events ++ [event]) d a i ∧
        LastEvent key side (events ++ [event]) d b j ∧ i < j := by
  rw [List.pairwise_filter]
  refine h.ordered.imp ?_
  rintro a b ⟨i, j, hi, hj, hlt⟩ ha hb
  have hane : key event ≠ a := fun heq => of_decide_eq_true ha heq.symm
  have hbne : key event ≠ b := fun heq => of_decide_eq_true hb heq.symm
  exact ⟨i, j, hi.other hane, hj.other hbne, hlt⟩

/-- A decision for the other side takes the key out. -/
theorem Reflects.retain (h : Reflects key side events d keys) (hside : side event = some d')
    (hne : d' ≠ d) :
    Reflects key side (events ++ [event]) d (keys.filter (· ≠ key event)) := by
  refine ⟨?_, h.ordered_filter⟩
  intro k
  have hdecided : side event ≠ some d := by
    rw [hside]
    exact fun heq => hne (Option.some.inj heq)
  have hsome : side event ≠ none := by
    rw [hside]
    exact Option.some_ne_none d'
  rw [List.mem_filter, h.mem_iff]
  constructor
  · rintro ⟨⟨i, hi⟩, hk⟩
    exact ⟨i, hi.other fun heq => of_decide_eq_true hk heq.symm⟩
  · rintro ⟨i, hi⟩
    rcases lastEvent_concat_iff.mp hi with ⟨-, -, hcontra⟩ | ⟨hold, hnone⟩
    · exact absurd hcontra hdecided
    · exact ⟨⟨i, hold⟩, decide_eq_true fun heq => hsome (hnone heq.symm)⟩

/-- A decision for the side puts the key at the end. -/
theorem Reflects.upsert (h : Reflects key side events d keys) (hside : side event = some d) :
    Reflects key side (events ++ [event]) d (keys.filter (· ≠ key event) ++ [key event]) := by
  have hlast : LastEvent key side (events ++ [event]) d (key event) events.length :=
    lastEvent_concat_iff.mpr (Or.inl ⟨rfl, rfl, hside⟩)
  constructor
  · intro k
    rw [List.mem_append, List.mem_filter, List.mem_singleton, h.mem_iff]
    constructor
    · rintro (⟨⟨i, hi⟩, hk⟩ | rfl)
      · exact ⟨i, hi.other fun heq => of_decide_eq_true hk heq.symm⟩
      · exact ⟨events.length, hlast⟩
    · rintro ⟨i, hi⟩
      by_cases hk : k = key event
      · exact Or.inr hk
      · rcases lastEvent_concat_iff.mp hi with ⟨-, heq, -⟩ | ⟨hold, -⟩
        · exact absurd heq.symm hk
        · exact Or.inl ⟨⟨i, hold⟩, decide_eq_true hk⟩
  · rw [List.pairwise_append]
    refine ⟨h.ordered_filter, List.pairwise_singleton _ _, ?_⟩
    intro a ha b hb
    obtain rfl := List.mem_singleton.mp hb
    obtain ⟨hmem, hane⟩ := List.mem_filter.mp ha
    obtain ⟨i, hi⟩ := (h.mem_iff a).mp hmem
    have hgrown : LastEvent key side (events ++ [event]) d a i :=
      hi.other fun heq => of_decide_eq_true hane heq.symm
    exact ⟨i, events.length, hgrown, hlast, hi.lt_length⟩

end CodexMonitor
