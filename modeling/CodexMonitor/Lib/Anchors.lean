import CodexMonitor.Lib.Ancestry
import CodexMonitor.Lib.Tasks

namespace CodexMonitor

/-!
# Anchors — lists that are closed under ancestors

A list is completed from a store of elements: by the elements that are asked for, and by the
ancestors of all of its elements, as far as the store has them.

* `walk` — the ancestors of an element, up to one that was visited; it ends, also on a cycle.
* `mem_walk_iff` — the walk from an element meets exactly its ancestors.
* `anchor`, `anchored` — one element of the store, and the completed list.
* `mem_anchored_iff`, `anchored_closed` — what the completed list has.
-/

namespace Ancestry

/-- Visiting a value that was not visited leaves fewer to visit. -/
theorem length_unvisited_lt {α : Type*} [BEq α] [LawfulBEq α] {values visited : List α} {value : α}
    (hmem : value ∈ values) (hnew : value ∉ visited) :
    (values.filter (· ∉ value :: visited)).length < (values.filter (· ∉ visited)).length := by
  have hsplit : values.filter (· ∉ value :: visited) =
      (values.filter (· ∉ visited)).filter (· != value) := by
    rw [List.filter_filter]
    apply List.filter_congr
    intro v _
    simp [not_or, bne]
  rw [hsplit]
  apply List.length_filter_lt_length_iff_exists.mpr
  exact ⟨value, List.mem_filter.mpr ⟨hmem, decide_eq_true hnew⟩, by simp⟩

variable {α : Type*} [DecidableEq α]

/-- The parent, unless it is one to stop at. -/
def parentOf (parents : Registry α α) (stop : α → Bool) (a : α) : Option α :=
  (parents.lookup a).filter fun p => !stop p

/-- The ancestors of an element, up to one that was visited. -/
def walk (parents : Registry α α) (stop : α → Bool) (visited : List α) (a : α) : List α :=
  match _hparent : parents.lookup a with
  | none => []
  | some p =>
      if _hvisited : stop p = true ∨ p ∈ visited then []
      else p :: walk parents stop (p :: visited) p
termination_by ((parents.entries.map Sigma.snd).filter (· ∉ visited)).length
decreasing_by
  have hmem : p ∈ parents.entries.map Sigma.snd :=
    List.mem_map.mpr ⟨_, Registry.mem_of_lookup _hparent, rfl⟩
  exact length_unvisited_lt hmem fun h => _hvisited (.inr h)

variable {parents : Registry α α} {stop : α → Bool} {visited : List α} {a b : α}

theorem descends_of_mem_walk (h : b ∈ walk parents stop visited a) :
    Descends (parentOf parents stop) a b := by
  fun_induction walk parents stop visited a with
  | case1 => exact absurd h List.not_mem_nil
  | case2 => exact absurd h List.not_mem_nil
  | case3 visited a p hparent hvisited ih =>
    have hstop : stop p = false := eq_false_of_ne_true fun hstop => hvisited (.inl hstop)
    have hstep : parentOf parents stop a = some p := by
      unfold parentOf
      rw [hparent, Option.filter_some, hstop]
      rfl
    rcases List.mem_cons.mp h with rfl | h
    · exact .of_parent hstep .refl
    · exact .of_parent hstep (ih h)

/-- **The walk misses no ancestor** that was not visited, if all that was visited but the last
    element has its parent among what was visited. -/
theorem mem_walk_of_descends (h : Descends (parentOf parents stop) a b) (ha : a ∈ visited)
    (hvisited : ∀ v ∈ visited, v ≠ a → ∀ p, parentOf parents stop v = some p → p ∈ visited) :
    b ∈ visited ∨ b ∈ walk parents stop visited a := by
  fun_induction walk parents stop visited a with
  | case1 visited a hparent =>
    -- the element has no parent
    have hnone : parentOf parents stop a = none := by
      unfold parentOf
      rw [hparent]
      rfl
    rw [← h.eq_of_none hnone]
    exact .inl ha
  | case2 visited a p hparent hstops =>
    -- a cycle, or an end: the visited elements are closed under parents
    have hclosed : ∀ v ∈ visited, ∀ q, parentOf parents stop v = some q → q ∈ visited := by
      intro v hv q hq
      by_cases heq : v = a
      · unfold parentOf at hq
        rw [heq, hparent, Option.filter_some] at hq
        split at hq
        next hgo =>
          obtain rfl := Option.some.inj hq
          exact hstops.resolve_left fun hstop => by simp [hstop] at hgo
        next => cases hq
      · exact hvisited v hv heq q hq
    left
    induction h with
    | refl => exact ha
    | tail _ hstep ih => exact hclosed _ ih _ hstep
  | case3 visited a p hparent hnew ih =>
    have hstop : stop p = false := eq_false_of_ne_true fun hstop => hnew (.inl hstop)
    have hstep : parentOf parents stop a = some p := by
      unfold parentOf
      rw [hparent, Option.filter_some, hstop]
      rfl
    rcases h.eq_or_parent hstep with rfl | hrest
    · exact .inl ha
    · have hvisited' : ∀ v ∈ p :: visited, v ≠ p → ∀ q, parentOf parents stop v = some q →
          q ∈ p :: visited := by
        intro v hv hne q hq
        rcases List.mem_cons.mp hv with heq | hv
        · exact absurd heq hne
        · by_cases heq : v = a
          · rw [heq, hstep] at hq
            obtain rfl := Option.some.inj hq
            exact List.mem_cons_self
          · exact List.mem_cons_of_mem _ (hvisited v hv heq q hq)
      rcases ih hrest List.mem_cons_self hvisited' with hmem | hmem
      · rcases List.mem_cons.mp hmem with rfl | hmem
        · exact .inr List.mem_cons_self
        · exact .inl hmem
      · exact .inr (List.mem_cons_of_mem _ hmem)

/-- **The walk from an element** meets exactly its ancestors, cycles or not. -/
theorem mem_walk_iff :
    b = a ∨ b ∈ walk parents stop [a] a ↔ Descends (parentOf parents stop) a b := by
  constructor
  · rintro (rfl | h)
    · exact .refl
    · exact descends_of_mem_walk h
  · intro h
    have hvisited : ∀ v ∈ [a], v ≠ a → ∀ p, parentOf parents stop v = some p → p ∈ [a] := by
      intro v hv hne
      exact absurd (List.mem_singleton.mp hv) hne
    rcases mem_walk_of_descends h (List.mem_singleton_self a) hvisited with hmem | hmem
    · exact .inl (List.mem_singleton.mp hmem)
    · exact .inr hmem

end Ancestry

/-! ### Completing a list -/

namespace Anchors

open Ancestry

variable {α β : Type*} [DecidableEq α] (key : β → α) (available : α → Option β)

/-- The element of the store is added, unless the list has its key. -/
def anchor (list : List β) (k : α) : List β :=
  if k ∈ list.map key then list
  else match available k with
    | some b => list ++ [b]
    | none => list

/-- The list with the elements that are asked for, and with the ancestors of all of these. -/
def anchored (parents : Registry α α) (stop : α → Bool) (list : List β) (asked : List α) :
    List β :=
  let seeds := asked.foldl (anchor key available) list
  (seeds.map key).foldl
    (fun list seed => (walk parents stop [seed] seed).foldl (anchor key available) list) seeds

variable {key available} {list : List β} {k : α}
  (hkey : ∀ k b, available k = some b → key b = k)

theorem prefix_anchor : list <+: anchor key available list k := by
  unfold anchor
  split
  · exact List.prefix_rfl
  · split
    · exact List.prefix_append _ _
    · exact List.prefix_rfl

omit [DecidableEq α] in
theorem prefix_foldl {f : List β → α → List β} (hf : ∀ list k, list <+: f list k)
    (asked : List α) : list <+: asked.foldl f list := by
  induction asked generalizing list with
  | nil => exact List.prefix_rfl
  | cons k asked ih => exact (hf list k).trans ih

theorem prefix_anchored {parents : Registry α α} {stop : α → Bool} {asked : List α} :
    list <+: anchored key available parents stop list asked := by
  have hanchor : ∀ (list : List β) k, list <+: anchor key available list k :=
    fun _ _ => prefix_anchor
  refine (prefix_foldl hanchor asked).trans (prefix_foldl ?_ _)
  intro list seed
  exact prefix_foldl hanchor _

include hkey

theorem mem_anchor_iff {x : α} : x ∈ (anchor key available list k).map key ↔
    x ∈ list.map key ∨ x = k ∧ (available k).isSome = true := by
  unfold anchor
  by_cases hmem : k ∈ list.map key
  · rw [if_pos hmem]
    constructor
    · exact .inl
    · rintro (h | ⟨rfl, -⟩)
      · exact h
      · exact hmem
  · rw [if_neg hmem]
    cases havailable : available k with
    | none => simp
    | some b => simp [hkey k b havailable]

theorem mem_foldl_anchor_iff {asked : List α} {x : α} :
    x ∈ (asked.foldl (anchor key available) list).map key ↔
      x ∈ list.map key ∨ x ∈ asked ∧ (available x).isSome = true := by
  induction asked generalizing list with
  | nil => simp
  | cons k asked ih =>
    rw [List.foldl_cons, ih, mem_anchor_iff hkey, List.mem_cons]
    constructor
    · rintro ((h | ⟨rfl, h⟩) | ⟨hmem, h⟩)
      · exact .inl h
      · exact .inr ⟨.inl rfl, h⟩
      · exact .inr ⟨.inr hmem, h⟩
    · rintro (h | ⟨rfl | hmem, h⟩)
      · exact .inl (.inl h)
      · exact .inl (.inr ⟨rfl, h⟩)
      · exact .inr ⟨hmem, h⟩

theorem nodup_anchor (h : (list.map key).Nodup) : ((anchor key available list k).map key).Nodup := by
  unfold anchor
  by_cases hmem : k ∈ list.map key
  · rw [if_pos hmem]
    exact h
  · rw [if_neg hmem]
    cases havailable : available k with
    | none => exact h
    | some b =>
      show ((list ++ [b]).map key).Nodup
      have hnew : key b ∉ list.map key := by rwa [hkey k b havailable]
      rw [List.map_append]
      show (list.map key ++ [key b]).Nodup
      rw [← List.concat_eq_append]
      exact List.Nodup.concat hnew h

theorem nodup_foldl_anchor (asked : List α) (h : (list.map key).Nodup) :
    ((asked.foldl (anchor key available) list).map key).Nodup := by
  induction asked generalizing list with
  | nil => exact h
  | cons k asked ih => exact ih (nodup_anchor hkey h)

/-- The ancestors of some seeds are added, one seed after the other. -/
theorem nodup_foldl_walks {parents : Registry α α} {stop : α → Bool} (seeds : List α)
    (h : (list.map key).Nodup) : ((seeds.foldl (fun list seed =>
      (walk parents stop [seed] seed).foldl (anchor key available) list) list).map key).Nodup := by
  induction seeds generalizing list with
  | nil => exact h
  | cons seed seeds ih => exact ih (nodup_foldl_anchor hkey _ h)

theorem mem_foldl_walks_iff {parents : Registry α α} {stop : α → Bool} {seeds : List α} {x : α} :
    x ∈ (seeds.foldl (fun list seed =>
      (walk parents stop [seed] seed).foldl (anchor key available) list) list).map key ↔
    x ∈ list.map key ∨
      (∃ seed ∈ seeds, x ∈ walk parents stop [seed] seed) ∧ (available x).isSome = true := by
  induction seeds generalizing list with
  | nil => simp
  | cons seed seeds ih =>
    rw [List.foldl_cons, ih, mem_foldl_anchor_iff hkey]
    constructor
    · rintro ((h | ⟨hmem, h⟩) | ⟨⟨other, hother, hmem⟩, h⟩)
      · exact .inl h
      · exact .inr ⟨⟨seed, List.mem_cons_self, hmem⟩, h⟩
      · exact .inr ⟨⟨other, List.mem_cons_of_mem _ hother, hmem⟩, h⟩
    · rintro (h | ⟨⟨other, hother, hmem⟩, h⟩)
      · exact .inl (.inl h)
      · rcases List.mem_cons.mp hother with rfl | hother
        · exact .inl (.inr ⟨hmem, h⟩)
        · exact .inr ⟨⟨other, hother, hmem⟩, h⟩

theorem nodup_anchored {parents : Registry α α} {stop : α → Bool} (asked : List α)
    (h : (list.map key).Nodup) :
    ((anchored key available parents stop list asked).map key).Nodup :=
  nodup_foldl_walks hkey _ (nodup_foldl_anchor hkey asked h)

/-- **What the completed list has**: its seeds, which it had before or which are asked for, and
    what the store has of their ancestors. -/
theorem mem_anchored_iff {parents : Registry α α} {stop : α → Bool} {asked : List α} {x : α} :
    x ∈ (anchored key available parents stop list asked).map key ↔
      (x ∈ list.map key ∨ x ∈ asked ∧ (available x).isSome = true) ∨
      (∃ seed, (seed ∈ list.map key ∨ seed ∈ asked ∧ (available seed).isSome = true) ∧
        Descends (parentOf parents stop) seed x) ∧ (available x).isSome = true := by
  unfold anchored
  simp only
  rw [mem_foldl_walks_iff hkey, mem_foldl_anchor_iff hkey]
  constructor
  · rintro (h | ⟨⟨seed, hseed, hwalk⟩, h⟩)
    · exact .inl h
    · rw [mem_foldl_anchor_iff hkey] at hseed
      exact .inr ⟨⟨seed, hseed, mem_walk_iff.mp (.inr hwalk)⟩, h⟩
  · rintro (h | ⟨⟨seed, hseed, hdescends⟩, h⟩)
    · exact .inl h
    · rcases mem_walk_iff.mpr hdescends with rfl | hwalk
      · exact .inl hseed
      · refine .inr ⟨⟨seed, ?_, hwalk⟩, h⟩
        rw [mem_foldl_anchor_iff hkey]
        exact hseed

/-- **The completed list is closed** under the ancestors that the store has. -/
theorem anchored_closed {parents : Registry α α} {stop : α → Bool} {asked : List α} {x y : α}
    (hx : x ∈ (anchored key available parents stop list asked).map key)
    (hdescends : Descends (parentOf parents stop) x y) (hy : (available y).isSome = true) :
    y ∈ (anchored key available parents stop list asked).map key := by
  rw [mem_anchored_iff hkey] at hx ⊢
  rcases hx with hseed | ⟨⟨seed, hseed, hpath⟩, -⟩
  · exact .inr ⟨⟨x, hseed, hdescends⟩, hy⟩
  · exact .inr ⟨⟨seed, hseed, hpath.trans hdescends⟩, hy⟩

end Anchors

end CodexMonitor
