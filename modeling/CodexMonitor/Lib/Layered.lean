import Mathlib.Data.List.Infix

namespace CodexMonitor

/-!
# Layered — documents laid over each other

A document is what stands at each path: a leaf, an open node, into which another document
may be merged, or a closed node, which another document replaces as a whole.

* `Doc`, `Rooted` — documents; above what stands at a path something stands.
* `Blocked` — the upper document replaces something on the way to a path.
* `overlay`, `stack` — one document over another, and a list of them from the lowest on.
* `overlay_cons`, `overlay_of_replaced` — how an overlay is computed from the root on.
* `stack_leaf_iff` — where the leaves of a stack come from.
-/

namespace Layered

/-- What stands at a path. -/
inductive Node (α : Type*)
  | leaf (a : α)
  | open
  | closed
  deriving DecidableEq, Repr

variable {κ α : Type*}

/-- What stands at each path of a document. -/
abbrev Doc (κ α : Type*) := List κ → Option (Node α)

/-- Above what stands at a path something stands. -/
def Rooted (d : Doc κ α) : Prop := ∀ p q, q <+: p → (d p).isSome → (d q).isSome

/-- There is a leaf at the path. -/
def LeafAt (d : Doc κ α) (p : List κ) : Prop := ∃ a, d p = some (.leaf a)

/-- On the way to the path the upper document has a node that is not merged into the lower
    one: only two open nodes are merged. -/
def Blocked (lower upper : Doc κ α) (p : List κ) : Prop :=
  ∃ q, q <+: p ∧ (upper q).isSome ∧ ¬ (upper q = some .open ∧ lower q = some .open)

open scoped Classical in
/-- The upper document over the lower one. -/
noncomputable def overlay (lower upper : Doc κ α) : Doc κ α := fun p =>
  match upper p with
  | some node => some node
  | none => if Blocked lower upper p then none else lower p

/-- The documents from the lowest on, over a base. -/
noncomputable def stack (base : Doc κ α) (docs : List (Doc κ α)) : Doc κ α :=
  docs.foldl overlay base

variable {lower upper base d : Doc κ α} {docs before rest : List (Doc κ α)} {p q : List κ} {a : α}

theorem Blocked.mono (h : Blocked lower upper q) (hq : q <+: p) : Blocked lower upper p := by
  obtain ⟨r, hr, hsome, hopen⟩ := h
  exact ⟨r, hr.trans hq, hsome, hopen⟩

/-- Whether a path is blocked depends on the nodes on the way to it only. -/
theorem Blocked.congr {lower' : Doc κ α} (h : Blocked lower upper p)
    (heq : ∀ q, q <+: p → lower q = lower' q) : Blocked lower' upper p := by
  obtain ⟨r, hr, hsome, hopen⟩ := h
  exact ⟨r, hr, hsome, heq r hr ▸ hopen⟩

theorem overlay_of_some {node : Node α} (h : upper p = some node) :
    overlay lower upper p = some node := by
  simp only [overlay, h]

theorem overlay_of_none (h : upper p = none) (hfree : ¬ Blocked lower upper p) :
    overlay lower upper p = lower p := by
  simp only [overlay, h, if_neg hfree]

theorem overlay_of_blocked (h : upper p = none) (hblocked : Blocked lower upper p) :
    overlay lower upper p = none := by
  simp only [overlay, h, if_pos hblocked]

/-- A leaf of the overlay is one of the upper document, or one of the lower that shows
    through. -/
theorem overlay_leaf (h : overlay lower upper p = some (.leaf a)) :
    upper p = some (.leaf a) ∨
      upper p = none ∧ ¬ Blocked lower upper p ∧ lower p = some (.leaf a) := by
  cases hup : upper p with
  | some node =>
    rw [overlay_of_some hup] at h
    exact .inl h
  | none =>
    by_cases hblocked : Blocked lower upper p
    · rw [overlay_of_blocked hup hblocked] at h
      cases h
    · rw [overlay_of_none hup hblocked] at h
      exact .inr ⟨rfl, hblocked, h⟩

/-- A node that is not merged replaces the whole of the lower document. -/
theorem overlay_of_replaced (hsome : (upper []).isSome)
    (hnot : ¬ (upper [] = some .open ∧ lower [] = some .open)) : overlay lower upper = upper := by
  funext p
  cases hup : upper p with
  | some node => exact overlay_of_some hup
  | none => exact overlay_of_blocked hup ⟨[], List.nil_prefix, hsome, hnot⟩

/-- **Open nodes are merged key by key.** -/
theorem overlay_cons {k : κ} (hupper : upper [] = some .open) (hlower : lower [] = some .open) :
    overlay lower upper (k :: p) =
      overlay (fun q => lower (k :: q)) (fun q => upper (k :: q)) p := by
  have hiff : Blocked lower upper (k :: p) ↔
      Blocked (fun q => lower (k :: q)) (fun q => upper (k :: q)) p := by
    constructor
    · rintro ⟨q, hq, hsome, hnot⟩
      rcases List.prefix_cons_iff.mp hq with rfl | ⟨r, rfl, hr⟩
      · exact absurd ⟨hupper, hlower⟩ hnot
      · exact ⟨r, hr, hsome, hnot⟩
    · rintro ⟨r, hr, hsome, hnot⟩
      exact ⟨k :: r, List.cons_prefix_cons.mpr ⟨rfl, hr⟩, hsome, hnot⟩
  cases hup : upper (k :: p) with
  | some node =>
    have hchild : overlay (fun q => lower (k :: q)) (fun q => upper (k :: q)) p = some node :=
      overlay_of_some hup
    rw [overlay_of_some hup, hchild]
  | none =>
    by_cases hblocked : Blocked lower upper (k :: p)
    · have hchild : overlay (fun q => lower (k :: q)) (fun q => upper (k :: q)) p = none :=
        overlay_of_blocked hup (hiff.mp hblocked)
      rw [overlay_of_blocked hup hblocked, hchild]
    · have hchild : overlay (fun q => lower (k :: q)) (fun q => upper (k :: q)) p =
          lower (k :: p) :=
        overlay_of_none hup fun h => hblocked (hiff.mpr h)
      rw [overlay_of_none hup hblocked, hchild]

/-- Nothing over a document. -/
theorem overlay_none (lower : Doc κ α) : overlay lower (fun _ => none) = lower := by
  funext p
  apply overlay_of_none rfl
  rintro ⟨q, _, hsome, _⟩
  cases hsome

/-- A document over nothing. -/
theorem none_overlay (upper : Doc κ α) : overlay (fun _ => none) upper = upper := by
  funext p
  cases hup : upper p with
  | some node => exact overlay_of_some hup
  | none =>
    by_cases hblocked : Blocked (fun _ => none) upper p
    · exact overlay_of_blocked hup hblocked
    · exact overlay_of_none hup hblocked

@[simp] theorem stack_nil : stack base [] = base := rfl

theorem stack_concat : stack base (docs ++ [d]) = overlay (stack base docs) d :=
  List.foldl_concat overlay base d docs

/-- **A leaf shows through** the documents above it that do not block its path. -/
theorem stack_of_free (hroot : Rooted d) (hleaf : LeafAt d p)
    (hfree : ∀ e ∈ rest, ¬ Blocked d e p) (hq : q <+: p) :
    stack base (before ++ d :: rest) q = d q := by
  induction rest using List.reverseRecOn generalizing q with
  | nil =>
    obtain ⟨a, ha⟩ := hleaf
    have hsome : (d q).isSome := hroot p q hq (by rw [ha]; rfl)
    obtain ⟨node, hnode⟩ := Option.isSome_iff_exists.mp hsome
    rw [stack_concat, overlay_of_some hnode, hnode]
  | append_singleton rest e ih =>
    have hbelow : ∀ q, q <+: p → stack base (before ++ d :: rest) q = d q :=
      fun q hq => ih (fun e he => hfree e (List.mem_append_left _ he)) hq
    have he : ¬ Blocked d e p := hfree e List.mem_concat_self
    rw [← List.cons_append, ← List.append_assoc, stack_concat]
    cases hnode : e q with
    | some node =>
      -- a node on the way that does not block is open, and meets an open one
      have hopen : e q = some .open ∧ d q = some .open := by
        by_contra hnot
        exact he ⟨q, hq, by rw [hnode]; rfl, hnot⟩
      rw [overlay_of_some hnode, ← hnode, hopen.1, hopen.2]
    | none =>
      have hnot : ¬ Blocked (stack base (before ++ d :: rest)) e q := by
        intro hblocked
        have hd : Blocked d e q := hblocked.congr fun r hr => hbelow r (hr.trans hq)
        exact he (hd.mono hq)
      rw [overlay_of_none hnode hnot]
      exact hbelow q hq

/-- **A leaf that is blocked is gone**, unless a document above has a leaf at its path. -/
theorem not_leafAt_of_blocked (hroot : Rooted d) (hleaf : LeafAt d p)
    (hrest : ∀ e ∈ rest, ¬ LeafAt e p) (hblocked : ∃ e ∈ rest, Blocked d e p) :
    ¬ LeafAt (stack base (before ++ d :: rest)) p := by
  induction rest using List.reverseRecOn with
  | nil =>
    obtain ⟨e, he, _⟩ := hblocked
    cases he
  | append_singleton rest e ih =>
    rintro ⟨a, ha⟩
    rw [← List.cons_append, ← List.append_assoc, stack_concat] at ha
    rcases overlay_leaf ha with htop | ⟨hnone, hnot, hlow⟩
    · exact hrest e List.mem_concat_self ⟨a, htop⟩
    · by_cases hearlier : ∃ e ∈ rest, Blocked d e p
      · exact ih (fun e he => hrest e (List.mem_append_left _ he)) hearlier ⟨a, hlow⟩
      · have hfree : ∀ e ∈ rest, ¬ Blocked d e p := fun e he hb => hearlier ⟨e, he, hb⟩
        obtain ⟨e', he', hb⟩ := hblocked
        rcases List.mem_append.mp he' with hmem | hmem
        · exact hfree e' hmem hb
        · obtain rfl := List.mem_singleton.mp hmem
          exact hnot (hb.congr fun q hq => (stack_of_free hroot hleaf hfree hq).symm)

/-- A leaf of a stack lies over one of the highest document that has a leaf at its path. -/
theorem exists_top_of_leafAt (hbase : ¬ LeafAt base p) (h : LeafAt (stack base docs) p) :
    ∃ before d rest, docs = before ++ d :: rest ∧ LeafAt d p ∧ ∀ e ∈ rest, ¬ LeafAt e p := by
  induction docs using List.reverseRecOn with
  | nil => exact absurd h hbase
  | append_singleton docs e ih =>
    by_cases he : LeafAt e p
    · exact ⟨docs, e, [], rfl, he, by simp⟩
    · obtain ⟨a, ha⟩ := h
      rw [stack_concat] at ha
      rcases overlay_leaf ha with htop | ⟨_, _, hlow⟩
      · exact absurd ⟨a, htop⟩ he
      · obtain ⟨before, d, rest, rfl, hd, hrest⟩ := ih ⟨a, hlow⟩
        refine ⟨before, d, rest ++ [e], by simp, hd, ?_⟩
        intro e' he'
        rcases List.mem_append.mp he' with hmem | hmem
        · exact hrest e' hmem
        · exact List.mem_singleton.mp hmem ▸ he

/-- **The leaves of a stack** are those of its documents that are the highest at their path and
    whose path no document above blocks. -/
theorem stack_leaf_iff (hroot : ∀ d ∈ docs, Rooted d) (hbase : ¬ LeafAt base p) :
    stack base docs p = some (.leaf a) ↔ ∃ before d rest, docs = before ++ d :: rest ∧
      d p = some (.leaf a) ∧ ∀ e ∈ rest, ¬ LeafAt e p ∧ ¬ Blocked d e p := by
  constructor
  · intro h
    obtain ⟨before, d, rest, rfl, hd, hrest⟩ := exists_top_of_leafAt hbase ⟨a, h⟩
    have hrootd : Rooted d := hroot d (by simp)
    have hfree : ∀ e ∈ rest, ¬ Blocked d e p := fun e he hb =>
      not_leafAt_of_blocked hrootd hd hrest ⟨e, he, hb⟩ ⟨a, h⟩
    rw [stack_of_free hrootd hd hfree (List.prefix_refl p)] at h
    exact ⟨before, d, rest, rfl, h, fun e he => ⟨hrest e he, hfree e he⟩⟩
  · rintro ⟨before, d, rest, rfl, hd, hrest⟩
    rw [stack_of_free (hroot d (by simp)) ⟨a, hd⟩ (fun e he => (hrest e he).2)
      (List.prefix_refl p), hd]

end Layered

end CodexMonitor
