import Mathlib.Data.List.MinMax
import Mathlib.Data.Prod.Lex

namespace CodexMonitor

/-!
# Prefix rules — the longest rule above a path decides

A rule gives a value to a path and to all that lies below it.  Where several rules apply the
longest decides, and of these the one with the greatest value.  What the rules grant can also be
said by regions: roots with parts carved out of them.

* `Rule`, `Decides` — rules, and the one that decides at a path.
* `Granted` — the deciding rule has a good value.
* `Region`, `Region.Covers` — a root without its carve-outs.
* `granted_iff_region` — the regions of the granted roots cover exactly the granted paths.
-/

namespace PrefixRules

/-- A value for a path and what lies below it. -/
@[ext]
structure Rule (κ V : Type*) where
  path : List κ
  value : V
  deriving DecidableEq, Repr

variable {κ V : Type*}

/-- Longer paths first, then greater values. -/
def Rule.precedence (r : Rule κ V) : ℕ ×ₗ V := toLex (r.path.length, r.value)

/-- The rule decides at `p`: it applies there, and no rule that does precedes it. -/
structure Decides [LE V] (rules : List (Rule κ V)) (p : List κ) (r : Rule κ V) : Prop where
  mem : r ∈ rules
  applies : r.path <+: p
  greatest : ∀ r' ∈ rules, r'.path <+: p → r'.precedence ≤ r.precedence

section Decides

variable [LinearOrder V] {rules : List (Rule κ V)} {p q : List κ} {r r' : Rule κ V}

theorem Rule.length_le (h : r.precedence ≤ r'.precedence) : r.path.length ≤ r'.path.length := by
  rcases Prod.Lex.le_iff.mp h with hlt | ⟨heq, _⟩
  · exact le_of_lt hlt
  · exact le_of_eq heq

/-- Where a rule applies, a rule decides. -/
theorem exists_decides (hr : r ∈ rules) (happlies : r.path <+: p) :
    ∃ w, Decides rules p w := by
  classical
  have hmem : r ∈ rules.filter (fun r => r.path <+: p) :=
    List.mem_filter.mpr ⟨hr, decide_eq_true happlies⟩
  cases hmax : (rules.filter fun r => r.path <+: p).argmax Rule.precedence with
  | none =>
    rw [List.argmax_eq_none.mp hmax] at hmem
    exact absurd hmem List.not_mem_nil
  | some w =>
    obtain ⟨hw, happ⟩ := List.mem_filter.mp (List.argmax_mem hmax)
    refine ⟨w, hw, of_decide_eq_true happ, ?_⟩
    intro r' hr' h
    exact List.le_of_mem_argmax (List.mem_filter.mpr ⟨hr', decide_eq_true h⟩) hmax

theorem Decides.unique (h : Decides rules p r) (h' : Decides rules p r') : r = r' := by
  have heq : r.precedence = r'.precedence :=
    le_antisymm (h'.greatest r h.mem h.applies) (h.greatest r' h'.mem h'.applies)
  have hpair : (r.path.length, r.value) = (r'.path.length, r'.value) := toLex.injective heq
  obtain ⟨hlen, hvalue⟩ := Prod.mk.injEq .. ▸ hpair
  have hpath : r.path = r'.path :=
    (List.prefix_of_prefix_length_le h.applies h'.applies (le_of_eq hlen)).eq_of_length hlen
  exact Rule.ext hpath hvalue

/-- A rule that decides somewhere decides at its own path. -/
theorem Decides.self (h : Decides rules p r) : Decides rules r.path r :=
  ⟨h.mem, List.prefix_rfl, fun r' hr' happ => h.greatest r' hr' (happ.trans h.applies)⟩

/-- Nothing that applies is longer than the deciding rule, so it lies above it. -/
theorem Decides.above (h : Decides rules p r) (hr' : r' ∈ rules) (happ : r'.path <+: p) :
    r'.path <+: r.path :=
  List.prefix_of_prefix_length_le happ h.applies (Rule.length_le (h.greatest r' hr' happ))

/-- Among the rules with the path of the deciding one, its value is the greatest. -/
theorem Decides.value_le (h : Decides rules p r) (hr' : r' ∈ rules) (hpath : r'.path = r.path) :
    r'.value ≤ r.value := by
  have hle := h.greatest r' hr' (hpath ▸ h.applies)
  rw [Rule.precedence, Rule.precedence, Prod.Lex.toLex_le_toLex, hpath] at hle
  rcases hle with hlt | ⟨-, hle⟩
  · exact absurd hlt (lt_irrefl _)
  · exact hle

end Decides

/-! ### What the rules grant -/

/-- The deciding rule has a good value. -/
def Granted [LE V] (ok : V → Prop) (rules : List (Rule κ V)) (p : List κ) : Prop :=
  ∃ r, Decides rules p r ∧ ok r.value

/-- The rule carves its path out of a region with this root: the value is not good, the path is
    not granted, and it lies strictly below the root. -/
def Carves [LE V] (ok : V → Prop) (rules : List (Rule κ V)) (root : List κ) (e : Rule κ V) :
    Prop :=
  e ∈ rules ∧ ¬ ok e.value ∧ ¬ Granted ok rules e.path ∧ root <+: e.path ∧ e.path ≠ root

/-- A root without what is carved out of it. -/
structure Region (κ : Type*) where
  root : List κ
  carveouts : List (List κ)

namespace Region

/-- The path lies under the root and under no carve-out. -/
def Covers (region : Region κ) (p : List κ) : Prop :=
  region.root <+: p ∧ ∀ c ∈ region.carveouts, ¬ c <+: p

/-- What a region covers at or below a path it covers at the path, unless it begins below. -/
theorem exists_covers_below {region : Region κ} {d : List κ} (h : ¬ d <+: region.root) :
    (∃ q, d <+: q ∧ region.Covers q) ↔ region.Covers d := by
  constructor
  · rintro ⟨q, hq, hroot, hout⟩
    refine ⟨?_, fun c hc hcd => hout c hc (hcd.trans hq)⟩
    rcases List.prefix_or_prefix_of_prefix hroot hq with hle | hle
    · exact hle
    · exact absurd hle h
  · intro hd
    exact ⟨d, List.prefix_rfl, hd⟩

end Region

section Granted

variable [LinearOrder V] {rules : List (Rule κ V)} {ok : V → Prop} {p : List κ} {r : Rule κ V}

theorem Decides.granted_iff (h : Decides rules p r) : Granted ok rules p ↔ ok r.value := by
  constructor
  · rintro ⟨r', hr', hok⟩
    rwa [h.unique hr']
  · intro hok
    exact ⟨r, h, hok⟩

/-- A deciding rule is carved out of nothing that it lies above. -/
theorem Decides.not_carved {e : Rule κ V} (h : Decides rules p r)
    (he : Carves ok rules r.path e) : ¬ e.path <+: p := by
  intro happ
  obtain ⟨hmem, _, _, hbelow, hne⟩ := he
  have habove := h.above hmem happ
  exact hne (habove.eq_of_length (le_antisymm habove.length_le hbelow.length_le))

/-- **The regions cover what the rules grant.**  A path is granted exactly when it lies under a
    granted root with a good value and under nothing that is carved out of that root. -/
theorem granted_iff_region :
    Granted ok rules p ↔ ∃ r ∈ rules, ok r.value ∧ Granted ok rules r.path ∧ r.path <+: p ∧
      ∀ e, Carves ok rules r.path e → ¬ e.path <+: p := by
  constructor
  · rintro ⟨r, hr, hok⟩
    exact ⟨r, hr.mem, hok, ⟨r, hr.self, hok⟩, hr.applies, fun e he => hr.not_carved he⟩
  · rintro ⟨r, hmem, hok, hgranted, happ, hcarved⟩
    obtain ⟨w, hw⟩ := exists_decides hmem happ
    by_contra hnot
    have hbad : ¬ ok w.value := fun h => hnot ⟨w, hw, h⟩
    have hbadself : ¬ Granted ok rules w.path := fun h => hbad (hw.self.granted_iff.mp h)
    -- the deciding rule is at or below the root: at it, the root is not granted; below, it is
    -- carved out
    by_cases heq : w.path = r.path
    · exact hbadself (heq ▸ hgranted)
    · exact hcarved w ⟨hw.mem, hbad, hbadself, hw.above hmem happ, heq⟩ hw.applies

end Granted

end PrefixRules

end CodexMonitor
