import CodexMonitor.ExecPolicy.Overlay

namespace CodexMonitor.ExecPolicy

/-!
# Exec policy — the two stages of matching

A command is matched by the rules of its literal first word and, if none of these matches, by the
rules of the base name of the program that the word is resolved to.

* `ExactMatch`, `BasenameMatch` — the stages, as relations.
* `matchedRules_eq_nil_iff` — when no rule matches.
* `mem_matchedRules_iff` — which rule a match comes from.
* `isSome_matches_append` — a rule matches the longer commands.
-/

variable {policy : Policy} {env : Env} {cmd : List Text} {rule : PrefixRule}

/-! ### Rules that match -/

/-- A rule for the literal first word matches. -/
def ExactMatch (policy : Policy) (cmd : List Text) : Prop :=
  ∃ first args, cmd = first :: args ∧ ∃ rule ∈ policy.rulesFor first, (rule.matches cmd).isSome

/-- A rule for the base name of the program matches, and the program may use it. -/
def BasenameMatch (policy : Policy) (env : Env) (cmd : List Text) : Prop :=
  ∃ program basename, resolvedProgram? env cmd = some (program, basename) ∧
    policy.admitsHostExecutable program basename = true ∧
      ∃ rule ∈ policy.rulesFor basename, (rule.matches (basename :: cmd.tail)).isSome

theorem filterMap_ne_nil_iff {α β : Type} {f : α → Option β} {l : List α} :
    l.filterMap f ≠ [] ↔ ∃ a ∈ l, (f a).isSome := by
  rw [Ne, List.filterMap_eq_nil_iff]
  simp only [not_forall, ← Option.isSome_iff_ne_none, exists_prop]

theorem matchExactRules_ne_nil_iff : policy.matchExactRules cmd ≠ [] ↔ ExactMatch policy cmd := by
  cases cmd with
  | nil =>
    constructor
    · intro h
      exact absurd rfl h
    · rintro ⟨_, _, h, -⟩
      cases h
  | cons first args =>
    unfold Policy.matchExactRules
    rw [filterMap_ne_nil_iff]
    constructor
    · exact fun h => ⟨first, args, rfl, h⟩
    · rintro ⟨_, _, heq, h⟩
      obtain ⟨rfl, -⟩ := List.cons.inj heq
      exact h

theorem matchHostExecutableRules_ne_nil_iff :
    policy.matchHostExecutableRules env cmd ≠ [] ↔ BasenameMatch policy env cmd := by
  unfold Policy.matchHostExecutableRules BasenameMatch
  cases hprogram : resolvedProgram? env cmd with
  | none => simp
  | some found =>
    obtain ⟨program, basename⟩ := found
    by_cases hadmits : policy.admitsHostExecutable program basename = true
    · simp only [if_pos hadmits, Ne, List.map_eq_nil_iff]
      rw [← Ne, filterMap_ne_nil_iff]
      constructor
      · exact fun h => ⟨program, basename, rfl, hadmits, h⟩
      · rintro ⟨_, _, heq, -, h⟩
        obtain ⟨rfl, rfl⟩ := Prod.mk.inj (Option.some.inj heq)
        exact h
    · simp only [if_neg hadmits]
      constructor
      · intro h
        exact absurd rfl h
      · rintro ⟨_, _, heq, hcontra, -⟩
        obtain ⟨rfl, rfl⟩ := Prod.mk.inj (Option.some.inj heq)
        exact absurd hcontra hadmits

/-- **No rule matches** in either stage. -/
theorem matchedRules_eq_nil_iff : policy.matchedRules env cmd resolving = [] ↔
    ¬ ExactMatch policy cmd ∧ ¬ BasenameMatch policy env cmd := by
  rw [← matchExactRules_ne_nil_iff, ← matchHostExecutableRules_ne_nil_iff, not_not, not_not]
  by_cases hexact : policy.matchExactRules cmd = []
  · rw [matchedRules_of_not_exact hexact]
    exact (and_iff_right hexact).symm
  · rw [matchedRules_of_exact hexact]
    exact ⟨fun h => absurd h hexact, fun h => absurd h.1 hexact⟩

/-! ### The rule of a match -/

/-- The match comes from the rule: at the literal first word or, if no rule matches there, at the
    base name of the program. -/
def Policy.Yields (policy : Policy) (env : Env) (cmd : List Text) (rule : PrefixRule)
    (ruleMatch : RuleMatch) : Prop :=
  (∃ first args, cmd = first :: args ∧ rule ∈ policy.rulesFor first ∧
    rule.matches cmd = some ruleMatch) ∨
  (¬ ExactMatch policy cmd ∧ ∃ program basename found,
    resolvedProgram? env cmd = some (program, basename) ∧
      policy.admitsHostExecutable program basename = true ∧ rule ∈ policy.rulesFor basename ∧
        rule.matches (basename :: cmd.tail) = some found ∧
          found.withResolvedProgram program = ruleMatch)

theorem mem_matchExactRules_iff {ruleMatch : RuleMatch} :
    ruleMatch ∈ policy.matchExactRules cmd ↔ ∃ rule first args, cmd = first :: args ∧
      rule ∈ policy.rulesFor first ∧ rule.matches cmd = some ruleMatch := by
  cases cmd with
  | nil => simp [Policy.matchExactRules]
  | cons first args =>
    unfold Policy.matchExactRules
    rw [List.mem_filterMap]
    constructor
    · rintro ⟨rule, hrule, hmatch⟩
      exact ⟨rule, first, args, rfl, hrule, hmatch⟩
    · rintro ⟨rule, _, _, heq, hrule, hmatch⟩
      obtain ⟨rfl, rfl⟩ := List.cons.inj heq
      exact ⟨rule, hrule, hmatch⟩

theorem mem_matchHostExecutableRules_iff {ruleMatch : RuleMatch} :
    ruleMatch ∈ policy.matchHostExecutableRules env cmd ↔ ∃ rule program basename found,
      resolvedProgram? env cmd = some (program, basename) ∧
        policy.admitsHostExecutable program basename = true ∧ rule ∈ policy.rulesFor basename ∧
          rule.matches (basename :: cmd.tail) = some found ∧
            found.withResolvedProgram program = ruleMatch := by
  unfold Policy.matchHostExecutableRules
  cases hprogram : resolvedProgram? env cmd with
  | none => simp
  | some found =>
    obtain ⟨program, basename⟩ := found
    by_cases hadmits : policy.admitsHostExecutable program basename = true
    · simp only [if_pos hadmits, List.mem_map, List.mem_filterMap]
      constructor
      · rintro ⟨found, ⟨rule, hrule, hmatch⟩, heq⟩
        exact ⟨rule, program, basename, found, rfl, hadmits, hrule, hmatch, heq⟩
      · rintro ⟨rule, _, _, found, heq, -, hrule, hmatch, hresolved⟩
        obtain ⟨rfl, rfl⟩ := Prod.mk.inj (Option.some.inj heq)
        exact ⟨found, ⟨rule, hrule, hmatch⟩, hresolved⟩
    · simp only [if_neg hadmits]
      constructor
      · intro h
        cases h
      · rintro ⟨_, _, _, _, heq, hcontra, -⟩
        obtain ⟨rfl, rfl⟩ := Prod.mk.inj (Option.some.inj heq)
        exact absurd hcontra hadmits

/-- **Every match comes from a rule**, and every rule's match is there. -/
theorem mem_matchedRules_iff {ruleMatch : RuleMatch} :
    ruleMatch ∈ policy.matchedRules env cmd resolving ↔
      ∃ rule, policy.Yields env cmd rule ruleMatch := by
  by_cases hexact : ExactMatch policy cmd
  · rw [matchedRules_of_exact (matchExactRules_ne_nil_iff.mpr hexact), mem_matchExactRules_iff]
    refine exists_congr fun rule => ?_
    constructor
    · exact .inl
    · rintro (h | ⟨hnot, -⟩)
      · exact h
      · exact absurd hexact hnot
  · have hnil : policy.matchExactRules cmd = [] := by
      by_contra hne
      exact hexact (matchExactRules_ne_nil_iff.mp hne)
    rw [matchedRules_of_not_exact hnil, mem_matchHostExecutableRules_iff]
    refine exists_congr fun rule => ?_
    constructor
    · exact fun h => .inr ⟨hexact, h⟩
    · rintro (⟨first, args, hcmd, hrule, hmatch⟩ | ⟨-, h⟩)
      · refine absurd ⟨first, args, hcmd, rule, hrule, ?_⟩ hexact
        rw [hmatch]
        rfl
      · exact h

/-- A rule of the policy matches the command: one of the matches comes from it. -/
def Policy.MatchedBy (policy : Policy) (env : Env) (cmd : List Text) (rule : PrefixRule) : Prop :=
  ∃ ruleMatch ∈ policy.matchesForCommandWithOptions env cmd none resolving,
    policy.Yields env cmd rule ruleMatch

theorem matchesForCommand_none :
    policy.matchesForCommandWithOptions env cmd none resolving =
      policy.matchedRules env cmd resolving := by
  unfold Policy.matchesForCommandWithOptions
  cases policy.matchedRules env cmd resolving with
  | nil => rfl
  | cons m ms => rfl

theorem matchedBy_iff : policy.MatchedBy env cmd rule ↔
    (∃ first args, cmd = first :: args ∧ rule ∈ policy.rulesFor first ∧
      (rule.matches cmd).isSome) ∨
    (¬ ExactMatch policy cmd ∧ ∃ program basename,
      resolvedProgram? env cmd = some (program, basename) ∧
        policy.admitsHostExecutable program basename = true ∧ rule ∈ policy.rulesFor basename ∧
          (rule.matches (basename :: cmd.tail)).isSome) := by
  unfold Policy.MatchedBy
  rw [matchesForCommand_none]
  constructor
  · rintro ⟨ruleMatch, -, hyields⟩
    rcases hyields with ⟨first, args, hcmd, hrule, hmatch⟩ |
      ⟨hexact, program, basename, found, hprogram, hadmits, hrule, hmatch, -⟩
    · exact .inl ⟨first, args, hcmd, hrule, Option.isSome_of_mem hmatch⟩
    · exact .inr ⟨hexact, program, basename, hprogram, hadmits, hrule, Option.isSome_of_mem hmatch⟩
  · rintro (⟨first, args, hcmd, hrule, hmatch⟩ |
      ⟨hexact, program, basename, hprogram, hadmits, hrule, hmatch⟩)
    · obtain ⟨ruleMatch, hmatch⟩ := Option.isSome_iff_exists.mp hmatch
      have hyields : policy.Yields env cmd rule ruleMatch := .inl ⟨first, args, hcmd, hrule, hmatch⟩
      exact ⟨ruleMatch, mem_matchedRules_iff.mpr ⟨rule, hyields⟩, hyields⟩
    · obtain ⟨found, hmatch⟩ := Option.isSome_iff_exists.mp hmatch
      have hyields : policy.Yields env cmd rule (found.withResolvedProgram program) :=
        .inr ⟨hexact, program, basename, found, hprogram, hadmits, hrule, hmatch, rfl⟩
      exact ⟨_, mem_matchedRules_iff.mpr ⟨rule, hyields⟩, hyields⟩

/-! ### Rules and longer commands -/

theorem tokensMatch_append {pattern : List PatternToken} {tokens : List Text}
    (h : tokensMatch pattern tokens = true) (more : List Text) :
    tokensMatch pattern (tokens ++ more) = true := by
  induction pattern generalizing tokens with
  | nil => rfl
  | cons p pattern ih =>
    cases tokens with
    | nil => cases h
    | cons t tokens =>
      unfold tokensMatch at h ⊢
      rw [Bool.and_eq_true] at h
      rw [List.cons_append, Bool.and_eq_true]
      exact ⟨h.1, ih h.2⟩

theorem isSome_matches_iff {first : Text} {args : List Text} :
    (rule.matches (first :: args)).isSome ↔
      first = rule.pattern.first ∧ tokensMatch rule.pattern.rest args = true := by
  simp only [PrefixRule.matches, PrefixPattern.matchesPrefix, Option.isSome_map]
  split
  · next h => exact iff_of_true rfl h
  · next h => exact iff_of_false Bool.false_ne_true h

/-- A rule that matches a command matches the commands that begin with it. -/
theorem isSome_matches_append {first : Text} {args : List Text}
    (h : (rule.matches (first :: args)).isSome) (more : List Text) :
    (rule.matches (first :: (args ++ more))).isSome := by
  rw [isSome_matches_iff] at h ⊢
  exact ⟨h.1, tokensMatch_append h.2 more⟩

end CodexMonitor.ExecPolicy
