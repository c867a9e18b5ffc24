import CodexMonitor.ExecPolicy.Policy
import CodexMonitor.Lib.LastWins

namespace CodexMonitor.ExecPolicy

/-!
# Exec policy — the network rules as two lists of domains

`execpolicy/src/policy.rs`, `compiled_network_domains`: the hosts the network rules allow and
those they deny, each host on the side of its last rule that is not a prompt.

* `Policy.compiledNetworkDomains` — the loop of the source.
* `compiledNetworkDomains_reflects` — the loop invariant.
* `compiledNetworkDomains_lastDecision` — membership, disjointness and order.
-/

def upsertDomain (entries : List Text) (host : Text) : List Text :=
  entries.filter (· ≠ host) ++ [host]

/-- The body of the loop, on the allowed and the denied hosts. -/
def compileNetworkRule (domains : List Text × List Text) (rule : NetworkRule) :
    List Text × List Text :=
  match rule.decision with
  | .allow => (upsertDomain domains.1 rule.host, domains.2.filter (· ≠ rule.host))
  | .forbidden => (domains.1.filter (· ≠ rule.host), upsertDomain domains.2 rule.host)
  | .prompt => domains

/-- The allowed and the denied hosts. -/
def Policy.compiledNetworkDomains (policy : Policy) : List Text × List Text :=
  policy.networkRules.foldl compileNetworkRule ([], [])

/-- The decision a rule takes about its host: a prompt takes none. -/
def NetworkRule.side (rule : NetworkRule) : Option Decision :=
  if rule.decision = .prompt then none else some rule.decision

/-- **The loop invariant.** Both lists reflect the rules seen so far. -/
theorem compiledNetworkDomains_reflects (rules : List NetworkRule) :
    Reflects NetworkRule.host NetworkRule.side rules .allow
        (rules.foldl compileNetworkRule ([], [])).1 ∧
      Reflects NetworkRule.host NetworkRule.side rules .forbidden
        (rules.foldl compileNetworkRule ([], [])).2 := by
  induction rules using List.reverseRecOn with
  | nil => exact ⟨reflects_nil, reflects_nil⟩
  | append_singleton rules rule ih =>
    obtain ⟨hallowed, hdenied⟩ := ih
    rw [List.foldl_concat]
    unfold compileNetworkRule
    cases hdecision : rule.decision with
    | allow =>
      have hside : rule.side = some .allow := by
        unfold NetworkRule.side
        rw [hdecision]
        rfl
      exact ⟨hallowed.upsert hside, hdenied.retain hside (by decide)⟩
    | forbidden =>
      have hside : rule.side = some .forbidden := by
        unfold NetworkRule.side
        rw [hdecision]
        rfl
      exact ⟨hallowed.retain hside (by decide), hdenied.upsert hside⟩
    | prompt =>
      have hside : rule.side = none := by
        unfold NetworkRule.side
        rw [hdecision]
        rfl
      exact ⟨hallowed.skip hside, hdenied.skip hside⟩

/-- The rule at position `i` is the last one for the host that is not a prompt, and it decides
    `decision`. -/
def DecidedAt (rules : List NetworkRule) (decision : Decision) (host : Text) (i : Nat) : Prop :=
  (∃ rule, rules[i]? = some rule ∧ rule.host = host ∧ rule.decision = decision) ∧
    ∀ j rule, i < j → rules[j]? = some rule → rule.host = host → rule.decision = .prompt

theorem lastEvent_iff_decidedAt {rules : List NetworkRule} {decision : Decision} {host : Text}
    {i : Nat} (hne : decision ≠ .prompt) :
    LastEvent NetworkRule.host NetworkRule.side rules decision host i ↔
      DecidedAt rules decision host i := by
  have hsome : ∀ rule : NetworkRule, rule.side = some decision ↔ rule.decision = decision := by
    intro rule
    unfold NetworkRule.side
    split
    · next hprompt =>
      rw [hprompt]
      constructor
      · intro h
        cases h
      · intro h
        exact absurd h.symm hne
    · rw [Option.some.injEq]
  have hnone : ∀ rule : NetworkRule, rule.side = none ↔ rule.decision = .prompt := by
    intro rule
    unfold NetworkRule.side
    simp
  unfold LastEvent DecidedAt
  simp only [hsome, hnone]

/-- **The last decision wins.** For every list of rules the two lists of domains are free of
    duplicates and disjoint, a host is allowed when its last rule that is not a prompt allows it
    and denied when that rule forbids it, and both lists are in the order of these rules. -/
theorem compiledNetworkDomains_lastDecision (policy : Policy) :
    policy.compiledNetworkDomains.1.Nodup ∧ policy.compiledNetworkDomains.2.Nodup ∧
      policy.compiledNetworkDomains.1.Disjoint policy.compiledNetworkDomains.2 ∧
      (∀ host, host ∈ policy.compiledNetworkDomains.1 ↔
        ∃ i, DecidedAt policy.networkRules .allow host i) ∧
      (∀ host, host ∈ policy.compiledNetworkDomains.2 ↔
        ∃ i, DecidedAt policy.networkRules .forbidden host i) ∧
      (policy.compiledNetworkDomains.1.Pairwise fun host host' => ∃ i j,
        DecidedAt policy.networkRules .allow host i ∧
          DecidedAt policy.networkRules .allow host' j ∧ i < j) ∧
      policy.compiledNetworkDomains.2.Pairwise fun host host' => ∃ i j,
        DecidedAt policy.networkRules .forbidden host i ∧
          DecidedAt policy.networkRules .forbidden host' j ∧ i < j := by
  obtain ⟨hallowed, hdenied⟩ := compiledNetworkDomains_reflects policy.networkRules
  have hallow : ∀ host i, LastEvent NetworkRule.host NetworkRule.side policy.networkRules .allow
      host i ↔ DecidedAt policy.networkRules .allow host i :=
    fun host i => lastEvent_iff_decidedAt (by decide)
  have hforbid : ∀ host i, LastEvent NetworkRule.host NetworkRule.side policy.networkRules
      .forbidden host i ↔ DecidedAt policy.networkRules .forbidden host i :=
    fun host i => lastEvent_iff_decidedAt (by decide)
  unfold Policy.compiledNetworkDomains
  refine ⟨hallowed.nodup, hdenied.nodup, hallowed.disjoint hdenied (by decide), ?_, ?_, ?_, ?_⟩
  · simpa only [hallow] using hallowed.mem_iff
  · simpa only [hforbid] using hdenied.mem_iff
  · simpa only [hallow] using hallowed.ordered
  · simpa only [hforbid] using hdenied.ordered

/-- A host that is denied, prompted for and allowed in the end comes last. -/
example :
    (Policy.compiledNetworkDomains { Policy.empty with networkRules :=
      [⟨['a'], .https, .forbidden, none⟩, ⟨['b'], .https, .allow, none⟩,
        ⟨['a'], .https, .prompt, none⟩, ⟨['a'], .https, .allow, none⟩] }) =
      ([['b'], ['a']], []) := by
  decide

end CodexMonitor.ExecPolicy
