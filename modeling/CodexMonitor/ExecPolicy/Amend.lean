import CodexMonitor.ExecPolicy.NetworkHosts

namespace CodexMonitor.ExecPolicy

open Text

/-!
# Exec policy — rules the user accepts

`execpolicy/src/amend.rs` and `core/src/exec_policy.rs`: an accepted rule is appended to
`default.rules` as a line, and added to the policy in memory.

* `allowPrefixRuleLine`, `networkRuleLine`, `appendRuleLine` — what is written.
* `Policy.addPrefixRule`, `Policy.addNetworkRule` — what is added in memory.
* `appendAmendmentAndUpdate`, `appendNetworkRuleAndUpdate` — both, under the update lock.
* `savedRule_reloads_iff` — when a saved network rule is read back as it is in memory.

A failure of the file system ends a call before the policy changes; here the file is written.  The
JSON writer of strings is a parameter.
-/

/-! ### The file -/

inductive AmendError where
  | emptyPrefix
  | invalidNetworkRule (message : Text)
  deriving DecidableEq, Repr

inductive ExecPolicyUpdateError where
  | appendRule (source : AmendError)
  | addRule (source : Error)
  deriving DecidableEq, Repr

/-- `append_locked_line`: a line that is there already is not written again. -/
def appendRuleLine (contents line : Text) : Text :=
  if contents.lines.contains line then contents
  else
    let ended :=
      if !contents.isEmpty && !contents.endsWith ['\n'] then contents ++ ['\n'] else contents
    ended ++ line ++ ['\n']

def allowPrefixRuleLine (json : Text → Text) (rulePrefix : List Text) : Text :=
  "prefix_rule(pattern=[".toList ++ joinWith ", ".toList (rulePrefix.map json) ++
    "], decision=\"allow\")".toList

/-- The line `blocking_append_allow_prefix_rule` appends. -/
def blockingAppendAllowPrefixRule (json : Text → Text) (rulePrefix : List Text) :
    Except AmendError Text :=
  if rulePrefix.isEmpty then .error .emptyPrefix else .ok (allowPrefixRuleLine json rulePrefix)

def NetworkRuleProtocol.asPolicyString : NetworkRuleProtocol → Text
  | .http => "http".toList
  | .https => "https".toList
  | .socks5Tcp => "socks5_tcp".toList
  | .socks5Udp => "socks5_udp".toList

/-- The decision of a network rule, as it is written. -/
def Decision.asNetworkRuleString : Decision → Text
  | .allow => "allow".toList
  | .prompt => "prompt".toList
  | .forbidden => "deny".toList

def networkRuleLine (json : Text → Text) (host : Text) (protocol : NetworkRuleProtocol)
    (decision : Decision) (justification : Option Text) : Text :=
  let args := ["host=".toList ++ json host, "protocol=".toList ++ json protocol.asPolicyString,
    "decision=".toList ++ json decision.asNetworkRuleString] ++
      (justification.map fun raw => "justification=".toList ++ json raw).toList
  "network_rule(".toList ++ joinWith ", ".toList args ++ ")".toList

/-- The message of an error of the host check. -/
def Error.invalidRuleMessage : Error → Text
  | .invalidRule message => "invalid rule: ".toList ++ message
  | _ => []

/-- The line `blocking_append_network_rule` appends. -/
def blockingAppendNetworkRule (json : Text → Text) (host : Text)
    (protocol : NetworkRuleProtocol) (decision : Decision) (justification : Option Text) :
    Except AmendError Text :=
  match normalizeNetworkRuleHost host with
  | .error err => .error (.invalidNetworkRule err.invalidRuleMessage)
  | .ok host =>
      if justification.any fun raw => raw.trim.isEmpty then
        .error (.invalidNetworkRule "justification cannot be empty".toList)
      else .ok (networkRuleLine json host protocol decision justification)

/-! ### The policy in memory -/

/-- The rule `add_prefix_rule` adds. -/
def singlePrefixRule (first : Text) (rest : List Text) (decision : Decision) : PrefixRule :=
  { pattern := { first := first, rest := rest.map .single }, decision := decision,
    justification := none }

def Policy.addPrefixRule (policy : Policy) (rulePrefix : List Text) (decision : Decision) :
    Except Error Policy :=
  match rulePrefix with
  | [] => .error (.invalidPattern "prefix cannot be empty".toList)
  | first :: rest => .ok (policy.addRules [singlePrefixRule first rest decision])

def Policy.addNetworkRule (policy : Policy) (host : Text) (protocol : NetworkRuleProtocol)
    (decision : Decision) (justification : Option Text) : Except Error Policy :=
  match normalizeNetworkRuleHost host with
  | .error err => .error err
  | .ok host =>
      if justification.any fun raw => raw.trim.isEmpty then
        .error (.invalidRule "justification cannot be empty".toList)
      else
        .ok { policy with
          networkRules := policy.networkRules ++ [⟨host, protocol, decision, justification⟩] }

/-- What an update changes: the policy in memory and the contents of `default.rules`. -/
structure ManagedRules where
  policy : Policy
  defaultRules : Text

/-- A match with a rule of the policy. -/
def isPolicyMatch : RuleMatch → Bool
  | .prefixRuleMatch .. => true
  | .heuristicsRuleMatch .. => false

/-- `check_multiple_with_options(..).matched_rules`. -/
def Policy.matchesForCommands (policy : Policy) (env : Env) (commands : List (List Text))
    (heuristicsFallback : List Text → Decision) (options : MatchOptions) : List RuleMatch :=
  commands.flatMap fun command =>
    policy.matchesForCommandWithOptions env command (some heuristicsFallback) options

/-- Whether the policy allows the prefix of an amendment by a rule of its own. -/
def Policy.alreadyAllowed (policy : Policy) (env : Env) (command : List Text) : Bool :=
  let matched := policy.matchesForCommands env [command] (fun _ => .forbidden) ⟨true⟩
  decide (strictest matched = some .allow) &&
    matched.any fun ruleMatch => isPolicyMatch ruleMatch && decide (ruleMatch.decision = .allow)

/-- `append_amendment_and_update`. -/
def appendAmendmentAndUpdate (env : Env) (json : Text → Text) (rules : ManagedRules)
    (command : List Text) : Except ExecPolicyUpdateError ManagedRules :=
  match blockingAppendAllowPrefixRule json command with
  | .error source => .error (.appendRule source)
  | .ok line =>
      let defaultRules := appendRuleLine rules.defaultRules line
      if rules.policy.alreadyAllowed env command then .ok { rules with defaultRules }
      else
        match rules.policy.addPrefixRule command .allow with
        | .error source => .error (.addRule source)
        | .ok policy => .ok { policy, defaultRules }

/-- `append_network_rule_and_update`. -/
def appendNetworkRuleAndUpdate (json : Text → Text) (rules : ManagedRules) (host : Text)
    (protocol : NetworkRuleProtocol) (decision : Decision) (justification : Option Text) :
    Except ExecPolicyUpdateError ManagedRules :=
  match blockingAppendNetworkRule json host protocol decision justification with
  | .error source => .error (.appendRule source)
  | .ok line =>
      match rules.policy.addNetworkRule host protocol decision justification with
      | .error source => .error (.addRule source)
      | .ok policy => .ok { policy, defaultRules := appendRuleLine rules.defaultRules line }

/-! ### A network rule that is saved -/

variable {env : Env} {sl : Starlark} {json : Text → Text} {rules rules' : ManagedRules}
  {raw host : Text} {protocol : NetworkRuleProtocol} {decision : Decision}
  {justification : Option Text}

theorem parse_asPolicyString (protocol : NetworkRuleProtocol) :
    NetworkRuleProtocol.parse protocol.asPolicyString = .ok protocol := by
  cases protocol <;> rfl

theorem parse_asNetworkRuleString (decision : Decision) :
    parseNetworkRuleDecision decision.asNetworkRuleString = .ok decision := by
  cases decision <;> rfl

/-- What a call that succeeds did: the line has the normalized host, and so has the rule. -/
theorem appendNetworkRuleAndUpdate_spec (hhost : normalizeNetworkRuleHost raw = .ok host)
    (h : appendNetworkRuleAndUpdate json rules raw protocol decision justification =
      .ok rules') :
    parseJustification justification = .ok justification ∧
      rules'.policy.networkRules =
        rules.policy.networkRules ++ [⟨host, protocol, decision, justification⟩] ∧
      rules'.defaultRules = appendRuleLine rules.defaultRules
        (networkRuleLine json host protocol decision justification) := by
  unfold appendNetworkRuleAndUpdate blockingAppendNetworkRule Policy.addNetworkRule at h
  simp only [hhost] at h
  by_cases hblank : (justification.any fun raw => raw.trim.isEmpty) = true
  · simp only [if_pos hblank] at h
    cases h
  · simp only [if_neg hblank] at h
    obtain rfl := Except.ok.inj h
    refine ⟨?_, rfl, rfl⟩
    cases justification with
    | none => rfl
    | some raw =>
      unfold parseJustification
      exact if_neg hblank

/-- The rules that are read from a line with one network rule. -/
theorem parsePolicyFile_networkRule (env : Env) {contents : Text}
    (hread : sl.evalModule contents = .ok [.networkRule host protocol.asPolicyString
      decision.asNetworkRuleString justification])
    (hjustification : parseJustification justification = .ok justification) :
    (parsePolicyFile env sl .empty contents).map Policy.networkRules =
      (normalizeNetworkRuleHost host).map fun host =>
        [⟨host, protocol, decision, justification⟩] := by
  have hcall : evalCall env sl { policy := .empty, pending := [] } (.networkRule host
      protocol.asPolicyString decision.asNetworkRuleString justification) =
        (normalizeNetworkRuleHost host).map fun host =>
          { policy := { Policy.empty with
              networkRules := [⟨host, protocol, decision, justification⟩] }
            pending := [] } := by
    unfold evalCall
    simp only [parse_asPolicyString, parse_asNetworkRuleString, hjustification]
    cases normalizeNetworkRuleHost host with
    | error err => rfl
    | ok host => rfl
  unfold parsePolicyFile
  simp only [hread, List.foldlM_cons, List.foldlM_nil, hcall]
  cases normalizeNetworkRuleHost host with
  | error err => rfl
  | ok host => rfl

/-- The saved rule and the rule read back from its line are one. -/
def ReadBack (env : Env) (sl : Starlark) (rules rules' : ManagedRules) (line : Text) : Prop :=
  ∃ rule policy, rules'.policy.networkRules = rules.policy.networkRules ++ [rule] ∧
    parsePolicyFile env sl .empty line = .ok policy ∧ policy.networkRules = [rule]

/-- **A saved network rule reloads unchanged** exactly when its host was settled: normalizing the
    normalized host succeeds and changes nothing, and the rule read back from the line that was
    appended is the one added in memory. -/
theorem savedRule_reloads_iff (hhost : normalizeNetworkRuleHost raw = .ok host) :
    (normalizeNetworkRuleHost host = .ok host ↔ Settled raw) ∧
      ∀ (env : Env) (sl : Starlark) (json : Text → Text) (rules rules' : ManagedRules)
        (protocol : NetworkRuleProtocol) (decision : Decision) (justification : Option Text),
        appendNetworkRuleAndUpdate json rules raw protocol decision justification = .ok rules' →
        sl.evalModule (networkRuleLine json host protocol decision justification) =
          .ok [.networkRule host protocol.asPolicyString decision.asNetworkRuleString
            justification] →
        (ReadBack env sl rules rules' (networkRuleLine json host protocol decision justification) ↔
          Settled raw) := by
  have hsettled : normalizeNetworkRuleHost host = .ok host ↔ Settled raw := by
    rw [settled_iff hhost, normalize_again_iff hhost]
  refine ⟨hsettled, ?_⟩
  intro env sl json rules rules' protocol decision justification hsaved hread
  obtain ⟨hjustification, hmemory, -⟩ := appendNetworkRuleAndUpdate_spec hhost hsaved
  have hparsed := parsePolicyFile_networkRule env hread hjustification
  rw [← hsettled]
  constructor
  · rintro ⟨rule, policy, hrule, hpolicy, hrules⟩
    rw [hmemory] at hrule
    obtain ⟨-, hsame⟩ := List.append_inj' hrule rfl
    rw [hpolicy] at hparsed
    cases hagain : normalizeNetworkRuleHost host with
    | error err =>
      rw [hagain] at hparsed
      cases hparsed
    | ok again =>
      rw [hagain] at hparsed
      have hread : policy.networkRules = [⟨again, protocol, decision, justification⟩] :=
        Except.ok.inj hparsed
      rw [hrules, ← hsame] at hread
      rw [(NetworkRule.mk.inj (List.cons.inj hread).1).1]
  · intro hagain
    rw [hagain] at hparsed
    refine ⟨⟨host, protocol, decision, justification⟩, ?_⟩
    cases hpolicy : parsePolicyFile env sl .empty
        (networkRuleLine json host protocol decision justification) with
    | error err =>
      rw [hpolicy] at hparsed
      cases hparsed
    | ok policy =>
      rw [hpolicy] at hparsed
      exact ⟨policy, hmemory, rfl, Except.ok.inj hparsed⟩

/-- A host with a port, saved into an empty file. -/
theorem savedRule_reloads_port :
    ReadBack ⟨none, none⟩
      ⟨fun _ => .ok [.networkRule "example.com".toList "https".toList "allow".toList none],
        fun _ => none⟩
      ⟨.empty, []⟩ ⟨{ Policy.empty with
        networkRules := [⟨"example.com".toList, .https, .allow, none⟩] },
        appendRuleLine [] (networkRuleLine (fun t => '"' :: t ++ ['"']) "example.com".toList .https
          .allow none)⟩
      (networkRuleLine (fun t => '"' :: t ++ ['"']) "example.com".toList .https .allow none) := by
  have hhost : normalizeNetworkRuleHost "Example.com:443".toList = .ok "example.com".toList := by
    decide +kernel
  obtain ⟨hsettled, hreload⟩ := savedRule_reloads_iff hhost
  have hsaved : appendNetworkRuleAndUpdate (fun t => '"' :: t ++ ['"']) ⟨.empty, []⟩
      "Example.com:443".toList .https .allow none = .ok ⟨{ Policy.empty with
        networkRules := [⟨"example.com".toList, .https, .allow, none⟩] },
        appendRuleLine [] (networkRuleLine (fun t => '"' :: t ++ ['"']) "example.com".toList .https
          .allow none)⟩ := by
    unfold appendNetworkRuleAndUpdate blockingAppendNetworkRule Policy.addNetworkRule
    rw [hhost]
    rfl
  exact (hreload _ _ _ _ _ _ _ _ hsaved rfl).mpr (hsettled.mp (by decide +kernel))

/-- A name with a port inside brackets is taken for a host, and its port is cut off when the host
    is read back. -/
theorem bracketedPort_changes :
    normalizeNetworkRuleHost "[localhost:8080]".toList = .ok "localhost:8080".toList ∧
      normalizeNetworkRuleHost "localhost:8080".toList = .ok "localhost".toList := by
  decide +kernel

end CodexMonitor.ExecPolicy
