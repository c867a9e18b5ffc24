import CodexMonitor.ExecPolicy.Approval
import CodexMonitor.ExecPolicy.Matching

namespace CodexMonitor.ExecPolicy

/-!
# Exec policy — when an accepted amendment lets the command through

The amendment a request asks for is proposed if the policy with its rule would allow every command
of the request.  When it is accepted, the rule is left out if the policy allows the amendment
itself already.

* `alreadyAllowed_iff` — for an amendment that is proposed: its first word is resolved to a program
  of another name, as `~` is to the home directory.
* `amendment_unblocks_iff` — otherwise, and only then, the command goes through.
-/

variable {policy : Policy} {env : Env} {cmd : List Text} {rule : PrefixRule}

/-! ### Rules that match -/

/-- Rules of the policy are policy matches. -/
theorem isPolicyMatch_of_mem {ruleMatch : RuleMatch}
    (h : ruleMatch ∈ policy.matchedRules env cmd resolving) : isPolicyMatch ruleMatch = true := by
  have hmatches : ∀ {rule : PrefixRule} {cmd : List Text} {ruleMatch : RuleMatch},
      rule.matches cmd = some ruleMatch → isPolicyMatch ruleMatch = true := by
    intro rule cmd ruleMatch hrule
    unfold PrefixRule.matches at hrule
    obtain ⟨matchedPrefix, -, rfl⟩ := Option.map_eq_some_iff.mp hrule
    rfl
  by_cases hexact : policy.matchExactRules cmd = []
  · rw [matchedRules_of_not_exact hexact] at h
    unfold Policy.matchHostExecutableRules at h
    split at h
    · cases h
    · split at h
      · obtain ⟨found, hfound, rfl⟩ := List.mem_map.mp h
        obtain ⟨rule, -, hrule⟩ := List.mem_filterMap.mp hfound
        unfold PrefixRule.matches at hrule
        obtain ⟨matchedPrefix, -, rfl⟩ := Option.map_eq_some_iff.mp hrule
        rfl
      · cases h
  · rw [matchedRules_of_exact hexact] at h
    unfold Policy.matchExactRules at h
    split at h
    · cases h
    · obtain ⟨rule, -, hrule⟩ := List.mem_filterMap.mp h
      exact hmatches hrule

theorem tokensMatch_single {tokens args : List Text} :
    tokensMatch (tokens.map .single) args = true ↔ tokens <+: args := by
  induction tokens generalizing args with
  | nil => simp [tokensMatch]
  | cons token tokens ih =>
    cases args with
    | nil => simp [tokensMatch]
    | cons arg args =>
      rw [List.map_cons, tokensMatch, Bool.and_eq_true, ih, List.cons_prefix_cons]
      exact and_congr_left fun _ => beq_iff_eq

/-- The rule of an amendment matches the commands that begin with it. -/
theorem isSome_matches_single {first : Text} {rest : List Text} {decision : Decision}
    {cmd : List Text} :
    ((singlePrefixRule first rest decision).matches cmd).isSome ↔ first :: rest <+: cmd := by
  cases cmd with
  | nil => simp [PrefixRule.matches, PrefixPattern.matchesPrefix]
  | cons head args =>
    rw [isSome_matches_iff, List.cons_prefix_cons]
    show head = first ∧ tokensMatch (rest.map .single) args = true ↔ _
    rw [tokensMatch_single, eq_comm]

/-- Adding a rule. -/
theorem rulesFor_addRules (program : Text) : (policy.addRules [rule]).rulesFor program =
    policy.rulesFor program ++ if rule.pattern.first = program then [rule] else [] := by
  unfold Policy.rulesFor Policy.addRules
  rw [List.map_singleton, List.filter_append, List.map_append]
  by_cases h : rule.pattern.first = program
  · simp [h]
  · simp [h]

/-! ### A proposed amendment -/

variable {reading : CommandReading} {req : ExecApprovalRequest} {first : Text} {rest : List Text}
  {fallback : List Text → Decision}

theorem strictest_eq_allow_iff {ms : List RuleMatch} :
    strictest ms = some .allow ↔ ms ≠ [] ∧ ∀ m ∈ ms, m.decision = .allow := by
  have hleast : ∀ d : Decision, d ≤ .allow → d = .allow := by
    intro d h
    cases d with
    | allow => rfl
    | prompt => exact absurd h (by decide)
    | forbidden => exact absurd h (by decide)
  constructor
  · intro h
    refine ⟨?_, ?_⟩
    · rintro rfl
      cases h
    · intro m hm
      exact hleast _ (decision_le_strictest h hm)
  · rintro ⟨hne, hall⟩
    obtain ⟨d, hd⟩ := strictest_isSome hne
    obtain ⟨m, hm, rfl⟩ := strictest_mem hd
    rw [hd, hall m hm]

/-- The matches of a command are never empty: the fallback speaks where no rule does. -/
theorem matchesForCommand_ne_nil (policy : Policy) (env : Env) (cmd : List Text)
    (fallback : List Text → Decision) :
    policy.matchesForCommandWithOptions env cmd (some fallback) resolving ≠ [] := by
  unfold Policy.matchesForCommandWithOptions
  cases hmatched : policy.matchedRules env cmd resolving with
  | nil => exact List.cons_ne_nil _ _
  | cons m ms => exact List.cons_ne_nil _ _

theorem matchesForCommand_of_unmatched (h : policy.matchedRules env cmd resolving = []) :
    policy.matchesForCommandWithOptions env cmd (some fallback) resolving =
      [.heuristicsRuleMatch cmd (fallback cmd)] := by
  simp only [Policy.matchesForCommandWithOptions, h]

theorem matchesForCommand_of_matched (h : policy.matchedRules env cmd resolving ≠ []) :
    policy.matchesForCommandWithOptions env cmd (some fallback) resolving =
      policy.matchedRules env cmd resolving := by
  obtain ⟨m, ms, hms⟩ := List.exists_cons_of_ne_nil h
  simp only [Policy.matchesForCommandWithOptions, hms]

theorem commands_ne_nil (reading : CommandReading) (command : List Text) :
    (commandsForExecPolicy reading command).1 ≠ [] := by
  unfold commandsForExecPolicy
  split
  · exact List.cons_ne_nil _ _
  · split
    · exact List.cons_ne_nil _ _
    · exact List.cons_ne_nil _ _

/-- **What a proposal says**: no rule of the policy matches a command, and with the rule of the
    amendment every command would be allowed. -/
theorem requestedAmendment_spec {amendment : List Text}
    (h : requestedAmendment policy env reading req = some amendment) :
    req.prefixRule = some amendment ∧
      (∀ command ∈ (judge policy env reading req).commands,
        policy.matchedRules env command resolving = []) ∧
      ∃ first rest, amendment = first :: rest ∧
        ∀ command ∈ (judge policy env reading req).commands,
          (policy.addRules [singlePrefixRule first rest .allow]).checkWithOptions env command
            (judge policy env reading req).fallback resolving = some .allow := by
  unfold requestedAmendment deriveRequestedAmendment at h
  cases hrule : req.prefixRule with
  | none =>
    rw [hrule] at h
    cases h
  | some prefixRule =>
    rw [hrule] at h
    simp only at h
    split at h
    · cases h
    · split at h
      · cases h
      · split at h
        · cases h
        · next hnone =>
          split at h
          · next happroves =>
            obtain rfl := Option.some.inj h
            refine ⟨rfl, ?_, ?_⟩
            · intro command hcommand
              by_contra hmatched
              obtain ⟨m, ms, hms⟩ := List.exists_cons_of_ne_nil hmatched
              have hmem : m ∈ policy.matchedRules env command resolving := by
                rw [hms]
                exact List.mem_cons_self
              refine hnone (List.any_eq_true.mpr ⟨m, ?_, isPolicyMatch_of_mem hmem⟩)
              refine List.mem_flatMap.mpr ⟨command, hcommand, ?_⟩
              rw [matchesForCommand_of_matched hmatched]
              exact hmem
            · unfold prefixRuleWouldApproveAllCommands at happroves
              cases prefixRule with
              | nil => cases happroves
              | cons first rest =>
                refine ⟨first, rest, rfl, ?_⟩
                intro command hcommand
                simp only [Policy.addPrefixRule] at happroves
                exact of_decide_eq_true (List.all_eq_true.mp happroves command hcommand)
          · cases h

/-- **No rule for the first word matches the amendment**: it would match the command that the
    amendment is proposed for. -/
theorem not_exactMatch_amendment (hnone : policy.matchedRules env cmd resolving = [])
    (hprompt : fallback cmd = .prompt)
    (hallowed : (policy.addRules [singlePrefixRule first rest .allow]).checkWithOptions env cmd
      fallback resolving = some .allow) : ¬ ExactMatch policy (first :: rest) := by
  obtain ⟨hexact, hbasename⟩ := matchedRules_eq_nil_iff.mp hnone
  rintro ⟨_, _, heq, rule, hrule, hmatches⟩
  obtain ⟨rfl, rfl⟩ := List.cons.inj heq
  have hlonger : ∀ {longer : List Text}, first :: rest <+: longer →
      ∃ args, longer = first :: args ∧ (rule.matches longer).isSome := by
    rintro longer ⟨more, rfl⟩
    exact ⟨rest ++ more, rfl, isSome_matches_append hmatches more⟩
  have hmatched :
      (policy.addRules [singlePrefixRule first rest .allow]).matchedRules env cmd resolving ≠ [] := by
    intro hnil
    rw [checkWithOptions_of_unmatched hnil, hprompt] at hallowed
    cases hallowed
  rw [Ne, matchedRules_eq_nil_iff, not_and_or, not_not, not_not] at hmatched
  rcases hmatched with ⟨head, args, rfl, rule', hrule', hmatches'⟩ |
    ⟨program, basename, hprogram, hadmits, rule', hrule', hmatches'⟩
  · rw [rulesFor_addRules, List.mem_append] at hrule'
    rcases hrule' with hold | hnew
    · exact hexact ⟨head, args, rfl, rule', hold, hmatches'⟩
    · split at hnew
      · next hfirst =>
        obtain rfl := List.mem_singleton.mp hnew
        obtain ⟨args', hcmd, hlong⟩ := hlonger (isSome_matches_single.mp hmatches')
        exact hexact ⟨first, args', hcmd, rule, hrule, hlong⟩
      · cases hnew
  · rw [rulesFor_addRules, List.mem_append] at hrule'
    rcases hrule' with hold | hnew
    · exact hbasename ⟨program, basename, hprogram, hadmits, rule', hold, hmatches'⟩
    · split at hnew
      · next hfirst =>
        obtain rfl := List.mem_singleton.mp hnew
        obtain ⟨args', hcmd, hlong⟩ := hlonger (isSome_matches_single.mp hmatches')
        obtain ⟨rfl, -⟩ := List.cons.inj hcmd
        exact hbasename ⟨program, basename, hprogram, hadmits, rule, hrule, hlong⟩
      · cases hnew

theorem alreadyAllowed_eq_true_iff : policy.alreadyAllowed env cmd = true ↔
    strictest (policy.matchedRules env cmd resolving) = some .allow := by
  have hmatches : policy.matchesForCommands env [cmd] (fun _ => .forbidden) ⟨true⟩ =
      policy.matchesForCommandWithOptions env cmd (some fun _ => .forbidden) resolving :=
    List.append_nil _
  unfold Policy.alreadyAllowed
  simp only [hmatches]
  rw [Bool.and_eq_true, decide_eq_true_iff]
  by_cases hnone : policy.matchedRules env cmd resolving = []
  · rw [matchesForCommand_of_unmatched hnone, hnone]
    constructor
    · rintro ⟨h, -⟩
      cases h
    · intro h
      cases h
  · rw [matchesForCommand_of_matched hnone]
    constructor
    · exact And.left
    · intro h
      obtain ⟨m, hm, hallow⟩ := strictest_mem h
      refine ⟨h, List.any_eq_true.mpr ⟨m, hm, ?_⟩⟩
      rw [Bool.and_eq_true, decide_eq_true_iff]
      exact ⟨isPolicyMatch_of_mem hm, hallow⟩

/-- The first word is resolved to a program of another base name, and the rules of that name allow
    the command. -/
def ResolvedElsewhere (policy : Policy) (env : Env) (cmd : List Text) : Prop :=
  ∃ program basename, resolvedProgram? env cmd = some (program, basename) ∧
    cmd.head? ≠ some basename ∧
      strictest (policy.matchHostExecutableRules env cmd) = some .allow

/-- **When the rule of a proposed amendment is left out.** -/
theorem alreadyAllowed_iff (hexact : ¬ ExactMatch policy (first :: rest)) :
    policy.alreadyAllowed env (first :: rest) = true ↔
      ResolvedElsewhere policy env (first :: rest) := by
  have hnil : policy.matchExactRules (first :: rest) = [] := by
    by_contra hne
    exact hexact (matchExactRules_ne_nil_iff.mp hne)
  rw [alreadyAllowed_eq_true_iff, matchedRules_of_not_exact hnil]
  constructor
  · intro h
    have hne : policy.matchHostExecutableRules env (first :: rest) ≠ [] :=
      (strictest_eq_allow_iff.mp h).1
    obtain ⟨program, basename, hprogram, -, rule, hrule, hmatches⟩ :=
      matchHostExecutableRules_ne_nil_iff.mp hne
    refine ⟨program, basename, hprogram, ?_, h⟩
    intro hsame
    obtain rfl := Option.some.inj hsame
    exact hexact ⟨first, rest, rfl, rule, hrule, hmatches⟩
  · rintro ⟨-, -, -, -, h⟩
    exact h

/-- A request goes through exactly when its commands are all allowed. -/
theorem skip_iff : (∃ bypassSandbox proposal,
      createExecApprovalRequirementForCommand policy env reading req =
        some (.skip bypassSandbox proposal)) ↔
    ∀ command ∈ (judge policy env reading req).commands,
      policy.checkWithOptions env command (judge policy env reading req).fallback resolving =
        some .allow := by
  have hall : strictest (judge policy env reading req).matchedRules = some .allow ↔
      ∀ command ∈ (judge policy env reading req).commands,
        policy.checkWithOptions env command (judge policy env reading req).fallback resolving =
          some .allow := by
    have hne := commands_ne_nil reading req.command
    obtain ⟨command, commands, hcommands⟩ := List.exists_cons_of_ne_nil hne
    rw [strictest_eq_allow_iff]
    constructor
    · rintro ⟨-, h⟩ command hcommand
      refine strictest_eq_allow_iff.mpr ⟨matchesForCommand_ne_nil _ _ _ _, ?_⟩
      intro m hm
      exact h m (List.mem_flatMap.mpr ⟨command, hcommand, hm⟩)
    · intro h
      refine ⟨?_, ?_⟩
      · intro hnil
        have hmem : command ∈ (commandsForExecPolicy reading req.command).1 := by
          rw [hcommands]
          exact List.mem_cons_self
        exact matchesForCommand_ne_nil _ _ _ _ (List.flatMap_eq_nil_iff.mp hnil command hmem)
      · intro m hm
        obtain ⟨command, hcommand, hmem⟩ := List.mem_flatMap.mp hm
        exact (strictest_eq_allow_iff.mp (h command hcommand)).2 m hmem
  rw [← hall]
  unfold createExecApprovalRequirementForCommand
  cases hdecision : strictest (judge policy env reading req).matchedRules with
  | none => simp [hdecision]
  | some decision =>
    cases decision with
    | allow => simp [hdecision]
    | forbidden => simp [hdecision]
    | prompt =>
      simp only [hdecision, Option.map_some]
      split
      · simp
      · simp

/-- A request that asks for approval has a command that no rule allows. -/
theorem exists_unallowed {reason : Option Text} {proposal : Option (List Text)}
    (h : createExecApprovalRequirementForCommand policy env reading req =
      some (.needsApproval reason proposal)) :
    strictest (judge policy env reading req).matchedRules = some .prompt := by
  unfold createExecApprovalRequirementForCommand at h
  cases hdecision : strictest (judge policy env reading req).matchedRules with
  | none => simp [hdecision] at h
  | some decision =>
    cases decision with
    | allow => simp [hdecision] at h
    | forbidden => simp [hdecision] at h
    | prompt => rfl

/-- Where no rule matches a command, the fallback asks about one of them. -/
theorem exists_fallback_prompt
    (hnone : ∀ command ∈ (judge policy env reading req).commands,
      policy.matchedRules env command resolving = [])
    (hprompt : strictest (judge policy env reading req).matchedRules = some .prompt) :
    ∃ command ∈ (judge policy env reading req).commands,
      (judge policy env reading req).fallback command = .prompt := by
  obtain ⟨m, hm, hdecision⟩ := strictest_mem hprompt
  obtain ⟨command, hcommand, hmem⟩ := List.mem_flatMap.mp hm
  rw [matchesForCommand_of_unmatched (hnone command hcommand), List.mem_singleton] at hmem
  subst hmem
  exact ⟨command, hcommand, hdecision⟩

/-- **What an accepted amendment does to the policy.** -/
theorem appendAmendment_policy {json : Text → Text} {rules rules' : ManagedRules}
    (h : appendAmendmentAndUpdate env json rules (first :: rest) = .ok rules') :
    rules'.policy = if rules.policy.alreadyAllowed env (first :: rest) then rules.policy
      else rules.policy.addRules [singlePrefixRule first rest .allow] := by
  unfold appendAmendmentAndUpdate at h
  split at h
  · cases h
  · simp only [Policy.addPrefixRule] at h
    split at h
    · next hallowed =>
      obtain rfl := Except.ok.inj h
      rw [if_pos hallowed]
    · next hallowed =>
      obtain rfl := Except.ok.inj h
      rw [if_neg hallowed]

/-- **When an accepted amendment lets the command through.**  No rule of the policy matches a
    command of the request; the request goes through with the amendment unless the first word of
    the amendment is resolved to a program of another name whose rules allow it. -/
theorem amendment_unblocks_iff {rules : ManagedRules} {reason : Option Text}
    {amendment : List Text}
    (hneeds : createExecApprovalRequirementForCommand rules.policy env reading req =
      some (.needsApproval reason (some amendment)))
    (hrequested : requestedAmendment rules.policy env reading req = some amendment) :
    (∀ command ∈ (commandsForExecPolicy reading req.command).1,
      rules.policy.matchedRules env command resolving = []) ∧
    ∀ (json : Text → Text) (rules' : ManagedRules),
      appendAmendmentAndUpdate env json rules amendment = .ok rules' →
      ((∃ bypassSandbox proposal,
          createExecApprovalRequirementForCommand rules'.policy env reading req =
            some (.skip bypassSandbox proposal)) ↔
        ¬ ResolvedElsewhere rules.policy env amendment) := by
  obtain ⟨-, hnone, first, rest, rfl, happroves⟩ := requestedAmendment_spec hrequested
  have hprompt := exists_unallowed hneeds
  obtain ⟨asked, hasked, hfallback⟩ := exists_fallback_prompt hnone hprompt
  refine ⟨hnone, ?_⟩
  intro json rules' hrules'
  have hexact := not_exactMatch_amendment (hnone asked hasked) hfallback (happroves asked hasked)
  rw [skip_iff, appendAmendment_policy hrules', ← alreadyAllowed_iff hexact]
  constructor
  · intro hskip hallowed
    -- the policy is as it was, and the command asked about is still the fallback's
    rw [if_pos hallowed] at hskip
    have hcheck := hskip asked hasked
    rw [checkWithOptions_of_unmatched (hnone asked hasked)] at hcheck
    have hstill : (judge rules.policy env reading req).fallback asked = .allow :=
      Option.some.inj hcheck
    rw [hfallback] at hstill
    cases hstill
  · intro hallowed
    rw [if_neg hallowed]
    exact happroves

/-- Words that are no shell script and stand in no list. -/
def plainReading : CommandReading :=
  { plainCommands := fun _ => none
    singleCommandPrefix := fun _ => none
    isKnownSafeCommand := fun _ => false
    commandMightBeDangerous := fun _ => false
    renderShlexCommand := fun command => command.flatten }

/-- A request, under a policy of approving everything, to run a command. -/
def untrustedRequest (command prefixRule : List Text) : ExecApprovalRequest :=
  { command
    approvalPolicy := .unlessTrusted
    permissionProfile := .managed
    fileSystemSandboxKind := .restricted
    sandboxPermissions := .useDefault
    prefixRule := some prefixRule }

/-- `cargo test` goes through once `cargo` is accepted. -/
theorem amendment_unblocks_cargo :
    createExecApprovalRequirementForCommand (ManagedRules.mk .empty []).policy
        ⟨none, none⟩ plainReading
        (untrustedRequest ["cargo".toList, "test".toList] ["cargo".toList]) =
        some (.needsApproval none (some ["cargo".toList])) ∧
    ∀ (json : Text → Text) (rules' : ManagedRules),
      appendAmendmentAndUpdate ⟨none, none⟩ json ⟨.empty, []⟩ ["cargo".toList] = .ok rules' →
      ((∃ bypassSandbox proposal,
          createExecApprovalRequirementForCommand rules'.policy ⟨none, none⟩ plainReading
            (untrustedRequest ["cargo".toList, "test".toList] ["cargo".toList]) =
            some (.skip bypassSandbox proposal)) ↔
        ¬ ResolvedElsewhere .empty ⟨none, none⟩ ["cargo".toList]) := by
  have hneeds : createExecApprovalRequirementForCommand (ManagedRules.mk .empty []).policy
      ⟨none, none⟩ plainReading
      (untrustedRequest ["cargo".toList, "test".toList] ["cargo".toList]) =
      some (.needsApproval none (some ["cargo".toList])) := by
    decide +kernel
  have hrequested : requestedAmendment (ManagedRules.mk .empty []).policy ⟨none, none⟩ plainReading
      (untrustedRequest ["cargo".toList, "test".toList] ["cargo".toList]) =
      some ["cargo".toList] := by
    decide +kernel
  exact ⟨hneeds, (amendment_unblocks_iff hneeds hrequested).2⟩

/-- `/opt/~` is asked about although `~` is accepted: the rules of the home directory's name allow
    `~` already, so that the rule is left out. -/
theorem tilde_staysBlocked :
    createExecApprovalRequirementForCommand
        ⟨[("me".toList, singlePrefixRule "me".toList [] .allow)], [], []⟩
        ⟨some ["home".toList, "me".toList], none⟩ plainReading
        (untrustedRequest ["/opt/~".toList] ["~".toList]) =
      some (.needsApproval none (some ["~".toList])) ∧
    requestedAmendment ⟨[("me".toList, singlePrefixRule "me".toList [] .allow)], [], []⟩
        ⟨some ["home".toList, "me".toList], none⟩ plainReading
        (untrustedRequest ["/opt/~".toList] ["~".toList]) = some ["~".toList] ∧
    ∃ rules', appendAmendmentAndUpdate ⟨some ["home".toList, "me".toList], none⟩ id
        ⟨⟨[("me".toList, singlePrefixRule "me".toList [] .allow)], [], []⟩, []⟩ ["~".toList] =
        .ok rules' ∧
      createExecApprovalRequirementForCommand rules'.policy
        ⟨some ["home".toList, "me".toList], none⟩ plainReading
        (untrustedRequest ["/opt/~".toList] ["~".toList]) =
      some (.needsApproval none (some ["~".toList])) := by
  refine ⟨by decide +kernel, by decide +kernel, _, rfl, by decide +kernel⟩

end CodexMonitor.ExecPolicy
