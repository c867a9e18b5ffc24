import CodexMonitor.ExecPolicy.Amend
import CodexMonitor.ExecPolicy.Overlay
import CodexMonitor.Sandbox.Policy

namespace CodexMonitor.ExecPolicy

open Text
open Sandbox (FileSystemSandboxKind)

/-!
# Exec policy — the approval a command needs

`core/src/exec_policy.rs`: a command is cut into the commands it runs, each is judged by the
policy or, where no rule matches, by a fallback, and the strictest decision says what is asked of
the user.  With the question goes an amendment of the policy.

* `renderDecisionForUnmatchedCommand` — the fallback.
* `deriveRequestedAmendment` — the amendment the request asks for, if it would help.
* `createExecApprovalRequirementForCommand` — what is asked.
* `amendment_unblocks_iff` — when an accepted amendment lets the command through.

Reading shell scripts, the lists of safe and of dangerous commands and quoting enter as
`CommandReading`.
-/

/-! ### Settings -/

structure GranularApprovalConfig where
  sandboxApproval : Bool
  rules : Bool
  deriving DecidableEq, Repr

inductive AskForApproval where
  | unlessTrusted
  | onFailure
  | onRequest
  | granular (config : GranularApprovalConfig)
  | never
  deriving DecidableEq, Repr

inductive PermissionProfile where
  | managed
  | disabled
  | external
  deriving DecidableEq, Repr

inductive SandboxPermissions where
  | useDefault
  | requireEscalated
  | withAdditionalPermissions
  deriving DecidableEq, Repr

def SandboxPermissions.requestsSandboxOverride : SandboxPermissions → Bool
  | .useDefault => false
  | _ => true

/-- What is read of a command's words. -/
structure CommandReading where
  /-- `parse_shell_lc_plain_commands`. -/
  plainCommands : List Text → Option (List (List Text))
  /-- `parse_shell_lc_single_command_prefix`. -/
  singleCommandPrefix : List Text → Option (List Text)
  isKnownSafeCommand : List Text → Bool
  commandMightBeDangerous : List Text → Bool
  /-- `render_shlex_command`. -/
  renderShlexCommand : List Text → Text

structure ExecApprovalRequest where
  command : List Text
  approvalPolicy : AskForApproval
  permissionProfile : PermissionProfile
  fileSystemSandboxKind : FileSystemSandboxKind
  sandboxPermissions : SandboxPermissions
  prefixRule : Option (List Text)
  deriving DecidableEq, Repr

/-! ### The fallback -/

/-- Commands of a restricted sandbox are asked about when they want out of it. -/
def decisionInSandbox (kind : FileSystemSandboxKind) (permissions : SandboxPermissions) :
    Decision :=
  match kind with
  | .unrestricted => .allow
  | .externalSandbox => .allow
  | .restricted => if permissions.requestsSandboxOverride then .prompt else .allow

/-- `render_decision_for_unmatched_command`, where the platform has a sandbox. -/
def renderDecisionForUnmatchedCommand (reading : CommandReading) (req : ExecApprovalRequest)
    (usedComplexParsing : Bool) (command : List Text) : Decision :=
  if reading.isKnownSafeCommand command && !usedComplexParsing then .allow
  else if reading.commandMightBeDangerous command then
    match req.approvalPolicy with
    | .never =>
        match req.permissionProfile with
        | .managed => .forbidden
        | .disabled => .allow
        | .external => .allow
    | _ => .prompt
  else
    match req.approvalPolicy with
    | .never => .allow
    | .onFailure => .allow
    | .unlessTrusted => .prompt
    | .onRequest => decisionInSandbox req.fileSystemSandboxKind req.sandboxPermissions
    | .granular _ => decisionInSandbox req.fileSystemSandboxKind req.sandboxPermissions

/-- The commands a command runs, and whether only its here-document form could be read. -/
def commandsForExecPolicy (reading : CommandReading) (command : List Text) :
    List (List Text) × Bool :=
  match reading.plainCommands command with
  | some (first :: rest) => (first :: rest, false)
  | _ =>
      match reading.singleCommandPrefix command with
      | some singleCommand => ([singleCommand], true)
      | none => ([command], false)

/-! ### Amendments -/

def bannedPrefixSuggestions : List (List Text) :=
  [["python3"], ["python3", "-"], ["python3", "-c"], ["python"], ["python", "-"],
    ["python", "-c"], ["py"], ["py", "-3"], ["pythonw"], ["pyw"], ["pypy"], ["pypy3"], ["git"],
    ["bash"], ["bash", "-lc"], ["sh"], ["sh", "-c"], ["sh", "-lc"], ["zsh"], ["zsh", "-lc"],
    ["/bin/zsh"], ["/bin/zsh", "-lc"], ["/bin/bash"], ["/bin/bash", "-lc"], ["pwsh"],
    ["pwsh", "-Command"], ["pwsh", "-c"], ["powershell"], ["powershell", "-Command"],
    ["powershell", "-c"], ["powershell.exe"], ["powershell.exe", "-Command"],
    ["powershell.exe", "-c"], ["env"], ["sudo"], ["node"], ["node", "-e"], ["perl"],
    ["perl", "-e"], ["ruby"], ["ruby", "-e"], ["php"], ["php", "-r"], ["lua"], ["lua", "-e"],
    ["osascript"]].map fun banned => banned.map String.toList

def prefixRuleWouldApproveAllCommands (policy : Policy) (env : Env) (prefixRule : List Text)
    (commands : List (List Text)) (fallback : List Text → Decision) (options : MatchOptions) :
    Bool :=
  match policy.addPrefixRule prefixRule .allow with
  | .error _ => false
  | .ok policyWithPrefixRule => commands.all fun command =>
      decide (policyWithPrefixRule.checkWithOptions env command fallback options = some .allow)

/-- `derive_requested_execpolicy_amendment_from_prefix_rule`. -/
def deriveRequestedAmendment (policy : Policy) (env : Env) (prefixRule : Option (List Text))
    (matchedRules : List RuleMatch) (commands : List (List Text))
    (fallback : List Text → Decision) (options : MatchOptions) : Option (List Text) :=
  match prefixRule with
  | none => none
  | some prefixRule =>
      if prefixRule.isEmpty then none
      else if bannedPrefixSuggestions.contains prefixRule then none
      else if matchedRules.any isPolicyMatch then none
      else if prefixRuleWouldApproveAllCommands policy env prefixRule commands fallback options then
        some prefixRule
      else none

/-- The first command the fallback decided so. -/
def firstHeuristics (decision : Decision) (matchedRules : List RuleMatch) : Option (List Text) :=
  matchedRules.findSome? fun ruleMatch =>
    match ruleMatch with
    | .heuristicsRuleMatch command decision' =>
        if decision' = decision then some command else none
    | .prefixRuleMatch .. => none

def tryDeriveAmendmentForPromptRules (matchedRules : List RuleMatch) : Option (List Text) :=
  if matchedRules.any fun ruleMatch =>
      isPolicyMatch ruleMatch && decide (ruleMatch.decision = .prompt) then none
  else firstHeuristics .prompt matchedRules

def tryDeriveAmendmentForAllowRules (matchedRules : List RuleMatch) : Option (List Text) :=
  if matchedRules.any isPolicyMatch then none else firstHeuristics .allow matchedRules

/-! ### Reasons -/

/-- The rule match of a decision with the longest prefix; the last one of several. -/
def mostSpecific (decision : Decision) (matchedRules : List RuleMatch) :
    Option (List Text × Option Text) :=
  matchedRules.foldl
    (fun best ruleMatch =>
      match ruleMatch with
      | .prefixRuleMatch matchedPrefix decision' _ justification =>
          if decision' = decision ∧
              best.all (fun b => decide (b.1.length ≤ matchedPrefix.length)) = true then
            some (matchedPrefix, justification)
          else best
      | .heuristicsRuleMatch .. => best)
    none

def derivePromptReason (reading : CommandReading) (command : List Text)
    (matchedRules : List RuleMatch) : Option Text :=
  match mostSpecific .prompt matchedRules with
  | some (_, some justification) =>
      some ("`".toList ++ reading.renderShlexCommand command ++ "` requires approval: ".toList ++
        justification)
  | some (_, none) =>
      some ("`".toList ++ reading.renderShlexCommand command ++
        "` requires approval by policy".toList)
  | none => none

def deriveForbiddenReason (reading : CommandReading) (command : List Text)
    (matchedRules : List RuleMatch) : Text :=
  let rejected := "`".toList ++ reading.renderShlexCommand command ++ "` rejected: ".toList
  match mostSpecific .forbidden matchedRules with
  | some (_, some justification) => rejected ++ justification
  | some (matchedPrefix, none) =>
      rejected ++ "policy forbids commands starting with `".toList ++
        reading.renderShlexCommand matchedPrefix ++ "`".toList
  | none => rejected ++ "blocked by policy".toList

def promptConflictReason : Text :=
  "approval required by policy, but AskForApproval is set to Never".toList

def rejectSandboxApprovalReason : Text :=
  "approval required by policy, but AskForApproval::Granular.sandbox_approval is false".toList

def rejectRulesApprovalReason : Text :=
  "approval required by policy rule, but AskForApproval::Granular.rules is false".toList

def promptIsRejectedByPolicy (approvalPolicy : AskForApproval) (promptIsRule : Bool) :
    Option Text :=
  match approvalPolicy with
  | .never => some promptConflictReason
  | .onFailure => none
  | .onRequest => none
  | .unlessTrusted => none
  | .granular config =>
      if promptIsRule then
        if config.rules then none else some rejectRulesApprovalReason
      else if config.sandboxApproval then none
      else some rejectSandboxApprovalReason

/-! ### What is asked -/

inductive ExecApprovalRequirement where
  | skip (bypassSandbox : Bool) (proposedAmendment : Option (List Text))
  | needsApproval (reason : Option Text) (proposedAmendment : Option (List Text))
  | forbidden (reason : Text)
  deriving DecidableEq, Repr

/-- The policy's judgement of a request. -/
structure Judgement where
  commands : List (List Text)
  usedComplexParsing : Bool
  fallback : List Text → Decision
  matchedRules : List RuleMatch

def judge (policy : Policy) (env : Env) (reading : CommandReading) (req : ExecApprovalRequest) :
    Judgement :=
  let commands := commandsForExecPolicy reading req.command
  let fallback := renderDecisionForUnmatchedCommand reading req commands.2
  { commands := commands.1
    usedComplexParsing := commands.2
    fallback
    matchedRules := policy.matchesForCommands env commands.1 fallback resolving }

/-- The amendment that comes from the request's `prefix_rule`. -/
def requestedAmendment (policy : Policy) (env : Env) (reading : CommandReading)
    (req : ExecApprovalRequest) : Option (List Text) :=
  let judged := judge policy env reading req
  deriveRequestedAmendment policy env req.prefixRule judged.matchedRules judged.commands
    judged.fallback resolving

/-- `create_exec_approval_requirement_for_command`; `none` where `Evaluation::from_matches` would
    panic on an empty list. -/
def createExecApprovalRequirementForCommand (policy : Policy) (env : Env)
    (reading : CommandReading) (req : ExecApprovalRequest) : Option ExecApprovalRequirement :=
  let judged := judge policy env reading req
  (strictest judged.matchedRules).map fun decision =>
    match decision with
    | .forbidden => .forbidden (deriveForbiddenReason reading req.command judged.matchedRules)
    | .prompt =>
        let promptIsRule := judged.matchedRules.any fun ruleMatch =>
          isPolicyMatch ruleMatch && decide (ruleMatch.decision = .prompt)
        match promptIsRejectedByPolicy req.approvalPolicy promptIsRule with
        | some reason => .forbidden reason
        | none =>
            .needsApproval (derivePromptReason reading req.command judged.matchedRules)
              ((requestedAmendment policy env reading req).or
                (if judged.usedComplexParsing then none
                else tryDeriveAmendmentForPromptRules judged.matchedRules))
    | .allow =>
        .skip
          (judged.commands.all fun command =>
            (policy.matchesForCommandWithOptions env command none resolving).any fun ruleMatch =>
              isPolicyMatch ruleMatch && decide (ruleMatch.decision = .allow))
          (if judged.usedComplexParsing then none
          else tryDeriveAmendmentForAllowRules judged.matchedRules)

end CodexMonitor.ExecPolicy
