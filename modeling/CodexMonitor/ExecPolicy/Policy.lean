import CodexMonitor.Lib.UnixPath
import Mathlib.Order.Lattice

namespace CodexMonitor.ExecPolicy

/-!
# Exec policy — rules, matching and the overlay

`execpolicy/src/{decision,rule,policy,executable_name}.rs`: prefix rules keyed by program,
the two-stage matcher, and the overlay that installs an administrator's policy on top of
the user's.

* `Decision` — ordered by severity, `allow < prompt < forbidden`.
* `PrefixRule.matches` — a prefix of the command, token by token.
* `Policy.matchesForCommandWithOptions` — rules keyed by the literal first token; only if
  none matches, rules keyed by the program's basename, gated by `host_executables`.
* `Policy.mergeOverlay` — rules are concatenated, host executables overwritten.

The multimap of rules is the list of its insertions; the environment the program path is
resolved in (home and working directory) is `Env`.
-/

/-! ### Decisions -/

inductive Decision where
  | allow
  | prompt
  | forbidden
  deriving DecidableEq, Repr

/-- Severity: the derived order of the Rust enumeration. -/
def Decision.severity : Decision → Nat
  | .allow => 0
  | .prompt => 1
  | .forbidden => 2

theorem Decision.severity_injective : Function.Injective Decision.severity := by
  intro a b h
  cases a <;> cases b <;> first | rfl | exact absurd h (by decide)

instance : LinearOrder Decision := LinearOrder.lift' Decision.severity Decision.severity_injective

def Decision.parse (raw : Text) : Option Decision :=
  if raw = "allow".toList then some .allow
  else if raw = "prompt".toList then some .prompt
  else if raw = "forbidden".toList then some .forbidden
  else none

/-! ### Rules -/

inductive PatternToken where
  | single (expected : Text)
  | alts (alternatives : List Text)
  deriving DecidableEq, Repr

def PatternToken.matches : PatternToken → Text → Bool
  | .single expected, token => expected == token
  | .alts alternatives, token => alternatives.contains token

def PatternToken.alternatives : PatternToken → List Text
  | .single expected => [expected]
  | .alts alternatives => alternatives

structure PrefixPattern where
  first : Text
  rest : List PatternToken
  deriving DecidableEq, Repr

/-- Whether the tokens match the pattern tokens one by one, as far as the pattern goes. -/
def tokensMatch : List PatternToken → List Text → Bool
  | [], _ => true
  | _ :: _, [] => false
  | p :: ps, t :: ts => p.matches t && tokensMatch ps ts

/-- `matches_prefix`: the matched prefix of the command. -/
def PrefixPattern.matchesPrefix (pattern : PrefixPattern) : List Text → Option (List Text)
  | [] => none
  | first :: args =>
      if first = pattern.first ∧ tokensMatch pattern.rest args = true then
        some ((first :: args).take (pattern.rest.length + 1))
      else none

structure PrefixRule where
  pattern : PrefixPattern
  decision : Decision
  justification : Option Text
  deriving DecidableEq, Repr

inductive RuleMatch where
  | prefixRuleMatch (matchedPrefix : List Text) (decision : Decision)
      (resolvedProgram : Option AbsPath) (justification : Option Text)
  | heuristicsRuleMatch (command : List Text) (decision : Decision)
  deriving DecidableEq, Repr

def RuleMatch.decision : RuleMatch → Decision
  | .prefixRuleMatch _ decision _ _ => decision
  | .heuristicsRuleMatch _ decision => decision

def RuleMatch.withResolvedProgram (program : AbsPath) : RuleMatch → RuleMatch
  | .prefixRuleMatch matchedPrefix decision _ justification =>
      .prefixRuleMatch matchedPrefix decision (some program) justification
  | other => other

def PrefixRule.matches (rule : PrefixRule) (cmd : List Text) : Option RuleMatch :=
  (rule.pattern.matchesPrefix cmd).map fun matchedPrefix =>
    .prefixRuleMatch matchedPrefix rule.decision none rule.justification

inductive NetworkRuleProtocol where
  | http
  | https
  | socks5Tcp
  | socks5Udp
  deriving DecidableEq, Repr

structure NetworkRule where
  host : Text
  protocol : NetworkRuleProtocol
  decision : Decision
  justification : Option Text
  deriving DecidableEq, Repr

/-! ### Policies -/

/-- Rules keyed by program (in insertion order), network rules, and the absolute paths a
    basename may resolve from. -/
structure Policy where
  rulesByProgram : List (Text × PrefixRule)
  networkRules : List NetworkRule
  hostExecutablesByName : List (Text × List AbsPath)

def Policy.empty : Policy :=
  { rulesByProgram := [], networkRules := [], hostExecutablesByName := [] }

/-- `rules_by_program.get_vec(program)`; a missing key has no rules. -/
def Policy.rulesFor (policy : Policy) (program : Text) : List PrefixRule :=
  (policy.rulesByProgram.filter fun entry => entry.1 == program).map Prod.snd

/-- `host_executables_by_name.get(name)`: the newest entry. -/
def Policy.hostPaths (policy : Policy) (name : Text) : Option (List AbsPath) :=
  (policy.hostExecutablesByName.reverse.find? fun entry => entry.1 == name).map Prod.snd

/-- `merge_overlay`. -/
def Policy.mergeOverlay (policy overlay : Policy) : Policy :=
  { rulesByProgram := policy.rulesByProgram ++ overlay.rulesByProgram
    networkRules := policy.networkRules ++ overlay.networkRules
    hostExecutablesByName := policy.hostExecutablesByName ++ overlay.hostExecutablesByName }

/-! ### Matching -/

/-- What resolving a program path depends on: the home and the working directory. -/
structure Env where
  homeDir : Option AbsPath
  currentDir : Option AbsPath

/-- `AbsolutePathBuf::try_from`: a relative path is taken from the working directory. -/
def absolutePath? (env : Env) (path : Text) : Option AbsPath :=
  match UnixPath.start? env.homeDir path with
  | some (dir, rest) => some (UnixPath.follow dir rest)
  | none => env.currentDir.map fun dir => UnixPath.follow dir (UnixPath.components path)

/-- The absolute program path of a command and the basename its rules are keyed by. -/
def resolvedProgram? (env : Env) : List Text → Option (AbsPath × Text)
  | [] => none
  | first :: _ =>
      match absolutePath? env first with
      | none => none
      | some program =>
          match UnixPath.fileName program with
          | none => none
          | some basename => some (program, basename)

/-- `match_exact_rules`; an empty command matches nothing. -/
def Policy.matchExactRules (policy : Policy) : List Text → List RuleMatch
  | [] => []
  | first :: args => (policy.rulesFor first).filterMap fun rule => rule.matches (first :: args)

/-- Whether `host_executables` lets the program use the rules of its basename. -/
def Policy.admitsHostExecutable (policy : Policy) (program : AbsPath) (basename : Text) : Bool :=
  match policy.hostPaths basename with
  | some paths => paths.contains program
  | none => true

/-- `match_host_executable_rules`. -/
def Policy.matchHostExecutableRules (policy : Policy) (env : Env) (cmd : List Text) :
    List RuleMatch :=
  match resolvedProgram? env cmd with
  | none => []
  | some (program, basename) =>
      if policy.admitsHostExecutable program basename then
        ((policy.rulesFor basename).filterMap fun rule => rule.matches (basename :: cmd.tail)).map
          (RuleMatch.withResolvedProgram program)
      else []

structure MatchOptions where
  resolveHostExecutables : Bool
  deriving DecidableEq, Repr

/-- The rules that match a command: the exact stage, else the basename stage. -/
def Policy.matchedRules (policy : Policy) (env : Env) (cmd : List Text) (options : MatchOptions) :
    List RuleMatch :=
  let exactMatches := policy.matchExactRules cmd
  if exactMatches.isEmpty then
    if options.resolveHostExecutables then policy.matchHostExecutableRules env cmd else []
  else exactMatches

/-- `matches_for_command_with_options`. -/
def Policy.matchesForCommandWithOptions (policy : Policy) (env : Env) (cmd : List Text)
    (heuristicsFallback : Option (List Text → Decision)) (options : MatchOptions) :
    List RuleMatch :=
  let matched := policy.matchedRules env cmd options
  match matched, heuristicsFallback with
  | [], some fallback => [.heuristicsRuleMatch cmd (fallback cmd)]
  | matched, _ => matched

/-- The strictest decision of a list of matches; `none` on the empty list, where
    `Evaluation::from_matches` would panic. -/
def strictest : List RuleMatch → Option Decision
  | [] => none
  | m :: ms => some (ms.foldl (fun d m => max d m.decision) m.decision)

/-- `check_with_options(..).decision`. -/
def Policy.checkWithOptions (policy : Policy) (env : Env) (cmd : List Text)
    (heuristicsFallback : List Text → Decision) (options : MatchOptions) : Option Decision :=
  strictest (policy.matchesForCommandWithOptions env cmd (some heuristicsFallback) options)

end CodexMonitor.ExecPolicy
