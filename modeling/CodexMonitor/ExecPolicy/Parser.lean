import CodexMonitor.ExecPolicy.Policy

namespace CodexMonitor.ExecPolicy

/-!
# Exec policy — the builtins of a rules file

`execpolicy/src/parser.rs`: a rules file is a Starlark program; evaluating it calls the
builtins `prefix_rule`, `network_rule` and `host_executable`, which fill a policy builder.
The Starlark evaluator is third-party code and enters as `Starlark`: the builtin calls a
file makes, in order, or the evaluator's own error.  The builtins themselves, their checks
and their messages are modelled here.
-/

/-! ### Errors -/

inductive Error where
  | invalidDecision (raw : Text)
  | invalidPattern (message : Text)
  | invalidExample (message : Text)
  | invalidRule (message : Text)
  | exampleDidNotMatch (examples : List (List Text))
  | exampleDidMatch (example_ : List Text)
  | starlark (message : Text)
  deriving DecidableEq, Repr

/-! ### The evaluator -/

/-- A Starlark value, as far as the builtins look into it. -/
inductive Value where
  | str (value : Text)
  | list (items : List Value)
  | other (typeName : Text)

def Value.getType : Value → Text
  | .str _ => "string".toList
  | .list _ => "list".toList
  | .other typeName => typeName

/-- One call of a builtin, with its unpacked arguments. -/
inductive BuiltinCall where
  | prefixRule (pattern : List Value) (decision : Option Text) (matchExamples : List Value)
      (notMatchExamples : List Value) (justification : Option Text)
  | networkRule (host protocol decision : Text) (justification : Option Text)
  | hostExecutable (name : Text) (paths : List Value)

/-- The Starlark evaluator and the shell tokenizer of string examples. -/
structure Starlark where
  /-- The builtin calls made by evaluating a file, or the evaluator's error. -/
  evalModule : Text → Except Text (List BuiltinCall)
  /-- `shlex::split`. -/
  shlexSplit : Text → Option (List Text)

/-! ### Unpacking arguments -/

def parseStringAlternative : Value → Except Error Text
  | .str s => .ok s
  | value => .error (.invalidPattern
      ("pattern alternative must be a string (got ".toList ++ value.getType ++ ")".toList))

def parsePatternToken : Value → Except Error PatternToken
  | .str s => .ok (.single s)
  | .list items => do
      match ← items.mapM parseStringAlternative with
      | [] => .error (.invalidPattern "pattern alternatives cannot be empty".toList)
      | [only] => .ok (.single only)
      | tokens => .ok (.alts tokens)
  | value => .error (.invalidPattern
      ("pattern element must be a string or list of strings (got ".toList ++ value.getType
        ++ ")".toList))

/-- `parse_pattern`, as the first token and the remaining ones. -/
def parsePattern (pattern : List Value) : Except Error (PatternToken × List PatternToken) := do
  match ← pattern.mapM parsePatternToken with
  | [] => .error (.invalidPattern "pattern cannot be empty".toList)
  | first :: rest => .ok (first, rest)

def parseExampleToken : Value → Except Error Text
  | .str s => .ok s
  | value => .error (.invalidExample
      ("example tokens must be strings (got ".toList ++ value.getType ++ ")".toList))

def parseExample (sl : Starlark) : Value → Except Error (List Text)
  | .str raw =>
      match sl.shlexSplit raw with
      | none => .error (.invalidExample "example string has invalid shell syntax".toList)
      | some [] => .error (.invalidExample "example cannot be an empty string".toList)
      | some tokens => .ok tokens
  | .list items => do
      match ← items.mapM parseExampleToken with
      | [] => .error (.invalidExample "example cannot be an empty list".toList)
      | tokens => .ok tokens
  | value => .error (.invalidExample
      ("example must be a string or list of strings (got ".toList ++ value.getType ++ ")".toList))

def parseDecision (raw : Text) : Except Error Decision :=
  match Decision.parse raw with
  | some decision => .ok decision
  | none => .error (.invalidDecision raw)

def parseJustification : Option Text → Except Error (Option Text)
  | some raw =>
      if raw.trim.isEmpty then .error (.invalidRule "justification cannot be empty".toList)
      else .ok (some raw)
  | none => .ok none

/-! ### Network rules -/

def NetworkRuleProtocol.parse (raw : Text) : Except Error NetworkRuleProtocol :=
  if raw = "http".toList then .ok .http
  else if raw = "https".toList ∨ raw = "https_connect".toList ∨ raw = "http-connect".toList then
    .ok .https
  else if raw = "socks5_tcp".toList then .ok .socks5Tcp
  else if raw = "socks5_udp".toList then .ok .socks5Udp
  else .error (.invalidRule
    ("network_rule protocol must be one of http, https, socks5_tcp, socks5_udp (got ".toList
      ++ raw ++ ")".toList))

def isPort (port : Text) : Bool := !port.isEmpty && port.all Char.isDigit

/-- The host without brackets or port. -/
def stripHostPort (raw host : Text) : Except Error Text :=
  match host with
  | '[' :: stripped =>
      if !stripped.contains ']' then
        .error (.invalidRule "network_rule host has an invalid bracketed IPv6 literal".toList)
      else
        let inside := stripped.takeWhile (· != ']')
        let rest := (stripped.dropWhile (· != ']')).tail
        -- after the bracket only a port may follow
        let portOk := match rest with
          | ':' :: port => isPort port
          | _ => false
        if !rest.isEmpty && !portOk then
          .error (.invalidRule
            ("network_rule host contains an unsupported suffix: ".toList ++ raw))
        else .ok inside
  | _ =>
      match host.splitOn ':' with
      -- exactly one colon: a port; more of them is a bare IPv6 address
      | [candidate, port] => if !candidate.isEmpty && isPort port then .ok candidate else .ok host
      | _ => .ok host

def normalizeNetworkRuleHost (raw : Text) : Except Error Text := do
  let host := raw.trim
  if host.isEmpty then .error (.invalidRule "network_rule host cannot be empty".toList)
  else if host.containsText "://".toList || host.contains '/' || host.contains '?'
      || host.contains '#' then
    .error (.invalidRule
      "network_rule host must be a hostname or IP literal (without scheme or path)".toList)
  else
    let host ← stripHostPort raw host
    let normalized := ((host.trimEndBy (· == '.')).trim).map Text.asciiLower
    if normalized.isEmpty then .error (.invalidRule "network_rule host cannot be empty".toList)
    else if normalized.contains '*' then
      .error (.invalidRule
        "network_rule host must be a specific host; wildcards are not allowed".toList)
    else if normalized.any Text.isWhitespace then
      .error (.invalidRule "network_rule host cannot contain whitespace".toList)
    else .ok normalized

def parseNetworkRuleDecision (raw : Text) : Except Error Decision :=
  if raw = "deny".toList then .ok .forbidden else parseDecision raw

/-! ### Host executables -/

def validateHostExecutableName (name : Text) : Except Error Unit :=
  if name.isEmpty then .error (.invalidRule "host_executable name cannot be empty".toList)
  else if UnixPath.components name = [name] ∧ name ≠ "..".toList then .ok ()
  else .error (.invalidRule
    ("host_executable name must be a bare executable name (got ".toList ++ name ++ ")".toList))

def parseHostExecutablePath (env : Env) (name : Text) : Value → Except Error AbsPath
  | .str raw =>
      if !UnixPath.isAbsolute raw then
        .error (.invalidRule
          ("host_executable paths must be absolute (got ".toList ++ raw ++ ")".toList))
      else
        match absolutePath? env raw with
        | none => .error (.invalidRule ("invalid absolute path `".toList ++ raw ++ "`".toList))
        | some path =>
            if UnixPath.fileName path = some name then .ok path
            else .error (.invalidRule
              ("host_executable path `".toList ++ raw ++ "` must have basename `".toList ++ name
                ++ "`".toList))
  | value => .error (.invalidRule
      ("host_executable paths must be strings (got ".toList ++ value.getType ++ ")".toList))

/-! ### The builder -/

structure PendingExampleValidation where
  rules : List PrefixRule
  matchExamples : List (List Text)
  notMatchExamples : List (List Text)

/-- The policy under construction and the examples the current file still has to pass. -/
structure PolicyBuilder where
  policy : Policy
  pending : List PendingExampleValidation

/-- The rules one `prefix_rule` call adds: one for each alternative of the first token. -/
def prefixRules (first : PatternToken) (rest : List PatternToken) (decision : Decision)
    (justification : Option Text) : List PrefixRule :=
  first.alternatives.map fun head =>
    { pattern := { first := head, rest := rest }, decision := decision,
      justification := justification }

/-- `PolicyBuilder::add_rule` for each rule. -/
def Policy.addRules (policy : Policy) (rules : List PrefixRule) : Policy :=
  { policy with
    rulesByProgram := policy.rulesByProgram ++ rules.map fun rule => (rule.pattern.first, rule) }

/-- One builtin call. -/
def evalCall (env : Env) (sl : Starlark) (builder : PolicyBuilder) :
    BuiltinCall → Except Error PolicyBuilder
  | .prefixRule pattern decision matchExamples notMatchExamples justification => do
      let decision ← match decision with
        | some raw => parseDecision raw
        | none => .ok .allow
      let justification ← parseJustification justification
      let (first, rest) ← parsePattern pattern
      let matchExamples ← matchExamples.mapM (parseExample sl)
      let notMatchExamples ← notMatchExamples.mapM (parseExample sl)
      -- the examples are checked once the whole file is evaluated
      let rules := prefixRules first rest decision justification
      .ok { policy := builder.policy.addRules rules
            pending := builder.pending ++ [⟨rules, matchExamples, notMatchExamples⟩] }
  | .networkRule host protocol decision justification => do
      let protocol ← NetworkRuleProtocol.parse protocol
      let decision ← parseNetworkRuleDecision decision
      let justification ← parseJustification justification
      let host ← normalizeNetworkRuleHost host
      let rule := { host := host, protocol := protocol, decision := decision,
                    justification := justification }
      .ok { builder with policy := { builder.policy with
              networkRules := builder.policy.networkRules ++ [rule] } }
  | .hostExecutable name paths => do
      validateHostExecutableName name
      -- `host_executables_by_name.insert`: the last entry for a name is the one looked up
      let parsed ← paths.mapM (parseHostExecutablePath env name)
      .ok { builder with policy := { builder.policy with
              hostExecutablesByName :=
                builder.policy.hostExecutablesByName ++ [(name, parsed.eraseDups)] } }

/-- `validate_not_match_examples`, then `validate_match_examples`. -/
def validateExamples (env : Env) (hosts : List (Text × List AbsPath))
    (validation : PendingExampleValidation) : Except Error Unit :=
  let policy := { Policy.empty.addRules validation.rules with hostExecutablesByName := hosts }
  -- only the rules of this call, under the host entries of every file so far
  let isMatched := fun cmd => !(policy.matchedRules env cmd ⟨true⟩).isEmpty
  match validation.notMatchExamples.find? isMatched with
  | some cmd => .error (.exampleDidMatch cmd)
  | none =>
      match validation.matchExamples.filter fun cmd => !isMatched cmd with
      | [] => .ok ()
      | unmatched => .error (.exampleDidNotMatch unmatched)

/-- `PolicyParser::parse` on the builder of the files parsed so far. -/
def parsePolicyFile (env : Env) (sl : Starlark) (policy : Policy) (contents : Text) :
    Except Error Policy := do
  match sl.evalModule contents with
  | .error message => .error (.starlark message)
  | .ok calls =>
      let builder ← calls.foldlM (evalCall env sl) { policy := policy, pending := [] }
      builder.pending.forM (validateExamples env builder.policy.hostExecutablesByName)
      .ok builder.policy

end CodexMonitor.ExecPolicy
