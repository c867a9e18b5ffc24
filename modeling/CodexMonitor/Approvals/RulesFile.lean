import CodexMonitor.Lib.UnixPath

namespace CodexMonitor.Approvals

open Text

/-!
# Approvals — the rules file a remembered command is written to

`src-tauri/src/rules.rs` and `remember_approval_rule_core` of `shared/codex_core.rs`: the
command is trimmed and filtered, looked for among the rules of `default.rules` by a line
scanner, and appended there as an `allow` rule.

* `formatPrefixRule` / `escapeString` — the text of a rule.
* `ruleAlreadyPresent` — the scanner.
* `appendPrefixRule` / `rememberApprovalRuleCore` — the operation.
-/

/-! ### The text of a rule -/

/-- `str::replace` of a character. -/
def replaceChar (c : Char) (replacement : Text) (t : Text) : Text :=
  t.flatMap fun d => if d = c then replacement else [d]

def escapeString (value : Text) : Text :=
  replaceChar '\t' "\\t".toList <| replaceChar '\r' "\\r".toList <|
    replaceChar '\n' "\\n".toList <| replaceChar '"' "\\\"".toList <|
      replaceChar '\\' "\\\\".toList value

def formatPatternList (pattern : List Text) : Text :=
  joinWith ", ".toList (pattern.map fun item => '"' :: escapeString item ++ ['"'])

def formatPrefixRule (pattern : List Text) : Text :=
  "prefix_rule(".toList ++ ("\n    pattern = [".toList ++ formatPatternList pattern ++
    "],\n    decision = \"allow\",\n)\n".toList)

/-! ### The scanner -/

def normalizeRuleValue (value : Text) : Text := value.filter fun ch => !isWhitespace ch

/-- `str::split_once('=')`, the part behind the separator. -/
def afterEquals (t : Text) : Option Text :=
  if t.contains '=' then some (t.dropWhile (· ≠ '=')).tail else none

/-- The value of a `key = value,` line. -/
def lineValue (trimmed : Text) : Option Text :=
  (afterEquals trimmed).map fun value => trimEndBy (· == ',') value.trim

/-- The variables of the scanner's loop. -/
structure Scanner where
  inRule : Bool := false
  patternMatches : Bool := false
  decisionAllows : Bool := false
  deriving DecidableEq, Repr

/-- One line: `none` when the scanner returns `true` there. -/
def scanLine (targetPattern : Text) (s : Scanner) (line : Text) : Option Scanner :=
  let trimmed := line.trim
  if startsWith trimmed "prefix_rule(".toList then
    some { inRule := true, patternMatches := false, decisionAllows := false }
  else if !s.inRule then some s
  else if startsWith trimmed "pattern".toList then
    match lineValue trimmed with
    | some candidate =>
        -- compared without any blanks, also those inside the strings
        if normalizeRuleValue candidate = targetPattern then some { s with patternMatches := true }
        else some s
    | none => some s
  else if startsWith trimmed "decision".toList then
    match lineValue trimmed with
    | some candidate =>
        if containsText candidate "\"allow\"".toList || containsText candidate "'allow'".toList then
          some { s with decisionAllows := true }
        else some s
    | none => some s
  else if startsWith trimmed ")".toList then
    -- the end of a rule; only here is the match decided
    if s.patternMatches && s.decisionAllows then none else some { s with inRule := false }
  else some s

def ruleAlreadyPresent (contents : Text) (pattern : List Text) : Bool :=
  let targetPattern := normalizeRuleValue ('[' :: formatPatternList pattern ++ [']'])
  ((lines contents).foldlM (scanLine targetPattern) {}).isNone

/-! ### The operation -/

/-- How the file operations of one call end. -/
structure RulesIo where
  createDirAll : Except Text Unit := .ok ()
  acquireRulesLock : Except Text Unit := .ok ()
  readToString : Except Text Text
  write : Except Text Unit := .ok ()

/-- `fs::read_to_string(path).unwrap_or_default()`. -/
def RulesIo.existing (io : RulesIo) : Text :=
  match io.readToString with
  | .ok contents => contents
  | .error _ => []

/-- The file with a rule appended, after a blank line. -/
def appendRuleText (existing rule : Text) : Text :=
  let updated := if !existing.isEmpty && !endsWith existing ['\n'] then existing ++ ['\n']
    else existing
  let updated := if !updated.isEmpty then updated ++ ['\n'] else updated
  let updated := updated ++ rule
  if !endsWith updated ['\n'] then updated ++ ['\n'] else updated

/-- `append_prefix_rule`: what it writes, `none` when it leaves the file alone. -/
def appendPrefixRule (io : RulesIo) (pattern : List Text) : Except Text (Option Text) := do
  if pattern.isEmpty then throw "empty command pattern".toList
  io.createDirAll
  io.acquireRulesLock
  if ruleAlreadyPresent io.existing pattern then return none
  io.write
  return some (appendRuleText io.existing (formatPrefixRule pattern))

def defaultRulesPath (codexHome : AbsPath) : AbsPath :=
  codexHome ++ ["rules".toList, "default.rules".toList]

/-- The answer of `remember_approval_rule_core`, with what was written. -/
structure Remembered where
  rulesPath : AbsPath
  written : Option Text
  deriving DecidableEq, Repr

/-- The contents of the rules file afterwards. -/
def Remembered.contents (result : Remembered) (before : Text) : Text := result.written.getD before

/-- The trimmed words of a command, without the blank ones. -/
def trimmedWords (command : List Text) : List Text :=
  (command.map trim).filter fun item => !item.isEmpty

def rememberApprovalRuleCore (codexHome : Except Text AbsPath) (io : RulesIo)
    (command : List Text) : Except Text Remembered := do
  let command := trimmedWords command
  if command.isEmpty then throw "empty command".toList
  let codexHome ← codexHome
  let written ← appendPrefixRule io command
  return { rulesPath := defaultRulesPath codexHome, written := written }

end CodexMonitor.Approvals
