import CodexMonitor.Lib.Text

namespace CodexMonitor.Approvals

open Text

/-!
# Approvals — reading the command of an approval request

`approvalRules.ts`: the command of a request is looked for in its parameters, an arbitrary
JSON value, and turned into tokens, which are compared with the remembered prefixes.

* `splitCommandLine` — the splitter for commands given as one string.
* `extractTokens` / `getApprovalCommandInfo` — the search in the parameters.
* `normalizeCommandTokens` / `matchesCommandPrefix` — the comparison.
-/

/-- A JSON value.  Objects list their entries in the order of `Object.entries`; a number is
    kept as its text, since nothing here computes with it. -/
inductive Json
  | null
  | bool (b : Bool)
  | number (digits : Text)
  | string (t : Text)
  | array (items : List Json)
  | object (entries : List (Text × Json))

/-! ### The splitter -/

/-- The variables of the splitter's loop. -/
structure Splitter where
  tokens : List Text := []
  current : Text := []
  quote : Option Char := none
  escaped : Bool := false
  deriving DecidableEq, Repr

namespace Splitter

/-- `if (current) { tokens.push(current); current = ""; }` -/
def push (s : Splitter) : Splitter :=
  if s.current.isEmpty then s else { s with tokens := s.tokens ++ [s.current], current := [] }

/-- The body of the loop. -/
def step (s : Splitter) (char : Char) : Splitter :=
  if s.escaped then { s with current := s.current ++ [char], escaped := false }
  -- the splitter escapes inside single quotes too, where a shell does not
  else if char = '\\' then { s with escaped := true }
  else match s.quote with
    | some quote =>
        if char = quote then { s with quote := none }
        else { s with current := s.current ++ [char] }
    | none =>
        if char = '"' ∨ char = '\'' then { s with quote := some char }
        else if isJsWhitespace char then s.push
        else { s with current := s.current ++ [char] }

end Splitter

def splitCommandLine (input : Text) : List Text :=
  ((input.foldl Splitter.step {}).push).tokens

/-! ### The search -/

def commandKeys : List Text :=
  ["argv".toList, "args".toList, "command".toList, "cmd".toList, "exec".toList,
    "shellCommand".toList, "script".toList, "proposedExecPolicyAmendment".toList,
    "proposed_exec_policy_amendment".toList]

/-- The test on the other keys of an object.  Lower-casing beyond ASCII yields none of the
    letters looked for in a position where they could complete a match. -/
def isExecPolicyKey (key : Text) : Bool :=
  let normalized := key.map asciiLower
  containsText normalized "execpolicy".toList || containsText normalized "exec_policy".toList

/-- `value.every((entry) => typeof entry === "string")`, with the strings. -/
def stringItems : List Json → Option (List Text)
  | [] => some []
  | .string t :: rest => (stringItems rest).map (t :: ·)
  | _ :: _ => none

/-- `tokens.map((token) => token.trim()).filter(Boolean)`. -/
def normalizeCommandTokens (tokens : List Text) : List Text :=
  (tokens.map jsTrim).filter fun token => !token.isEmpty

/-- The value of a key, `undefined` being `none`. -/
def entry {α : Type} (key : Text) (entries : List (Text × α)) : Option α :=
  (entries.find? fun e => e.1 = key).map Prod.snd

/-- The places of an object that are searched, in order: the known keys, then the other keys
    that mention an exec policy. -/
def searchOrder {α : Type} (entries : List (Text × α)) : List α :=
  commandKeys.filterMap (entry · entries) ++
    (entries.filter fun e => isExecPolicyKey e.1).map Prod.snd

/-- The first result with any tokens. -/
def firstTokens : List (Option (List Text)) → Option (List Text)
  | [] => none
  | some (token :: tokens) :: _ => some (token :: tokens)
  | _ :: rest => firstTokens rest

mutual

/-- `extractTokens`.  The falsy values all fall among those that hold no command. -/
def extractTokens : Json → Option (List Text)
  | .array items => (stringItems items).map normalizeCommandTokens
  | .string line =>
      let tokens := splitCommandLine line
      if tokens.isEmpty then none else some tokens
  | .object entries => firstTokens (searchOrder (extractEntries entries))
  | .null | .bool _ | .number _ => none

/-- The entries of an object with what is extracted from each value. -/
def extractEntries : List (Text × Json) → List (Text × Option (List Text))
  | [] => []
  | (key, nested) :: rest => (key, extractTokens nested) :: extractEntries rest

end

/-! ### The command of a request -/

structure CommandInfo where
  tokens : List Text
  preview : Text
  deriving DecidableEq, Repr

/-- The lower-case hexadecimal digit of a number below sixteen. -/
def hexDigit (n : Nat) : Char := if n < 10 then Char.ofNat (48 + n) else Char.ofNat (87 + n)

/-- One character of `JSON.stringify` of a string. -/
def jsonEscape (c : Char) : Text :=
  if c = '"' then "\\\"".toList
  else if c = '\\' then "\\\\".toList
  else if c.toNat = 8 then "\\b".toList
  else if c.toNat = 9 then "\\t".toList
  else if c.toNat = 10 then "\\n".toList
  else if c.toNat = 12 then "\\f".toList
  else if c.toNat = 13 then "\\r".toList
  else if c.toNat < 32 then "\\u00".toList ++ [hexDigit (c.toNat / 16), hexDigit (c.toNat % 16)]
  else [c]

/-- `JSON.stringify` of a string. -/
def jsonString (t : Text) : Text := '"' :: t.flatMap jsonEscape ++ ['"']

def getApprovalCommandInfo (params : Json) : Option CommandInfo :=
  match extractTokens params with
  | none => none
  | some tokens =>
      if tokens.isEmpty then none
      else
        let normalized := normalizeCommandTokens tokens
        if normalized.isEmpty then none
        else
          -- the preview shows the tokens before they are trimmed
          let preview := joinWith [' ']
            (tokens.map fun token => if token.contains ' ' then jsonString token else token)
          some { tokens := normalized, preview := preview }

def matchesCommandPrefix (command : List Text) (allowlist : List (List Text)) : Bool :=
  let normalized := normalizeCommandTokens command
  !normalized.isEmpty &&
    allowlist.any fun entry => !entry.isEmpty && entry.isPrefixOf normalized

end CodexMonitor.Approvals
