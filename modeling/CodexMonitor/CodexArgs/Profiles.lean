import CodexMonitor.Lib.ShellWords

namespace CodexMonitor.CodexArgs

open Text

/-!
# Codex args — profiles

`codexArgsInput.ts` and `codexArgsProfiles.ts`: the arguments that a user gives for codex are
brought into plain characters, cut into tokens and read flag by flag.  Some flags are ignored; the
tokens of the others are quoted and joined.  `codex/args.rs` splits this text as a shell does.

* `normalizeCodexArgsInput` — quotes, dashes and blanks that an editor has made typographic.
* `tokenizeArgs`, `joinTokens` — the tokens of a text, and a text of tokens.
* `readTokens` — what each token is read as.
* `parseCodexArgsProfile`, `sanitizeRuntimeCodexArgs` — the arguments that have an effect.
* `parseCodexArgs` — the words that codex is started with.
-/

/-! ### Typographic characters -/

def isNbsp (c : Char) : Bool := [0xA0, 0x2007, 0x202F].contains c.toNat

def isSmartDoubleQuote (c : Char) : Bool := 0x201C ≤ c.toNat && c.toNat ≤ 0x201F

def isSmartSingleQuote (c : Char) : Bool := 0x2018 ≤ c.toNat && c.toNat ≤ 0x201B

def isDashLike (c : Char) : Bool := (0x2010 ≤ c.toNat && c.toNat ≤ 0x2015) || c.toNat == 0x2212

/-- The blank or the quote that a character stands for. -/
def plainCharacter (c : Char) : Char :=
  if isNbsp c then ' '
  else if isSmartDoubleQuote c then '"'
  else if isSmartSingleQuote c then '\''
  else c

def stripWrappingQuotes (value : Text) : Text :=
  if (value.startsWith "\"".toList && value.endsWith "\"".toList) ||
      (value.startsWith "'".toList && value.endsWith "'".toList) then
    (value.drop 1).dropLast
  else value

/-- `/^[A-Za-z][A-Za-z0-9-]*$/`. -/
def isFlagName : Text → Bool
  | [] => false
  | c :: cs => c.isAlpha && cs.all fun c => c.isAlphanum || c == '-'

/-- The dashes for a token that begins with a dash of some kind: two in front of a name of several
    letters. -/
def dashesFor (token : Text) : Text :=
  let flagToken := token.takeWhile (· ≠ '=')
  if isFlagName flagToken && flagToken.length != 1 then "--".toList else "-".toList

/-- The replacement of `DASH_LIKE_TOKEN_PREFIX_PATTERN`; the flag says that a token may begin. -/
def expandDashes : Bool → Text → Text
  | _, [] => []
  | boundary, c :: rest =>
      if boundary && isDashLike c && rest.head?.any fun d => !isJsWhitespace d then
        dashesFor (rest.takeWhile fun d => !isJsWhitespace d) ++ expandDashes false rest
      else c :: expandDashes (isJsWhitespace c) rest

def plainDash (c : Char) : Char := if isDashLike c then '-' else c

def normalizeCodexArgsInput (value : Option Text) : Option Text :=
  let raw := jsTrim (value.getD [])
  if raw.isEmpty then none
  else
    let normalized := jsTrim (raw.map plainCharacter)
    let normalized := jsTrim (stripWrappingQuotes normalized)
    let normalized := expandDashes true normalized
    let normalized := jsTrim (normalized.map plainDash)
    if normalized.isEmpty then none else some normalized

/-! ### Tokens -/

/-- `[A-Za-z0-9_./:@%+,=~-]`. -/
def isBareCharacter (c : Char) : Bool :=
  c.isAlphanum || "_./:@%+,=~-".toList.contains c

def escapeCharacter (c : Char) : Text := if c = '\\' ∨ c = '"' then ['\\', c] else [c]

def escape (token : Text) : Text := token.flatMap escapeCharacter

def needsQuotes (token : Text) : Bool := token.isEmpty || !token.all isBareCharacter

def quoteTokenIfNeeded (token : Text) : Text :=
  if needsQuotes token then '"' :: escape token ++ ['"'] else token

def joinTokens (tokens : List Text) : Option Text :=
  if tokens.isEmpty then none
  else
    let joined := jsTrim (joinWith " ".toList (tokens.map quoteTokenIfNeeded))
    if joined.isEmpty then none else some joined

/-- The tokens of a text: the quotation in force, the token being read, and the rest. -/
def tokenizeFrom : Option Char → Text → Text → List Text
  | _, current, [] => if current.isEmpty then [] else [current]
  | some quote, current, c :: rest =>
      if c = '\\' then
        match rest with
        | nextChar :: more =>
            if nextChar = quote ∨ nextChar = '\\' then
              tokenizeFrom (some quote) (current ++ [nextChar]) more
            else tokenizeFrom (some quote) (current ++ [c]) (nextChar :: more)
        | [] => [current ++ [c]]
      else if c = quote then tokenizeFrom none current rest
      else tokenizeFrom (some quote) (current ++ [c]) rest
  | none, current, c :: rest =>
      if c = '"' ∨ c = '\'' then tokenizeFrom (some c) current rest
      else if isJsWhitespace c then
        if current.isEmpty then tokenizeFrom none [] rest
        else current :: tokenizeFrom none [] rest
      else tokenizeFrom none (current ++ [c]) rest

def tokenizeArgs (rawArgs : Text) : List Text := tokenizeFrom none [] rawArgs

/-! ### Flags -/

inductive FlagCategory
  | recognized
  | ignored
  deriving DecidableEq, Repr

inductive ValueMode
  | none
  | required
  | optional
  deriving DecidableEq, Repr

structure FlagSpec where
  canonicalFlag : Text
  category : FlagCategory
  valueMode : ValueMode
  deriving DecidableEq, Repr

def registerFlags (aliases : List String) (canonicalFlag : String) (category : FlagCategory)
    (valueMode : ValueMode) : List (Text × FlagSpec) :=
  aliases.map fun name => (name.toList, ⟨canonicalFlag.toList, category, valueMode⟩)

/-- `FLAG_SPECS`. -/
def flagSpecs : List (Text × FlagSpec) :=
  registerFlags ["-c", "--config"] "--config" .recognized .required ++
  registerFlags ["--enable"] "--enable" .recognized .required ++
  registerFlags ["--disable"] "--disable" .recognized .required ++
  registerFlags ["--auth-file"] "--auth-file" .recognized .required ++
  registerFlags ["-i", "--image"] "--image" .recognized .required ++
  registerFlags ["-p", "--profile"] "--profile" .recognized .required ++
  registerFlags ["-C", "--cd"] "--cd" .recognized .required ++
  registerFlags ["--search"] "--search" .recognized .optional ++
  registerFlags ["--add-dir"] "--add-dir" .recognized .required ++
  registerFlags ["-m", "--model"] "--model" .ignored .required ++
  registerFlags ["-a", "--ask-for-approval"] "--ask-for-approval" .ignored .required ++
  registerFlags ["-s", "--sandbox"] "--sandbox" .ignored .required ++
  registerFlags ["--full-auto"] "--full-auto" .ignored .none ++
  registerFlags ["--dangerously-bypass-approvals-and-sandbox"]
    "--dangerously-bypass-approvals-and-sandbox" .ignored .none ++
  registerFlags ["--oss"] "--oss" .ignored .none ++
  registerFlags ["--local-provider"] "--local-provider" .ignored .required ++
  registerFlags ["--no-alt-screen"] "--no-alt-screen" .ignored .none

def flagSpec (flag : Text) : Option FlagSpec :=
  (flagSpecs.find? fun entry => entry.1 == flag).map (·.2)

def isFlagToken (token : Text) : Bool := token.startsWith "-".toList && decide (1 < token.length)

/-- The flag of a token and the value behind its equals sign. -/
def splitFlagToken (token : Text) : Text × Option Text :=
  if token.startsWith "-".toList then
    let flag := token.takeWhile (· ≠ '=')
    match token.dropWhile (· ≠ '=') with
    | [] => (token, none)
    | _ :: inlineValue => if flag.length ≤ 1 then (token, none) else (flag, some inlineValue)
  else (token, none)

structure ValueReading where
  value : Option Text
  consumeNext : Bool
  isValid : Bool
  deriving DecidableEq, Repr

def readFlagValue (spec : FlagSpec) (inlineValue nextToken : Option Text) : ValueReading :=
  if spec.valueMode = .none then ⟨none, false, true⟩
  else
    match inlineValue with
    | some inlineValue =>
        let normalized := jsTrim inlineValue
        let hasValue := !normalized.isEmpty
        if !hasValue && spec.valueMode = .required then ⟨none, false, false⟩
        else
          ⟨if hasValue then some normalized else none, false,
            decide (spec.valueMode = .optional) || hasValue⟩
    | none =>
        let nextValue := nextToken.filter fun next =>
          !(jsTrim next).isEmpty && !(jsTrim next).startsWith "-".toList
        match nextValue with
        | some next => ⟨some (jsTrim next), true, true⟩
        | none => ⟨none, false, decide (spec.valueMode = .optional)⟩

/-! ### Labels -/

def fallbackLabelMax : Nat := 22

def canonicalFlagLabel (canonicalFlag : Text) : Text :=
  (stripStart canonicalFlag "--".toList).getD canonicalFlag

def getTrailingPath (path : Text) (segments : Nat) : Text :=
  let normalized := path.map fun c => if c = '\\' then '/' else c
  let parts := (splitOn '/' normalized).filter fun part => !part.isEmpty
  if parts.isEmpty then path
  else joinWith "/".toList (parts.drop (parts.length - segments))

def shortened (value : Text) : Text :=
  if utf16Len value ≤ fallbackLabelMax then value
  else utf16Take (fallbackLabelMax - 3) value ++ "…".toList

def formatLabelValue (value : Text) : Text :=
  let normalized := jsTrim (stripWrappingQuotes value)
  if normalized.isEmpty then normalized
  else if containsText normalized "://".toList then shortened normalized
  else if normalized.contains '/' || normalized.contains '\\' then getTrailingPath normalized 2
  else shortened normalized

def makeRecognizedLabel (canonicalFlag : Text) (value : Option Text) : Text :=
  let label := canonicalFlagLabel canonicalFlag
  match value.filter fun value => !value.isEmpty with
  | none => label
  | some value => label ++ ":".toList ++ formatLabelValue value

/-! ### The readings of the tokens -/

/-- What one turn of the loop makes of a token. -/
inductive Reading
  | word (token : Text)
  | ignored (flag : Text) (spec : FlagSpec) (value : Option Text)
  | invalid (flag : Text)
  | recognized (flag : Text) (spec : FlagSpec) (inlineValue value : Option Text)
  deriving DecidableEq, Repr

/-- One token, and whether the next one is its value. -/
def readToken (token : Text) (nextToken : Option Text) : Reading × Bool :=
  if isFlagToken token then
    let (flag, inlineValue) := splitFlagToken token
    match flagSpec flag with
    | none => (.word token, false)
    | some spec =>
        let read := readFlagValue spec inlineValue nextToken
        if spec.category = .ignored then (.ignored flag spec read.value, read.consumeNext)
        else if read.isValid then (.recognized flag spec inlineValue read.value, read.consumeNext)
        else (.invalid flag, read.consumeNext)
  else (.word token, false)

/-- The turns of the loop; the flag says that the next token was a value. -/
def readTokens : Bool → List Text → List Reading
  | _, [] => []
  | true, _ :: tokens => readTokens false tokens
  | false, token :: tokens =>
      if token.isEmpty then readTokens false tokens
      else
        let (reading, consumeNext) := readToken token tokens.head?
        reading :: readTokens consumeNext tokens

/-- The effective tokens that a turn adds. -/
def Reading.effectiveTokens : Reading → List Text
  | .word token => [token]
  | .ignored _ _ _ => []
  | .invalid _ => []
  | .recognized flag spec inlineValue value =>
      if spec.valueMode = .none then [flag]
      else
        match inlineValue, value with
        | some _, some value =>
            if value.any isJsWhitespace then [flag, value] else [flag ++ '=' :: value]
        | none, some value => [flag, value]
        | _, none => [flag]

/-! ### Profiles -/

structure CodexArgsRecognizedSegment where
  flag : Text
  canonicalFlag : Text
  value : Option Text
  label : Text
  deriving DecidableEq, Repr

structure CodexArgsIgnoredFlag where
  flag : Text
  canonicalFlag : Text
  value : Option Text
  deriving DecidableEq, Repr

structure ParsedCodexArgsProfile where
  originalArgs : Text
  recognizedSegments : List CodexArgsRecognizedSegment
  ignoredFlags : List CodexArgsIgnoredFlag
  effectiveArgs : Option Text
  deriving DecidableEq, Repr

def Reading.segment : Reading → Option CodexArgsRecognizedSegment
  | .recognized flag spec _ value =>
      some ⟨flag, spec.canonicalFlag, value, makeRecognizedLabel spec.canonicalFlag value⟩
  | _ => none

def Reading.ignoredFlag : Reading → Option CodexArgsIgnoredFlag
  | .ignored flag spec value => some ⟨flag, spec.canonicalFlag, value⟩
  | _ => none

/-- The readings of the arguments. -/
def readingsOf (args : Option Text) : List Reading :=
  readTokens false (tokenizeArgs ((normalizeCodexArgsInput args).getD []))

/-- `effectiveTokens`, which `parseCodexArgsProfile` joins. -/
def effectiveTokensOf (args : Option Text) : List Text :=
  (readingsOf args).flatMap Reading.effectiveTokens

def parseCodexArgsProfile (args : Option Text) : ParsedCodexArgsProfile :=
  match normalizeCodexArgsInput args with
  | none => ⟨[], [], [], none⟩
  | some originalArgs =>
      { originalArgs
        recognizedSegments := (readingsOf args).filterMap Reading.segment
        ignoredFlags := (readingsOf args).filterMap Reading.ignoredFlag
        effectiveArgs := joinTokens (effectiveTokensOf args) }

def sanitizeRuntimeCodexArgs (args : Option Text) : Option Text :=
  (parseCodexArgsProfile args).effectiveArgs

/-! ### The backend -/

/-- `parse_codex_args`. -/
def parseCodexArgs (value : Option Text) : Except Text (List Text) :=
  match value.filter fun raw => !(trim raw).isEmpty with
  | none => .ok []
  | some raw =>
      match shellWords (trim raw) with
      | none => .error "Invalid Codex args: missing closing quote".toList
      | some args => .ok (args.filter fun arg => !arg.isEmpty)

example : sanitizeRuntimeCodexArgs (some "“—search —enable memory_tool”".toList) =
    some "--search --enable memory_tool".toList := by decide +kernel

end CodexMonitor.CodexArgs
