import CodexMonitor.Lib.Coalesce
import CodexMonitor.Conversation.Items

namespace CodexMonitor.Conversation

open Text

/-!
# Conversation — commands that explore

`utils/threadItems.explore.ts`: a command that only reads, lists or searches is shown as the
entries of what it looks at.

* `cleanCommandText` — the command inside a `bash -lc` and behind a `cd`.
* `tokenizeCommand`, `splitCommandSegments` — its parts.
* `parseCommandSegment` — the entries of one part.
* `summarizeCommandExecution` — the summary of a tool item.
-/

/-! ### The command -/

/-- `/^(?:\/\S+\/)?$/` -/
def isShellDirectory (dir : Text) : Bool :=
  dir.isEmpty || (3 ≤ dir.length && dir.head? = some '/' && dir.getLast? = some '/')

/-- The first word of a command names a shell, perhaps with its directory. -/
def isShellWord (word : Text) : Bool :=
  ["bash", "zsh", "sh", "fish"].any fun name => ["", ".exe"].any fun extension =>
    let base := name.toList ++ extension.toList
    endsWith word base && isShellDirectory (word.take (word.length - base.length))

/-- The text inside a pair of quotes, or else the text. -/
def unquote (text : Text) : Text :=
  match text with
  | quote :: rest =>
      if (quote = '\'' ∨ quote = '"') ∧ rest.getLast? = some quote ∧ 2 ≤ rest.length then
        rest.dropLast
      else text
  | [] => []

/-- The argument of `bash -lc`, for a trimmed command. -/
def shellArgument (trimmed : Text) : Option Text :=
  let isBare := fun c => !isJsWhitespace c
  let rest := trimmed.dropWhile isBare
  if isShellWord (trimmed.takeWhile isBare) && !rest.isEmpty then
    match stripStart (rest.dropWhile isJsWhitespace) "-lc".toList with
    | some tail =>
        let argument := tail.dropWhile isJsWhitespace
        if (tail.head?.any isJsWhitespace) && !argument.isEmpty then some (unquote argument)
        else none
    | none => none
  else none

/-- What follows a leading `cd dir &&` or `cd dir;`, or else the text. -/
def behindCd (inner : Text) : Text :=
  let text := inner.dropWhile isJsWhitespace
  let isPlain := fun c => c ≠ '&' && c ≠ ';'
  let dir := (text.drop 2).takeWhile isPlain
  if eqIgnoreAsciiCase (text.take 2) "cd".toList && dir.head?.any isJsWhitespace &&
      2 ≤ dir.length then
    match (text.drop 2).dropWhile isPlain with
    | '&' :: '&' :: rest => if rest.isEmpty then inner else rest
    | ';' :: rest => if rest.isEmpty then inner else rest
    | _ => inner
  else inner

def cleanCommandText (commandText : Text) : Text :=
  let trimmed := commandText.jsTrim
  (behindCd ((shellArgument trimmed).getD trimmed)).jsTrim

/-- One turn for each token or blank; `turns` bounds them. -/
def tokenizeFrom : Nat → Text → List Text
  | 0, _ | _, [] => []
  | turns + 1, c :: cs =>
      if isJsWhitespace c then tokenizeFrom turns cs
      else if (c = '"' ∨ c = '\'' ∨ c = Char.ofNat 96) ∧ cs.contains c then
        let value := cs.takeWhile (· ≠ c)
        let rest := tokenizeFrom turns ((cs.dropWhile (· ≠ c)).drop 1)
        if value.isEmpty then rest else value :: rest
      else
        (c :: cs).takeWhile (!isJsWhitespace ·) ::
          tokenizeFrom turns ((c :: cs).dropWhile (!isJsWhitespace ·))

def tokenizeCommand (command : Text) : List Text := tokenizeFrom command.length command

/-- The text up to a pipe that stands between blanks and outside of quotes. -/
def untilPipe (previous : Option Char) (inSingle inDouble : Bool) : Text → Text
  | [] => []
  | c :: cs =>
      if c = '\'' && !inDouble then c :: untilPipe (some c) (!inSingle) inDouble cs
      else if c = '"' && !inSingle then c :: untilPipe (some c) inSingle (!inDouble) cs
      else if c = '|' && !inSingle && !inDouble && previous.all isJsWhitespace &&
          cs.head?.all isJsWhitespace then []
      else c :: untilPipe (some c) inSingle inDouble cs

def trimAtPipe (command : Text) : Text := (untilPipe none false false command).jsTrim

/-- The pieces between `&&` and `;`. -/
def splitAtSeparators : Text → List Text
  | [] => [[]]
  | '&' :: '&' :: rest => [] :: splitAtSeparators rest
  | ';' :: rest => [] :: splitAtSeparators rest
  | c :: rest =>
      match splitAtSeparators rest with
      | [] => [[c]]
      | piece :: pieces => (c :: piece) :: pieces

/-- The blanks around a separator go with those of the trimmed segments. -/
def splitCommandSegments (command : Text) : List Text :=
  ((splitAtSeparators command).map fun segment => (trimAtPipe segment).jsTrim).filter
    fun segment => !segment.isEmpty

/-! ### Operands -/

def isOptionToken (token : Text) : Bool := token.head? = some '-'

def isAsciiAlphanumeric (c : Char) : Bool :=
  ('a' ≤ c && c ≤ 'z') || ('A' ≤ c && c ≤ 'Z') || ('0' ≤ c && c ≤ '9')

/-- `/(\.[a-z0-9]+$)|(^\.{1,2}$)/i` -/
def hasPathEnding (token : Text) : Bool :=
  let ending := token.reverse.takeWhile isAsciiAlphanumeric
  (!ending.isEmpty && (token.reverse.drop ending.length).head? = some '.') ||
    token = ".".toList || token = "..".toList

def isPathLike (token : Text) : Bool :=
  !token.isEmpty && !isOptionToken token && !token.any (fun c => "*?[]\x7b\x7d".toList.contains c) &&
    (token.any (fun c => c = '\\' || c = '/') || hasPathEnding token)

def rgFlagsWithValues : List String :=
  ["-g", "--glob", "--iglob", "-t", "--type", "--type-add", "--type-not", "-m", "--max-count",
    "-A", "-B", "-C", "--context", "--max-depth"]

/-- The tokens behind the command that are neither options nor the value of an option of `rg`. -/
def nonFlagOperands (isRg : Bool) : List Text → List Text
  | [] => []
  | token :: rest =>
      if isOptionToken token then
        if isRg && (rgFlagsWithValues.map String.toList).contains token then
          match rest with
          | [] => []
          | _ :: rest => nonFlagOperands isRg rest
        else nonFlagOperands isRg rest
      else token :: nonFlagOperands isRg rest

/-- The name of a command.  No other letter than those of ASCII is lower-cased to a letter of
    the names it is compared with. -/
def commandName (tokens : List Text) : Text := (tokens.head?.getD []).map asciiLower

def collectNonFlagOperands (tokens : List Text) (name : Text) : List Text :=
  nonFlagOperands (name = "rg".toList) (tokens.drop 1)

def findPathTokens (tokens : List Text) : List Text :=
  let positional := collectNonFlagOperands tokens (commandName tokens)
  let pathLike := positional.filter isPathLike
  if pathLike.isEmpty then positional else pathLike

/-! ### Entries -/

def parseSearch (tokens : List Text) : Option ExploreEntry :=
  if tokens.head? = some "rg".toList && tokens.contains "--files".toList then
    some ⟨.list, (findPathTokens tokens).getLast?.getD "rg --files".toList, none⟩
  else match collectNonFlagOperands tokens (commandName tokens) with
    | [] => none
    | query :: rest =>
        let path := (rest.head?.filter fun path =>
          commandName tokens = "rg".toList || isPathLike path).getD []
        let label := if path.isEmpty then query else query ++ " in ".toList ++ path
        some ⟨.search, label, none⟩

/-- The last part of a path. -/
def lastPathPart (path : Text) : Text :=
  ((path.splitOnP fun c => c = '\\' || c = '/').filter fun part => !part.isEmpty).getLast?.getD path

def readEntry (path : Text) : ExploreEntry :=
  let name := lastPathPart path
  if !name.isEmpty && name ≠ path then ⟨.read, name, some path⟩ else ⟨.read, path, none⟩

def readKey (entry : ExploreEntry) : Text :=
  match entry.detail.filter fun detail => !detail.isEmpty with
  | some detail => entry.label ++ "|".toList ++ detail
  | none => entry.label

def parseRead (tokens : List Text) : Option (List ExploreEntry) :=
  let paths := (findPathTokens tokens).filter fun path => !path.isEmpty
  if paths.isEmpty then none else some (dedupOn readKey (paths.map readEntry))

def parseList (tokens : List Text) : ExploreEntry :=
  ⟨.list, (findPathTokens tokens).getLast?.getD (tokens.head?.getD []), none⟩

def readCommands : List String := ["cat", "sed", "head", "tail", "less", "more", "nl"]

def listCommands : List String := ["ls", "tree", "find", "fd"]

def searchCommands : List String := ["rg", "grep", "ripgrep", "findstr"]

def parseCommandSegment (command : Text) : Option (List ExploreEntry) :=
  let tokens := tokenizeCommand command
  if tokens.isEmpty then none
  else
    let name := commandName tokens
    if (readCommands.map String.toList).contains name then parseRead tokens
    else if (listCommands.map String.toList).contains name then some [parseList tokens]
    else if (searchCommands.map String.toList).contains name then
      (parseSearch tokens).map fun entry => [entry]
    else none

/-- Every read once; the other entries stay. -/
def coalesceReadsFrom (seen : List Text) : List ExploreEntry → List ExploreEntry
  | [] => []
  | entry :: rest =>
      if entry.kind ≠ .read then entry :: coalesceReadsFrom seen rest
      else if readKey entry ∈ seen then coalesceReadsFrom seen rest
      else entry :: coalesceReadsFrom (readKey entry :: seen) rest

def coalesceReadEntries (entries : List ExploreEntry) : List ExploreEntry :=
  coalesceReadsFrom [] entries

/-! ### Summaries -/

/-- The status of a command contains one of the words. -/
def statusContains (words : List String) (status : Option Text) : Bool :=
  words.any fun word => containsText ((status.getD []).map asciiLower) word.toList

def normalizeCommandStatus (status : Option Text) : ExploreStatus :=
  if statusContains ["pending", "running", "processing", "started", "inprogress", "in_progress",
    "in progress", "in-progress"] status then .exploring
  else .explored

def isFailedStatus (status : Option Text) : Bool := statusContains ["fail", "error"] status

/-- The title of a command without its label. -/
def rawCommand (title : Text) : Text :=
  let label := "command:".toList
  jsTrim (if eqIgnoreAsciiCase (title.take label.length) label then title.drop label.length
    else title)

/-- The entries of all segments, if each of them explores. -/
def parseSegments : List Text → Option (List ExploreEntry)
  | [] => some []
  | segment :: rest => do
      let parsed ← parseCommandSegment segment
      let entries ← parseSegments rest
      return parsed ++ entries

def summarizeCommandExecution (tool : Tool) : Option Explore :=
  if isFailedStatus tool.status then none
  else
    let cleaned := cleanCommandText (rawCommand tool.title)
    if cleaned.isEmpty then none
    else
      let segments := splitCommandSegments cleaned
      if segments.isEmpty then none
      else match parseSegments segments with
        | none => none
        | some entries =>
            if entries.isEmpty then none
            else some ⟨normalizeCommandStatus tool.status, coalesceReadEntries entries⟩

end CodexMonitor.Conversation
