import CodexMonitor.Lib.Text

namespace CodexMonitor

/-!
# ShellWords — the words of a command line under the POSIX quoting rules

Word splitting as the POSIX shell does it, without expansions: blanks and newlines separate
words, a backslash quotes the next character, single quotes keep everything, double quotes
keep everything but a backslash before one of the characters it can quote, a backslash and a
newline together are a line continuation, and a `#` that begins a word starts a comment.

* `ShellReader` — the words read, the word being read, and the quoting in force.
* `ShellReader.step` — reading one character.
* `shellWords` — the words of a whole line; `none` when it ends inside a quotation or after
  a lone backslash.
-/

/-- The quoting in force at a character of a command line. -/
inductive Quoting
  | bare
  | bareEscape
  | single
  | double
  | doubleEscape
  | comment
  deriving DecidableEq, Repr

/-- A reader of command lines.  A word can be begun and still be empty, so `word` is an
    option: `some []` after an opening quote, `none` between words. -/
structure ShellReader where
  words : List Text := []
  word : Option Text := none
  quoting : Quoting := .bare
  deriving DecidableEq, Repr

namespace ShellReader

/-- The characters that separate words. -/
def isSeparator (c : Char) : Bool := c = ' ' || c = '\t' || c = '\n'

/-- The characters a backslash quotes inside double quotes. -/
def isDoubleEscapable (c : Char) : Bool := c = '$' || c.toNat = 0x60 || c = '"' || c = '\\'

/-- Add characters to the word being read, beginning one if there is none. -/
def extend (r : ShellReader) (t : Text) : ShellReader :=
  { r with word := some (r.word.getD [] ++ t) }

/-- End the word being read, if there is one. -/
def endWord (r : ShellReader) : ShellReader :=
  { r with words := r.words ++ r.word.toList, word := none }

/-- Read one character. -/
def step (r : ShellReader) (c : Char) : ShellReader :=
  match r.quoting with
  | .bare =>
      if c = '\\' then { r with quoting := .bareEscape }
      else if c = '\'' then { r.extend [] with quoting := .single }
      else if c = '"' then { r.extend [] with quoting := .double }
      else if isSeparator c then r.endWord
      else if c = '#' ∧ r.word = none then { r with quoting := .comment }
      else r.extend [c]
  | .bareEscape =>
      -- a continuation joins the lines; it neither begins nor ends a word
      if c = '\n' then { r with quoting := .bare } else { r.extend [c] with quoting := .bare }
  | .single => if c = '\'' then { r with quoting := .bare } else r.extend [c]
  | .double =>
      if c = '\\' then { r with quoting := .doubleEscape }
      else if c = '"' then { r with quoting := .bare }
      else r.extend [c]
  | .doubleEscape =>
      if c = '\n' then { r with quoting := .double }
      else if isDoubleEscapable c then { r.extend [c] with quoting := .double }
      else { r.extend ['\\', c] with quoting := .double }
  | .comment => if c = '\n' then { r with quoting := .bare } else r

/-- The words at the end of the line, if no quotation is left open. -/
def finish (r : ShellReader) : Option (List Text) :=
  match r.quoting with
  | .bare | .comment => some r.endWord.words
  | _ => none

end ShellReader

/-- **The POSIX words of a command line.** -/
def shellWords (line : Text) : Option (List Text) :=
  (line.foldl ShellReader.step {}).finish

example : shellWords "rm 'a\\b' \"c d\"".toList =
    some ["rm".toList, "a\\b".toList, "c d".toList] := by decide

end CodexMonitor
