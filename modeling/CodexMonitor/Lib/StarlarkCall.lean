import CodexMonitor.Lib.Text

namespace CodexMonitor

/-!
# StarlarkCall — the concrete syntax of calls with literal arguments

The fragment of Starlark in which a call statement names its arguments and gives them as
string literals or lists of string literals.  Inside the parentheses of a call blanks and
newlines carry no meaning, so such a text is determined by its tokens.

* `StarlarkToken`, `StarlarkLexer` — the tokens, read one character at a time.
* `StarlarkLexer.lex` — the tokens of a text; `none` outside the fragment.
* `StarlarkLiteral`, `callTokens` — the arguments of a call, and what follows its opening
  parenthesis when every argument ends with a comma.
-/

inductive StarlarkToken
  | ident (name : Text)
  | str (value : Text)
  | sym (c : Char)
  deriving DecidableEq, Repr

/-- What the lexer is inside of. -/
inductive LexMode
  | idle
  | ident (name : Text)
  | string (value : Text)
  | escape (value : Text)
  | bad
  deriving DecidableEq, Repr

structure StarlarkLexer where
  tokens : List StarlarkToken := []
  mode : LexMode := .idle
  deriving DecidableEq, Repr

namespace StarlarkLexer

def isIdentStart (c : Char) : Bool := c.isAlpha || c = '_'

def isIdentChar (c : Char) : Bool := isIdentStart c || c.isDigit

def isSymbol (c : Char) : Bool := c = '(' || c = ')' || c = '[' || c = ']' || c = ',' || c = '='

/-- What a backslash and a character stand for in a string literal. -/
def unescape (c : Char) : Option Char :=
  if c = '\\' || c = '"' then some c
  else if c = 'n' then some '\n'
  else if c = 'r' then some '\r'
  else if c = 't' then some '\t'
  else none

/-- A character between tokens. -/
def stepIdle (tokens : List StarlarkToken) (c : Char) : StarlarkLexer :=
  if c = '"' then ⟨tokens, .string []⟩
  else if c = ' ' || c = '\n' then ⟨tokens, .idle⟩
  else if isSymbol c then ⟨tokens ++ [.sym c], .idle⟩
  else if isIdentStart c then ⟨tokens, .ident [c]⟩
  else ⟨tokens, .bad⟩

/-- Read one character.  In a string literal every character stands for itself, except the
    quote, the backslash and the line breaks. -/
def step (l : StarlarkLexer) (c : Char) : StarlarkLexer :=
  match l.mode with
  | .idle => stepIdle l.tokens c
  | .ident name =>
      if isIdentChar c then ⟨l.tokens, .ident (name ++ [c])⟩
      else stepIdle (l.tokens ++ [.ident name]) c
  | .string value =>
      if c = '"' then ⟨l.tokens ++ [.str value], .idle⟩
      else if c = '\\' then ⟨l.tokens, .escape value⟩
      else if c = '\n' || c = '\r' then ⟨l.tokens, .bad⟩
      else ⟨l.tokens, .string (value ++ [c])⟩
  | .escape value =>
      match unescape c with
      | some d => ⟨l.tokens, .string (value ++ [d])⟩
      | none => ⟨l.tokens, .bad⟩
  | .bad => l

/-- Read a text. -/
def run (l : StarlarkLexer) (t : Text) : StarlarkLexer := t.foldl step l

def finish (l : StarlarkLexer) : Option (List StarlarkToken) :=
  match l.mode with
  | .idle => some l.tokens
  | .ident name => some (l.tokens ++ [.ident name])
  | _ => none

/-- **The tokens of a text.** -/
def lex (t : Text) : Option (List StarlarkToken) := (run {} t).finish

theorem run_append (l : StarlarkLexer) (t u : Text) : l.run (t ++ u) = (l.run t).run u :=
  List.foldl_append

theorem run_cons (l : StarlarkLexer) (c : Char) (t : Text) : l.run (c :: t) = (l.step c).run t :=
  rfl

end StarlarkLexer

/-- A literal argument. -/
inductive StarlarkLiteral
  | str (value : Text)
  | list (items : List Text)
  deriving DecidableEq, Repr

namespace StarlarkLiteral

/-- The items of a list, separated by commas. -/
def itemTokens : List Text → List StarlarkToken
  | [] => []
  | [item] => [.str item]
  | item :: items => .str item :: .sym ',' :: itemTokens items

def tokens : StarlarkLiteral → List StarlarkToken
  | .str value => [.str value]
  | .list items => .sym '[' :: itemTokens items ++ [.sym ']']

end StarlarkLiteral

/-- The tokens after the opening parenthesis of a call. -/
def callTokens (args : List (Text × StarlarkLiteral)) : List StarlarkToken :=
  (args.flatMap fun arg => .ident arg.1 :: .sym '=' :: arg.2.tokens ++ [.sym ',']) ++ [.sym ')']

end CodexMonitor
