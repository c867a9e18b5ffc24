import CodexMonitor.Lib.CmdWords
import CodexMonitor.Lib.Escapes
import Mathlib.Data.List.Infix

namespace CodexMonitor.Shared

open Text CmdReader

/-!
# Shared — commands for `cmd.exe`

`process_core.rs`: on Windows a script is run by `cmd /S /C`, with one text for the program and
its arguments.  Each of them is put in quotes, and some characters get a caret in front.

* `buildCmdCCommand` — the text.
* `ReadAsData` — how `cmd.exe` has to read it.
* `readAsData_iff` — it does so exactly if no text has one of the characters with a caret.
-/

/-! ### The text -/

def validateCmdToken (value : Text) : Except Text Unit :=
  if value.contains '\x00' then
    .error "Windows cmd wrapper does not support NUL bytes.".toList
  else if value.contains '\n' || value.contains '\r' then
    .error "Windows cmd wrapper does not support newline characters.".toList
  else .ok ()

/-- The characters that get a caret in front. -/
def isEscaped (c : Char) : Bool := c = '^' || c = '"' || c = '%' || c = '!'

def escapeCmdToken (value : Text) : Text :=
  value.flatMap fun c => if isEscaped c then ['^', c] else [c]

def quoteCmdToken (value : Text) : Except Text Text := do
  validateCmdToken value
  return '"' :: escapeCmdToken value ++ ['"']

def buildCmdCCommand (program : Text) (args : List Text) : Except Text Text := do
  let program ← quoteCmdToken program
  let args ← args.mapM quoteCmdToken
  return '"' :: joinWith " ".toList (program :: args) ++ ['"']

/-! ### How the text is read -/

/-- With `/S` the outer quotes are removed. -/
def withoutOuterQuotes (line : Text) : Text := (line.drop 1).dropLast

/-- The text in front of what a token is written as: the tokens before it, and its quote. -/
def beforeToken (front : List Text) : Text :=
  (front.flatMap fun token => quotation (escapeCmdToken token) ++ " ".toList) ++ ['"']

/-- **The program and its arguments are read as data**: each character of what they are written as
    is read inside of quotes, and is no quote; and the line is one command, which has them for
    its words. -/
structure ReadAsData (program : Text) (args : List Text) (line : Text) : Prop where
  inside : ∀ front token back, program :: args = front ++ token :: back →
    ∀ before c after, escapeCmdToken token = before ++ c :: after →
      c ≠ '"' ∧ ((beforeToken front ++ before).foldl CmdReader.step {}).quoted = true ∧
        ((beforeToken front ++ before).foldl CmdReader.step {}).escaped = false
  command : cmdWords (withoutOuterQuotes line) = some (program :: args)

variable {program line : Text} {args : List Text} {t : Text}

theorem quoteCmdToken_ok {quoted : Text} (h : quoteCmdToken t = .ok quoted) :
    quoted = quotation (escapeCmdToken t) := by
  unfold quoteCmdToken at h
  cases hvalid : validateCmdToken t with
  | error e =>
    rw [hvalid] at h
    cases h
  | ok u =>
    rw [hvalid] at h
    exact (Except.ok.inj h).symm

theorem mapM_quoteCmdToken {tokens quoted : List Text}
    (h : tokens.mapM quoteCmdToken = .ok quoted) :
    quoted = tokens.map fun token => quotation (escapeCmdToken token) := by
  induction tokens generalizing quoted with
  | nil => exact (Except.ok.inj h).symm
  | cons token tokens ih =>
    rw [List.mapM_cons] at h
    cases hfirst : quoteCmdToken token with
    | error e =>
      rw [hfirst] at h
      cases h
    | ok first =>
      cases hrest : tokens.mapM quoteCmdToken with
      | error e =>
        rw [hfirst, hrest] at h
        cases h
      | ok rest =>
        rw [hfirst, hrest] at h
        rw [← Except.ok.inj h, quoteCmdToken_ok hfirst, ih hrest]
        rfl

/-- The line without its outer quotes. -/
theorem withoutOuterQuotes_build (h : buildCmdCCommand program args = .ok line) :
    withoutOuterQuotes line =
      joinWith " ".toList (((program :: args).map escapeCmdToken).map quotation) := by
  unfold buildCmdCCommand at h
  cases hprogram : quoteCmdToken program with
  | error e =>
    rw [hprogram] at h
    cases h
  | ok quoted =>
    cases hargs : args.mapM quoteCmdToken with
    | error e =>
      rw [hprogram, hargs] at h
      cases h
    | ok rest =>
      rw [hprogram, hargs] at h
      rw [← Except.ok.inj h, quoteCmdToken_ok hprogram, mapM_quoteCmdToken hargs]
      unfold withoutOuterQuotes
      rw [List.cons_append, List.drop_one, List.tail_cons, List.dropLast_concat, List.map_map]
      rfl

theorem escapeCmdToken_eq (t : Text) : escapeCmdToken t = escapeWith '^' isEscaped t := rfl

theorem quote_mem_escape : '"' ∈ escapeCmdToken t ↔ '"' ∈ t := by
  rw [escapeCmdToken_eq]
  exact mem_escapeWith (by decide)

/-- **The carets are part of what is read**: a text is written as itself exactly if it has none of
    the characters that get one. -/
theorem escapeCmdToken_eq_self_iff : escapeCmdToken t = t ↔ ∀ c ∈ t, isEscaped c = false := by
  rw [escapeCmdToken_eq]
  exact escapeWith_eq_self_iff

/-- The reader inside of the quotes of a token. -/
theorem foldl_beforeToken {front : List Text} (h : ∀ token ∈ front, '"' ∉ token) {before : Text}
    (hbefore : '"' ∉ before) :
    (beforeToken front ++ before).foldl CmdReader.step {} =
      within (front.map escapeCmdToken) before := by
  unfold beforeToken
  have hquotations : (front.flatMap fun token => quotation (escapeCmdToken token) ++ " ".toList) =
      (front.map escapeCmdToken).flatMap fun token => quotation token ++ [' '] := by
    rw [List.flatMap_map]
    rfl
  have hfront : ∀ token ∈ front.map escapeCmdToken, '"' ∉ token := by
    intro token htoken
    obtain ⟨source, hsource, rfl⟩ := List.mem_map.mp htoken
    exact fun hmem => h source hsource (quote_mem_escape.mp hmem)
  have hread : ((front.map escapeCmdToken).flatMap fun token => quotation token ++ [' ']).foldl
      CmdReader.step {} = between (front.map escapeCmdToken) := foldl_quotations hfront
  rw [hquotations, List.append_assoc, List.foldl_append, hread]
  show before.foldl CmdReader.step (within (front.map escapeCmdToken) []) = _
  rw [foldl_within hbefore, List.nil_append]

/-- **When a command is safe.**  The program and its arguments are read as data if and only if none
    of them has a quote, a caret, a percent sign or an exclamation mark. -/
theorem readAsData_iff (h : buildCmdCCommand program args = .ok line) :
    ReadAsData program args line ↔ ∀ token ∈ program :: args, ∀ c ∈ token, isEscaped c = false := by
  have hwords : (∀ token ∈ program :: args, '"' ∉ token) →
      cmdWords (withoutOuterQuotes line) = some ((program :: args).map escapeCmdToken) := by
    intro hquotes
    rw [withoutOuterQuotes_build h]
    apply cmdWords_join
    · exact List.cons_ne_nil _ _
    · intro token htoken
      obtain ⟨source, hsource, rfl⟩ := List.mem_map.mp htoken
      exact fun hmem => hquotes source hsource (quote_mem_escape.mp hmem)
  constructor
  · intro hread
    -- a quote would be read as one
    have hquotes : ∀ token ∈ program :: args, '"' ∉ token := by
      intro token htoken hmem
      obtain ⟨front, back, hsplit⟩ := List.append_of_mem htoken
      obtain ⟨before, after, hescaped⟩ := List.append_of_mem (quote_mem_escape.mpr hmem)
      exact (hread.inside front token back hsplit before '"' after hescaped).1 rfl
    have hsame := Option.some.inj ((hwords hquotes).symm.trans hread.command)
    intro token htoken
    rw [← escapeCmdToken_eq_self_iff]
    have hmap : (program :: args).map escapeCmdToken = (program :: args).map id := by
      rw [hsame, List.map_id]
    exact List.map_inj_left.mp hmap token htoken
  · intro hplain
    have hescape : ∀ token ∈ program :: args, escapeCmdToken token = token :=
      fun token htoken => escapeCmdToken_eq_self_iff.mpr (hplain token htoken)
    have hquotes : ∀ token ∈ program :: args, '"' ∉ token := by
      intro token htoken hmem
      exact absurd (hplain token htoken '"' hmem) (by decide)
    refine ⟨?_, ?_⟩
    · intro front token back hsplit before c after hescaped
      have hmem : ∀ u, u ∈ front ∨ u = token → u ∈ program :: args := by
        intro u hu
        rw [hsplit]
        rcases hu with hu | rfl
        · exact List.mem_append_left _ hu
        · exact List.mem_append_right _ List.mem_cons_self
      have htoken : '"' ∉ before ++ c :: after := by
        rw [← hescaped]
        exact fun hquote => hquotes token (hmem token (.inr rfl)) (quote_mem_escape.mp hquote)
      have hbefore : '"' ∉ before := fun hquote => htoken (List.mem_append_left _ hquote)
      rw [foldl_beforeToken (fun u hu => hquotes u (hmem u (.inl hu))) hbefore]
      refine ⟨?_, rfl, rfl⟩
      rintro rfl
      exact htoken (List.mem_append_right _ List.mem_cons_self)
    · rw [hwords hquotes, List.map_congr_left hescape, List.map_id']

theorem readAsData_list :
    ReadAsData "codex.cmd".toList ["exec".toList, "a & b".toList]
      "\"\"codex.cmd\" \"exec\" \"a & b\"\"".toList :=
  (readAsData_iff (by decide +kernel)).mpr (by decide +kernel)

/-- **A quote in an argument ends its quotation**, and what follows is read as another command. -/
theorem quotedArgument_escapes :
    buildCmdCCommand "codex.cmd".toList ["a\"&calc".toList] =
        .ok "\"\"codex.cmd\" \"a^\"&calc\"\"".toList ∧
      (withoutOuterQuotes "\"\"codex.cmd\" \"a^\"&calc\"\"".toList).take 16 =
        "\"codex.cmd\" \"a^\"".toList ∧
      (("\"codex.cmd\" \"a^\"".toList).foldl CmdReader.step {}).quoted = false ∧
      cmdWords (withoutOuterQuotes "\"\"codex.cmd\" \"a^\"&calc\"\"".toList) = none ∧
      ¬ ReadAsData "codex.cmd".toList ["a\"&calc".toList]
        "\"\"codex.cmd\" \"a^\"&calc\"\"".toList := by
  have hnone : cmdWords (withoutOuterQuotes "\"\"codex.cmd\" \"a^\"&calc\"\"".toList) = none := by
    decide +kernel
  refine ⟨by decide +kernel, by decide +kernel, by decide +kernel, hnone, ?_⟩
  intro hread
  have hcommand := hread.command
  rw [hnone] at hcommand
  cases hcommand

end CodexMonitor.Shared
