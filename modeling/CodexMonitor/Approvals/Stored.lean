import CodexMonitor.Approvals.RulesFile
import CodexMonitor.ExecPolicy.Parser
import CodexMonitor.Lib.Accumulate
import CodexMonitor.Lib.ShellWords
import CodexMonitor.Lib.StarlarkCall

namespace CodexMonitor.Approvals

open Text ExecPolicy

/-!
# Approvals — what a remembered command becomes in the policy

The file is a Starlark program, the rule a text produced by escaping and concatenation.  Read
back, the appended text is a call with exactly the command that was formatted; that command
is the trimmed one, and it is appended only when the scanner does not take it for present.

* `lex_formatPrefixRule` — the round trip: the formatted rule is a literal call with the
  pattern it was formatted from.
* `RunsAppendedCall` — what is assumed of the evaluator.
* `StoredExactly` — the policy gains at most the rule for the command, and has it.
-/

/-! ### Reading a formatted rule back -/

/-- Escaping, character by character. -/
def escapeChar (c : Char) : Text :=
  if c = '\\' then "\\\\".toList
  else if c = '"' then "\\\"".toList
  else if c = '\n' then "\\n".toList
  else if c = '\r' then "\\r".toList
  else if c = '\t' then "\\t".toList
  else [c]

/-- The five replacements do not touch each other's results. -/
theorem escapeString_eq (t : Text) : escapeString t = t.flatMap escapeChar := by
  simp only [escapeString, replaceChar, List.flatMap_assoc]
  refine List.flatMap_congr fun c _ => ?_
  rw [escapeChar]
  split
  · next h => subst h; rfl
  split
  · next h => subst h; rfl
  split
  · next h => subst h; rfl
  split
  · next h => subst h; rfl
  split
  · next h => subst h; rfl
  · simp [*]

/-- One escaped character is read back as that character. -/
theorem run_escapeChar (tokens : List StarlarkToken) (value : Text) (c : Char) :
    StarlarkLexer.run ⟨tokens, .string value⟩ (escapeChar c) =
      ⟨tokens, .string (value ++ [c])⟩ := by
  rw [escapeChar]
  split
  · next h => subst h; rfl
  split
  · next h => subst h; rfl
  split
  · next h => subst h; rfl
  split
  · next h => subst h; rfl
  split
  · next h => subst h; rfl
  · simp [StarlarkLexer.run, StarlarkLexer.step, *]

/-- **A string literal denotes the string it was escaped from.** -/
theorem run_escapeString (tokens : List StarlarkToken) (value t : Text) :
    StarlarkLexer.run ⟨tokens, .string value⟩ (escapeString t) =
      ⟨tokens, .string (value ++ t)⟩ := by
  rw [escapeString_eq]
  -- along the string, for any value read so far
  induction t generalizing value with
  | nil => rw [List.append_nil]; rfl
  | cons c t ih =>
      rw [List.flatMap_cons, StarlarkLexer.run_append, run_escapeChar, ih, List.append_assoc]
      rfl

theorem run_quoted (tokens : List StarlarkToken) (t : Text) :
    StarlarkLexer.run ⟨tokens, .idle⟩ ('"' :: escapeString t ++ ['"']) =
      ⟨tokens ++ [.str t], .idle⟩ := by
  rw [List.cons_append, StarlarkLexer.run_cons, StarlarkLexer.run_append]
  have hOpen : StarlarkLexer.step ⟨tokens, .idle⟩ '"' = ⟨tokens, .string []⟩ := rfl
  rw [hOpen, run_escapeString]
  rfl

/-- The items of the pattern, with their separators. -/
theorem run_formatPatternList (tokens : List StarlarkToken) (pattern : List Text) :
    StarlarkLexer.run ⟨tokens, .idle⟩ (formatPatternList pattern) =
      ⟨tokens ++ StarlarkLiteral.itemTokens pattern, .idle⟩ := by
  rw [formatPatternList]
  induction pattern generalizing tokens with
  | nil => rw [StarlarkLiteral.itemTokens, List.append_nil]; rfl
  | cons item pattern ih =>
      cases pattern with
      | nil => exact run_quoted tokens item
      -- one quoted item, the separator, then the rest of the list
      | cons next rest =>
          have hJoin : joinWith ", ".toList
              ((item :: next :: rest).map fun item => '"' :: escapeString item ++ ['"']) =
              ('"' :: escapeString item ++ ['"']) ++ ", ".toList ++ joinWith ", ".toList
                ((next :: rest).map fun item => '"' :: escapeString item ++ ['"']) := rfl
          have hSep : StarlarkLexer.run ⟨tokens ++ [.str item], .idle⟩ ", ".toList =
              ⟨tokens ++ [.str item] ++ [.sym ','], .idle⟩ := rfl
          rw [hJoin, StarlarkLexer.run_append, StarlarkLexer.run_append, run_quoted, hSep, ih,
            List.append_assoc, List.append_assoc]
          rfl

/-- The arguments of a remembered rule. -/
def allowArgs (pattern : List Text) : List (Text × StarlarkLiteral) :=
  [("pattern".toList, .list pattern), ("decision".toList, .str "allow".toList)]

/-- **Round trip.**  Behind its opening parenthesis, the text of a rule is the call with that
    pattern and the decision `allow`. -/
theorem lex_formatPrefixRule (pattern : List Text) :
    ∃ body, formatPrefixRule pattern = "prefix_rule(".toList ++ body ∧
      StarlarkLexer.lex body = some (callTokens (allowArgs pattern)) := by
  refine ⟨_, rfl, ?_⟩
  have hStart : StarlarkLexer.run {} "\n    pattern = [".toList =
      ⟨[.ident "pattern".toList, .sym '=', .sym '['], .idle⟩ := by rfl
  have hEnd : ∀ tokens, StarlarkLexer.run ⟨tokens, .idle⟩
      "],\n    decision = \"allow\",\n)\n".toList =
      ⟨tokens ++ [.sym ']'] ++ [.sym ','] ++ [.ident "decision".toList] ++ [.sym '='] ++
        [.str "allow".toList] ++ [.sym ','] ++ [.sym ')'], .idle⟩ := by
    intro tokens
    rfl
  rw [StarlarkLexer.lex, StarlarkLexer.run_append, StarlarkLexer.run_append, hStart,
    run_formatPatternList, hEnd, StarlarkLexer.finish]
  simp [callTokens, allowArgs, StarlarkLiteral.tokens]

/-! ### The evaluator on a file with an appended call -/

/-- **What is assumed of the evaluator about a file**: with a blank line behind the file and
    then a `prefix_rule` call whose arguments are a literal pattern and a literal decision,
    evaluation makes the calls of the file and then that one.  Starlark runs statements in
    order, so this holds of every file that leaves `prefix_rule` bound to the builtin. -/
def RunsAppendedCall (sl : Starlark) (file : Text) : Prop :=
  ∀ calls gap body pattern decision, sl.evalModule file = .ok calls →
    (∀ c ∈ gap, c = '\n') → (file ++ gap = [] ∨ "\n\n".toList <:+ file ++ gap) →
    StarlarkLexer.lex body = some (callTokens
      [("pattern".toList, .list pattern), ("decision".toList, .str decision)]) →
    sl.evalModule (file ++ gap ++ ("prefix_rule(".toList ++ body)) =
      .ok (calls ++ [.prefixRule (pattern.map .str) (some decision) [] [] none])

/-- The pattern of a rule is exactly a command, token for token. -/
def isExactly (pattern : PrefixPattern) (command : List Text) : Prop :=
  PatternToken.single pattern.first :: pattern.rest = command.map .single

/-- An `allow` rule whose pattern is exactly the command. -/
def IsAllowRule (command : List Text) (rule : PrefixRule) : Prop :=
  rule.decision = .allow ∧ isExactly rule.pattern command

/-- The policy has an `allow` rule for exactly the command. -/
def HasAllowRule (policy : Policy) (command : List Text) : Prop :=
  ∃ entry ∈ policy.rulesByProgram, IsAllowRule command entry.2

/-- **Stored exactly**: the policy before, plus at most one rule, which is an `allow` rule
    for exactly the command; and there is such a rule. -/
def StoredExactly (before after : Policy) (command : List Text) : Prop :=
  (∃ new : List PrefixRule, new.length ≤ 1 ∧ (∀ rule ∈ new, IsAllowRule command rule) ∧
    after = before.addRules new) ∧ HasAllowRule after command

/-- The rule that a remembered command becomes. -/
def allowRule (first : Text) (rest : List Text) : PrefixRule :=
  { pattern := { first := first, rest := rest.map .single }, decision := .allow,
    justification := none }

theorem mapM_parsePatternToken (pattern : List Text) :
    (pattern.map Value.str).mapM parsePatternToken = .ok (pattern.map PatternToken.single) := by
  induction pattern with
  | nil => rfl
  | cons token pattern ih =>
      rw [List.map_cons, List.mapM_cons, ih]
      rfl

/-- **The builtin on a remembered command** adds its rule and no examples. -/
theorem evalCall_allow (env : Env) (sl : Starlark) (builder : PolicyBuilder) (first : Text)
    (rest : List Text) :
    evalCall env sl builder
        (.prefixRule ((first :: rest).map .str) (some "allow".toList) [] [] none) =
      .ok { policy := builder.policy.addRules [allowRule first rest]
            pending := builder.pending ++ [⟨[allowRule first rest], [], []⟩] } := by
  have hPattern : parsePattern ((first :: rest).map .str) =
      .ok (.single first, rest.map .single) := by
    rw [parsePattern, mapM_parsePatternToken]
    rfl
  have hDecision : parseDecision "allow".toList = .ok .allow := by rfl
  simp only [evalCall, hDecision, hPattern]
  rfl

/-- What an accepted file goes through. -/
theorem parsePolicyFile_ok {env : Env} {sl : Starlark} {start policy : Policy} {file : Text} :
    parsePolicyFile env sl start file = .ok policy ↔
      ∃ calls builder, sl.evalModule file = .ok calls ∧
        calls.foldlM (evalCall env sl) { policy := start, pending := [] } = .ok builder ∧
        forM builder.pending (validateExamples env builder.policy.hostExecutablesByName) =
          .ok () ∧ builder.policy = policy := by
  rw [parsePolicyFile]
  cases hEval : sl.evalModule file with
  | error message => simp
  | ok calls =>
      cases hBuild : calls.foldlM (evalCall env sl) { policy := start, pending := [] } with
      | error e => simp [hBuild, bind, Except.bind]
      | ok builder =>
          cases hValid : forM builder.pending
              (validateExamples env builder.policy.hostExecutablesByName) with
          | error e => simp [hBuild, hValid, bind, Except.bind]
          | ok u => simp [hBuild, hValid, bind, Except.bind]

theorem endsWith_newline (init : Text) (last : Char) :
    endsWith (init ++ [last]) ['\n'] = decide (last = '\n') := by
  rw [endsWith, Bool.eq_iff_iff, List.isSuffixOf_iff_suffix, decide_eq_true_iff]
  refine ⟨fun h => ?_, fun h => ⟨init, by rw [h]⟩⟩
  obtain ⟨front, hFront⟩ := h
  exact ((List.append_inj' hFront rfl).2 ▸ List.mem_singleton.mpr rfl : last ∈ ['\n']) |>
    List.mem_singleton.mp

theorem endsWith_append {rule : Text} (hRule : endsWith rule ['\n']) (t : Text) :
    endsWith (t ++ rule) ['\n'] :=
  List.isSuffixOf_iff_suffix.mpr
    ((List.isSuffixOf_iff_suffix.mp hRule).trans (List.suffix_append t rule))

/-- The appended rule stands behind a blank line. -/
theorem appendRuleText_eq (file : Text) {rule : Text} (hRule : endsWith rule ['\n']) :
    ∃ gap : Text, (∀ c ∈ gap, c = '\n') ∧
      (file ++ gap = [] ∨ "\n\n".toList <:+ file ++ gap) ∧
      appendRuleText file rule = file ++ gap ++ rule := by
  rcases List.eq_nil_or_concat' file with rfl | ⟨init, last, rfl⟩
  · exact ⟨[], by simp, Or.inl rfl, by simp [appendRuleText, hRule]⟩
  · by_cases hLast : last = '\n'
    · refine ⟨['\n'], by simp, Or.inr ⟨init, by simp [hLast]⟩, ?_⟩
      simpa [appendRuleText, endsWith_newline, hLast] using
        endsWith_append hRule (init ++ ['\n', '\n'])
    · refine ⟨['\n', '\n'], by simp, Or.inr ⟨init ++ [last], by simp⟩, ?_⟩
      simpa [appendRuleText, endsWith_newline, hLast] using
        endsWith_append hRule (init ++ [last, '\n', '\n'])

theorem endsWith_formatPrefixRule (pattern : List Text) :
    endsWith (formatPrefixRule pattern) ['\n'] :=
  endsWith_append (endsWith_append (by decide) _) _

/-- **Appending adds the rule**: to an accepted file, the policy of the new file is that of
    the old one with the `allow` rule of the appended command. -/
theorem parsePolicyFile_append {env : Env} {sl : Starlark} {policy : Policy} {file : Text}
    (hRuns : RunsAppendedCall sl file) (hFile : parsePolicyFile env sl .empty file = .ok policy)
    (first : Text) (rest : List Text) :
    parsePolicyFile env sl .empty (appendRuleText file (formatPrefixRule (first :: rest))) =
      .ok (policy.addRules [allowRule first rest]) := by
  obtain ⟨calls, builder, hEval, hBuild, hValid, rfl⟩ := parsePolicyFile_ok.mp hFile
  obtain ⟨body, hText, hLex⟩ := lex_formatPrefixRule (first :: rest)
  obtain ⟨gap, hGap, hBlank, hAppend⟩ :=
    appendRuleText_eq file (endsWith_formatPrefixRule (first :: rest))
  -- the evaluator sees the calls of the file, then the appended one
  have hEval' := hRuns calls gap body (first :: rest) "allow".toList hEval hGap hBlank hLex
  rw [← hText, ← hAppend] at hEval'
  refine parsePolicyFile_ok.mpr ⟨_, ⟨builder.policy.addRules [allowRule first rest],
    builder.pending ++ [⟨[allowRule first rest], [], []⟩]⟩, hEval', ?_, ?_, rfl⟩
  · rw [List.foldlM_append, hBuild]
    change (List.foldlM (evalCall env sl) builder [_]) = _
    rw [List.foldlM_cons, evalCall_allow]
    rfl
  · -- the hosts are those of the file, and the new rule has no examples to pass
    rw [List.forM_append]
    change (forM builder.pending
      (validateExamples env builder.policy.hostExecutablesByName) >>= _) = _
    rw [hValid]
    rfl

/-! ### Stored exactly, and when -/

/-- A word that the trimming leaves alone. -/
def isTrimmedWord (word : Text) : Bool := word.trim == word && !word.isEmpty

theorem trimmedWords_eq_self_iff (command : List Text) :
    trimmedWords command = command ↔ command.all isTrimmedWord := by
  induction command with
  | nil => simp [trimmedWords]
  | cons word command ih =>
      rw [List.all_cons, Bool.and_eq_true, ← ih]
      have hLength : (trimmedWords command).length ≤ command.length :=
        (List.length_filter_le _ _).trans_eq (List.length_map _)
      cases hEmpty : word.trim.isEmpty with
      | true =>
          -- a blank word is gone, so the list is too short
          have hTrimmed : isTrimmedWord word = false := by
            rw [isTrimmedWord, Bool.and_eq_false_iff]
            by_cases hSame : word.trim = word
            · exact Or.inr (by rw [hSame] at hEmpty; simp [hEmpty])
            · exact Or.inl (by simpa using hSame)
          simp only [trimmedWords, List.map_cons, List.filter_cons, hEmpty, hTrimmed]
          refine ⟨fun h => ?_, fun h => absurd h.1 Bool.false_ne_true⟩
          have := congrArg List.length h
          simp only [trimmedWords] at hLength
          simp at this
          omega
      | false =>
          have hHead : isTrimmedWord word ↔ word.trim = word := by
            rw [isTrimmedWord, Bool.and_eq_true, beq_iff_eq]
            refine ⟨And.left, fun h => ⟨h, ?_⟩⟩
            rw [← h, hEmpty]
            rfl
          simp [trimmedWords, hEmpty, hHead]

/-- **What a successful call does**: it writes the rule of the trimmed command behind the
    file, unless the scanner takes that rule for present. -/
theorem rememberApprovalRuleCore_ok {codexHome : Except Text AbsPath} {io : RulesIo}
    {command : List Text} {result : Remembered}
    (h : rememberApprovalRuleCore codexHome io command = .ok result) :
    trimmedWords command ≠ [] ∧
      result.written = if ruleAlreadyPresent io.existing (trimmedWords command) then none
        else some (appendRuleText io.existing (formatPrefixRule (trimmedWords command))) := by
  rw [rememberApprovalRuleCore] at h
  cases hEmpty : (trimmedWords command).isEmpty with
  | true =>
      rw [hEmpty] at h
      cases h
  | false =>
      refine ⟨fun hNil => by simp [hNil] at hEmpty, ?_⟩
      rw [hEmpty] at h
      -- the home, the directory and the lock are there, else the call had failed
      obtain ⟨home, _, h⟩ := bind_eq_ok h
      obtain ⟨written, hWritten, h⟩ := bind_eq_ok h
      rw [appendPrefixRule, hEmpty] at hWritten
      obtain ⟨_, _, hWritten⟩ := bind_eq_ok hWritten
      obtain ⟨_, _, hWritten⟩ := bind_eq_ok hWritten
      cases h
      split at hWritten
      · next hPresent =>
          rw [if_pos hPresent]
          cases hWritten
          rfl
      · next hAbsent =>
          rw [if_neg hAbsent]
          obtain ⟨_, _, hWritten⟩ := bind_eq_ok hWritten
          cases hWritten
          rfl

theorem isExactly_allowRule {first : Text} {rest command : List Text} :
    IsAllowRule command (allowRule first rest) ↔ first :: rest = command := by
  have hInj : Function.Injective PatternToken.single := fun _ _ h => PatternToken.single.inj h
  rw [IsAllowRule, isExactly, allowRule, ← List.map_cons, hInj.list_map.eq_iff]
  simp

theorem addRules_nil (policy : Policy) : policy.addRules [] = policy := by
  simp [Policy.addRules]

/-- Rules added at the end of a policy are determined by it. -/
theorem addRules_inj {policy : Policy} {new new' : List PrefixRule}
    (h : policy.addRules new = policy.addRules new') : new = new' := by
  have hRules := congrArg Policy.rulesByProgram h
  simp only [Policy.addRules, List.append_cancel_left_eq] at hRules
  have hInj : Function.Injective fun rule : PrefixRule => (rule.pattern.first, rule) :=
    fun _ _ h => (Prod.mk.inj h).2
  exact hInj.list_map hRules

/-- Appending the rule of `first :: rest` stores `command` exactly when they are the same. -/
theorem storedExactly_addRules_iff {policy : Policy} {first : Text} {rest command : List Text} :
    StoredExactly policy (policy.addRules [allowRule first rest]) command ↔
      first :: rest = command := by
  constructor
  · rintro ⟨⟨new, _, hNew, hAfter⟩, _⟩
    rw [← isExactly_allowRule]
    exact hNew _ (addRules_inj hAfter ▸ List.mem_singleton_self _)
  · intro hCommand
    have hAllow := isExactly_allowRule.mpr hCommand
    refine ⟨⟨[allowRule first rest], le_rfl, fun rule hRule => ?_, rfl⟩, ?_⟩
    · rwa [List.mem_singleton.mp hRule]
    · exact ⟨(first, allowRule first rest), by simp [Policy.addRules, allowRule], hAllow⟩

theorem storedExactly_self_iff {policy : Policy} {command : List Text} :
    StoredExactly policy policy command ↔ HasAllowRule policy command :=
  ⟨And.right, fun h => ⟨⟨[], Nat.zero_le 1, fun _ hMem => absurd hMem (List.not_mem_nil),
    (addRules_nil policy).symm⟩, h⟩⟩

/-- **When a remembered approval is stored exactly.**  For an accepted file, a successful call
    leaves exactly the rule of its command: if the scanner reports the trimmed command as
    present, just when the file already has the `allow` rule of the command; else just when
    trimming changed nothing. -/
theorem rememberApproval_storedExactly_iff {env : Env} {sl : Starlark} {policy : Policy}
    {codexHome : Except Text AbsPath} {io : RulesIo} {command : List Text} {result : Remembered}
    (hRuns : RunsAppendedCall sl io.existing)
    (hFile : parsePolicyFile env sl .empty io.existing = .ok policy)
    (hOk : rememberApprovalRuleCore codexHome io command = .ok result) :
    (∃ after, parsePolicyFile env sl .empty (result.contents io.existing) = .ok after ∧
        StoredExactly policy after command) ↔
      if ruleAlreadyPresent io.existing (trimmedWords command) then HasAllowRule policy command
      else command.all isTrimmedWord := by
  obtain ⟨hNonempty, hWritten⟩ := rememberApprovalRuleCore_ok hOk
  rw [Remembered.contents, hWritten]
  split
  · -- nothing is written, so the policy stays the one of the file
    rw [Option.getD_none, hFile]
    simp [storedExactly_self_iff]
  · -- the rule of the trimmed command is appended
    obtain ⟨first, rest, hWords⟩ := List.exists_cons_of_ne_nil hNonempty
    rw [Option.getD_some, hWords, parsePolicyFile_append hRuns hFile, ← trimmedWords_eq_self_iff,
      hWords, ← @storedExactly_addRules_iff policy]
    simp

/-! ### A rule stored exactly, one that is broader and one that is missing -/

/-- An item of a list literal as a value. -/
def itemValue : StarlarkToken → Option Value
  | .str item => some (.str item)
  | _ => none

/-- The call with these tokens behind its opening parenthesis. -/
def decodeCall : List StarlarkToken → Option BuiltinCall
  | .ident _ :: .sym _ :: .sym _ :: rest =>
      match rest.dropWhile (· ≠ .sym ']') with
      | [_, _, _, _, .str decision, _, _] =>
          some (.prefixRule ((rest.takeWhile (· ≠ .sym ']')).filterMap itemValue)
            (some decision) [] [] none)
      | _ => none
  | _ => none

/-- Evaluation of a file of at most one rule. -/
def evalOneRule (file : Text) : Except Text (List BuiltinCall) :=
  let text := file.dropWhile (· = '\n')
  if text.isEmpty then .ok []
  else
    match (stripStart text "prefix_rule(".toList).bind fun body =>
        (StarlarkLexer.lex body).bind decodeCall with
    | none => .error "unsupported".toList
    | some call => .ok [call]

/-- The evaluator on files of at most one rule. -/
def oneRuleStarlark : Starlark := { evalModule := evalOneRule, shlexSplit := shellWords }

/-- No item of a list literal closes it. -/
theorem itemTokens_ne_close (items : List Text) :
    ∀ token ∈ StarlarkLiteral.itemTokens items, token ≠ .sym ']' := by
  induction items using StarlarkLiteral.itemTokens.induct with
  | case1 => simp [StarlarkLiteral.itemTokens]
  | case2 item => simp [StarlarkLiteral.itemTokens]
  | case3 item items hNe ih =>
      rw [StarlarkLiteral.itemTokens]
      · simpa using ih
      · exact hNe

theorem filterMap_itemTokens (items : List Text) :
    (StarlarkLiteral.itemTokens items).filterMap itemValue = items.map .str := by
  induction items using StarlarkLiteral.itemTokens.induct with
  | case1 => rfl
  | case2 item => rfl
  | case3 item items hNe ih =>
      rw [StarlarkLiteral.itemTokens]
      · exact congrArg (Value.str item :: ·) ih
      · exact hNe

theorem decodeCall_callTokens (pattern : List Text) (decision : Text) :
    decodeCall (callTokens
        [("pattern".toList, .list pattern), ("decision".toList, .str decision)]) =
      some (.prefixRule (pattern.map .str) (some decision) [] [] none) := by
  have hTokens : callTokens
      [("pattern".toList, .list pattern), ("decision".toList, .str decision)] =
      .ident "pattern".toList :: .sym '=' :: .sym '[' ::
        (StarlarkLiteral.itemTokens pattern ++ [.sym ']', .sym ',', .ident "decision".toList,
          .sym '=', .str decision, .sym ',', .sym ')']) := by
    simp [callTokens, StarlarkLiteral.tokens]
  have hNe : ∀ token ∈ StarlarkLiteral.itemTokens pattern,
      decide (token ≠ StarlarkToken.sym ']') = true := by
    simpa using itemTokens_ne_close pattern
  rw [hTokens, decodeCall, List.dropWhile_append_of_pos hNe, List.takeWhile_append_of_pos hNe]
  simp [filterMap_itemTokens]

theorem runsAppendedCall_oneRule : RunsAppendedCall oneRuleStarlark [] := by
  intro calls gap body pattern decision hCalls hGap _ hLex
  cases hCalls
  have hDrop : ([] ++ gap ++ ("prefix_rule(".toList ++ body)).dropWhile (· = '\n') =
      "prefix_rule(".toList ++ body := by
    rw [List.nil_append, List.dropWhile_append_of_pos (by simpa using hGap)]
    rfl
  change evalOneRule _ = _
  rw [evalOneRule, hDrop, if_neg (by simp), stripStart_append, Option.bind_some, hLex,
    Option.bind_some, decodeCall_callTokens]
  rfl

/-- The file operations on a file with these contents. -/
def rulesIo (contents : Text) : RulesIo := { readToString := .ok contents }

def userHome : Except Text AbsPath := .ok ["home".toList]

/-- A commit with a quoted message. -/
def commitCommand : List Text := ["git".toList, "commit".toList, "-m \"a\\b\"".toList]

/-- The evaluation environment of the examples. -/
def noHome : Env := { homeDir := none, currentDir := none }

theorem storedExactly_commit :
    ∃ result, rememberApprovalRuleCore userHome (rulesIo []) commitCommand = .ok result ∧
      ∃ after, parsePolicyFile noHome oneRuleStarlark .empty (result.contents []) = .ok after ∧
        StoredExactly .empty after commitCommand := by
  have hOk : rememberApprovalRuleCore userHome (rulesIo []) commitCommand = .ok
      { rulesPath := ["home".toList, "rules".toList, "default.rules".toList]
        written := some (appendRuleText [] (formatPrefixRule commitCommand)) } := by rfl
  have hEmpty : parsePolicyFile noHome oneRuleStarlark .empty (rulesIo []).existing =
      .ok .empty := by rfl
  refine ⟨_, hOk, (rememberApproval_storedExactly_iff runsAppendedCall_oneRule hEmpty hOk).mpr ?_⟩
  rw [if_neg (by decide)]
  decide

/-- A file with the one rule that `rm` is allowed. -/
def rmRule : Text := formatPrefixRule ["rm".toList]

/-- **Two commands that are not stored exactly.**  Remembering `rm ""` allows every `rm`; and
    next to a rule for `rm`, a command named `r m` is reported as stored but is not. -/
theorem not_storedExactly_blank :
    (∃ result, rememberApprovalRuleCore userHome (rulesIo []) ["rm".toList, []] = .ok result ∧
      parsePolicyFile noHome oneRuleStarlark .empty [] = .ok .empty ∧
      ¬ ∃ after, parsePolicyFile noHome oneRuleStarlark .empty (result.contents []) = .ok after ∧
        StoredExactly .empty after ["rm".toList, []]) ∧
    (∃ result policy,
      rememberApprovalRuleCore userHome (rulesIo rmRule) ["r m".toList] = .ok result ∧
      parsePolicyFile noHome oneRuleStarlark .empty rmRule = .ok policy ∧
      ¬ ∃ after, parsePolicyFile noHome oneRuleStarlark .empty (result.contents rmRule) =
          .ok after ∧ StoredExactly policy after ["r m".toList]) := by
  have hEmpty : parsePolicyFile noHome oneRuleStarlark .empty [] = .ok .empty := by rfl
  have hAppended := parsePolicyFile_append runsAppendedCall_oneRule hEmpty "rm".toList []
  have hRm : parsePolicyFile noHome oneRuleStarlark .empty rmRule =
      .ok (Policy.empty.addRules [allowRule "rm".toList []]) := hAppended
  constructor
  · -- the blank word is dropped, and with it the restriction to `rm ""`
    have hOk : rememberApprovalRuleCore userHome (rulesIo []) ["rm".toList, []] = .ok
        { rulesPath := ["home".toList, "rules".toList, "default.rules".toList]
          written := some (appendRuleText [] rmRule) } := by rfl
    refine ⟨_, hOk, hEmpty, ?_⟩
    rintro ⟨after, hAfter, hStored⟩
    obtain rfl := Except.ok.inj (hAppended.symm.trans hAfter)
    exact absurd (storedExactly_addRules_iff.mp hStored) (by decide)
  · -- the scanner drops the blank of `r m` and finds the rule for `rm`
    have hOk : rememberApprovalRuleCore userHome (rulesIo rmRule) ["r m".toList] = .ok
        { rulesPath := ["home".toList, "rules".toList, "default.rules".toList]
          written := none } := by rfl
    refine ⟨_, _, hOk, hRm, ?_⟩
    rintro ⟨after, hAfter, hStored⟩
    obtain rfl := Except.ok.inj (hRm.symm.trans hAfter)
    obtain ⟨rule, hRule, hAllow⟩ := storedExactly_self_iff.mp hStored
    obtain rfl := List.mem_singleton.mp hRule
    exact absurd (isExactly_allowRule.mp hAllow) (by decide)

end CodexMonitor.Approvals
