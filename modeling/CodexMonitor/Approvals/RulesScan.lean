import CodexMonitor.Approvals.Stored

namespace CodexMonitor.Approvals

open Text

/-!
# Approvals — the scanner on a file that grows

Appending a rule makes the scanner report that rule, and does not make it miss a rule it has
reported before: the scanner works line by line, and an appended rule starts on a line of
its own.

* `ruleAlreadyPresent_append` — reported rules stay reported.
* `ruleAlreadyPresent_appended` — the appended rule is reported.
-/

/-! ### The scanner -/

/-- The scanner looks at trimmed lines. -/
theorem scanLine_stripCr (target : Text) (s : Scanner) (line : Text) :
    scanLine target s (stripCr line) = scanLine target s line := by
  simp only [scanLine, trim_stripCr]

/-- What the scanner reports in a list of lines it reports in a longer one. -/
theorem scan_append_none {target : Text} {s : Scanner} {front back : List Text}
    (h : front.foldlM (scanLine target) s = none) :
    (front ++ back).foldlM (scanLine target) s = none := by
  rw [List.foldlM_append, h]
  rfl

/-- Ending the last line does not change what the scanner reports. -/
theorem scan_terminated {target : Text} {t : Text}
    (h : (lines t).foldlM (scanLine target) {} = none) :
    ((splitOn '\n' t).map stripCr).foldlM (scanLine target) {} = none := by
  obtain ⟨pieces, last, ht⟩ : ∃ pieces last, splitOn '\n' t = pieces ++ [last] :=
    ⟨_, _, (List.dropLast_append_getLast (splitOn_ne_nil '\n' t)).symm⟩
  rw [lines_eq ht] at h
  rw [ht, List.map_append]
  by_cases hlast : last.isEmpty
  · rw [if_pos hlast, List.append_nil] at h
    exact scan_append_none h
  · rw [if_neg hlast, List.foldlM_append] at h
    rw [List.foldlM_append, ← h]
    simp only [List.map_cons, List.map_nil, List.foldlM_cons, scanLine_stripCr]

/-- **Reported rules stay reported** when text is added on new lines. -/
theorem ruleAlreadyPresent_append_newline {file : Text} {pattern : List Text}
    (h : ruleAlreadyPresent file pattern = true) (rest : Text) :
    ruleAlreadyPresent (file ++ '\n' :: rest) pattern = true := by
  simp only [ruleAlreadyPresent, Option.isNone_iff_eq_none] at h ⊢
  rw [lines_append_newline]
  exact scan_append_none (scan_terminated h)

/-- A rule is appended to a non-empty file behind a line feed. -/
theorem appendRuleText_cases (file : Text) {rule : Text} (hRule : endsWith rule ['\n']) :
    file = [] ∧ appendRuleText file rule = rule ∨
      ∃ front, appendRuleText file rule = file ++ '\n' :: (front ++ rule) ∧
        (front = [] ∨ front = ['\n']) := by
  rcases List.eq_nil_or_concat' file with rfl | ⟨init, last, rfl⟩
  · exact .inl ⟨rfl, by simp [appendRuleText, hRule]⟩
  · right
    by_cases hLast : last = '\n'
    · refine ⟨[], ?_, .inl rfl⟩
      simpa [appendRuleText, endsWith_newline, hLast] using
        endsWith_append hRule (init ++ ['\n', '\n'])
    · refine ⟨['\n'], ?_, .inr rfl⟩
      simpa [appendRuleText, endsWith_newline, hLast] using
        endsWith_append hRule (init ++ [last, '\n', '\n'])

/-- Reported rules stay reported when a rule is appended. -/
theorem ruleAlreadyPresent_append {file : Text} {pattern : List Text}
    (h : ruleAlreadyPresent file pattern = true) (other : List Text) :
    ruleAlreadyPresent (appendRuleText file (formatPrefixRule other)) pattern = true := by
  rcases appendRuleText_cases file (endsWith_formatPrefixRule other) with
    ⟨rfl, _⟩ | ⟨front, heq, _⟩
  · cases h
  · rw [heq]
    exact ruleAlreadyPresent_append_newline h _

/-- The text of the appended rule is in the file, and what was there stays. -/
theorem infix_appendRuleText (file : Text) (pattern : List Text) :
    formatPrefixRule pattern <:+: appendRuleText file (formatPrefixRule pattern) := by
  rcases appendRuleText_cases file (endsWith_formatPrefixRule pattern) with
    ⟨rfl, heq⟩ | ⟨front, heq, _⟩
  · exact heq.symm ▸ List.infix_rfl
  · rw [heq]
    exact ⟨file ++ '\n' :: front, [], by simp⟩

theorem file_infix_appendRuleText (file : Text) (pattern : List Text) :
    file <:+: appendRuleText file (formatPrefixRule pattern) := by
  rcases appendRuleText_cases file (endsWith_formatPrefixRule pattern) with
    ⟨rfl, heq⟩ | ⟨front, heq, _⟩
  · exact ⟨[], _, rfl⟩
  · rw [heq]
    exact (List.prefix_append file _).isInfix

/-! ### The appended rule -/

/-- An escaped text stays on its line. -/
theorem newline_notMem_escapeString (t : Text) : '\n' ∉ escapeString t := by
  rw [escapeString_eq, List.mem_flatMap]
  rintro ⟨c, _, hc⟩
  unfold escapeChar at hc
  split_ifs at hc with h₁ h₂ h₃ h₄ h₅
  · exact absurd hc (by decide)
  · exact absurd hc (by decide)
  · exact absurd hc (by decide)
  · exact absurd hc (by decide)
  · exact absurd hc (by decide)
  · exact h₃ (List.mem_singleton.mp hc).symm

theorem newline_notMem_formatPatternList (pattern : List Text) :
    '\n' ∉ formatPatternList pattern := by
  have hquoted : ∀ item : Text, '\n' ∉ '"' :: escapeString item ++ ['"'] := by
    intro item
    simp [newline_notMem_escapeString item]
  unfold formatPatternList
  induction pattern with
  | nil => exact List.not_mem_nil
  | cons item items ih =>
    cases items with
    | nil => exact hquoted item
    | cons next rest =>
      rw [List.map_cons, List.map_cons, joinWith, List.mem_append, List.mem_append, not_or, not_or]
      · exact ⟨⟨hquoted item, by decide⟩, ih⟩
      · intro hnil
        cases hnil

/-- The line of a rule that holds its pattern. -/
def patternLine (pattern : List Text) : Text :=
  "    pattern = [".toList ++ formatPatternList pattern ++ "],".toList

def decisionLine : Text := "    decision = \"allow\",".toList

-- The texts of a rule are only rearranged here; over variables, so that the literals are
-- compared once.

theorem rule_shape (name front list back decision close : Text) :
    name ++ (('\n' :: front) ++ list ++ (back ++ '\n' :: (decision ++ '\n' ::
        (close ++ ['\n'])))) =
      name ++ '\n' :: ((front ++ list ++ back) ++ '\n' :: (decision ++ '\n' ::
        (close ++ '\n' :: []))) := by
  simp

theorem line_shape (blank front list back : Text) (c d : Char) :
    (blank ++ c :: front) ++ list ++ (back ++ [d]) =
      blank ++ (c :: (front ++ list ++ back) ++ [d]) := by
  simp

theorem formatPrefixRule_eq (pattern : List Text) :
    formatPrefixRule pattern = "prefix_rule(".toList ++ '\n' :: (patternLine pattern ++ '\n' ::
      (decisionLine ++ '\n' :: (")".toList ++ '\n' :: []))) :=
  rule_shape "prefix_rule(".toList "    pattern = [".toList (formatPatternList pattern)
    "],".toList decisionLine ")".toList

theorem newline_notMem_patternLine (pattern : List Text) : '\n' ∉ patternLine pattern := by
  unfold patternLine
  rw [List.mem_append, List.mem_append, not_or, not_or]
  exact ⟨⟨by decide, newline_notMem_formatPatternList pattern⟩, by decide⟩

theorem stripCr_patternLine (pattern : List Text) :
    stripCr (patternLine pattern) = patternLine pattern := by
  have hcomma : "],".toList.getLast? = some ',' := rfl
  have hlast : (patternLine pattern).getLast? = some ',' := by
    unfold patternLine
    rw [List.getLast?_append, hcomma, Option.some_or]
  rw [stripCr, hlast, if_neg (by decide)]

theorem lines_formatPrefixRule (pattern : List Text) :
    lines (formatPrefixRule pattern) =
      ["prefix_rule(".toList, patternLine pattern, decisionLine, ")".toList] := by
  rw [formatPrefixRule_eq, lines_append_newline, lines_append_newline, lines_append_newline,
    lines_append_newline, splitOn_of_notMem (newline_notMem_patternLine pattern),
    List.map_singleton, stripCr_patternLine]
  rfl

/-- The pattern line without its blanks. -/
def trimmedPattern (pattern : List Text) : Text :=
  'p' :: ("attern = [".toList ++ formatPatternList pattern ++ "]".toList) ++ [',']

theorem trim_patternLine (pattern : List Text) :
    (patternLine pattern).trim = trimmedPattern pattern := by
  have heq : patternLine pattern = "    ".toList ++ trimmedPattern pattern :=
    line_shape "    ".toList "attern = [".toList (formatPatternList pattern) "]".toList 'p' ','
  rw [heq, trim, trimBy_append (List.all_eq_true.mp rfl)]
  exact trimBy_of_ends (by decide) (by decide) _

theorem lineValue_pattern (pattern : List Text) :
    lineValue (trimmedPattern pattern) = some ('[' :: formatPatternList pattern ++ [']']) := by
  have hvalue : afterEquals (trimmedPattern pattern) =
      some (" ".toList ++ ('[' :: (formatPatternList pattern ++ [']']) ++ [','])) := by
    have hmem : (trimmedPattern pattern).contains '=' = true := rfl
    rw [afterEquals, if_pos hmem]
    rfl
  rw [lineValue, hvalue, Option.map_some, trim, trimBy_append (List.all_eq_true.mp rfl),
    trimBy_of_ends (by decide) (by decide), trimEndBy,
    List.rdropWhile_concat_pos _ _ _ (by decide), ← List.cons_append,
    List.rdropWhile_concat_neg _ _ _ (by decide)]

/-- The scanner reports at the end of the rule, whatever it has seen before. -/
theorem scan_formatPrefixRule (pattern : List Text) (s : Scanner) :
    (lines (formatPrefixRule pattern)).foldlM
      (scanLine (normalizeRuleValue ('[' :: formatPatternList pattern ++ [']']))) s = none := by
  have hpattern : scanLine (normalizeRuleValue ('[' :: formatPatternList pattern ++ [']']))
      ⟨true, false, false⟩ (patternLine pattern) = some ⟨true, true, false⟩ := by
    have hnot : startsWith (trimmedPattern pattern) "prefix_rule(".toList = false := rfl
    have hstart : startsWith (trimmedPattern pattern) "pattern".toList = true := rfl
    rw [scanLine, trim_patternLine]
    simp only [hnot, hstart, lineValue_pattern, if_true, Bool.false_eq_true, if_false]
    rfl
  rw [lines_formatPrefixRule]
  simp only [List.foldlM_cons]
  have hfirst : scanLine (normalizeRuleValue ('[' :: formatPatternList pattern ++ [']'])) s
      "prefix_rule(".toList = some ⟨true, false, false⟩ := rfl
  rw [hfirst, Option.bind_eq_bind, Option.bind_some, hpattern, Option.bind_some]
  rfl

/-- **The appended rule is reported.** -/
theorem ruleAlreadyPresent_appended (file : Text) (pattern : List Text) :
    ruleAlreadyPresent (appendRuleText file (formatPrefixRule pattern)) pattern = true := by
  simp only [ruleAlreadyPresent, Option.isNone_iff_eq_none]
  have hscan : ∀ front : List Text, (front ++ lines (formatPrefixRule pattern)).foldlM
      (scanLine (normalizeRuleValue ('[' :: formatPatternList pattern ++ [']']))) {} = none := by
    intro front
    rw [List.foldlM_append]
    cases front.foldlM (scanLine _) ({} : Scanner) with
    | none => rfl
    | some s => exact scan_formatPrefixRule pattern s
  rcases appendRuleText_cases file (endsWith_formatPrefixRule pattern) with
    ⟨rfl, heq⟩ | ⟨front, heq, rfl | rfl⟩
  · rw [heq]
    exact hscan []
  · rw [heq, lines_append_newline]
    exact hscan _
  · rw [heq, lines_append_newline]
    have hblank : lines (['\n'] ++ formatPrefixRule pattern) =
        [[]] ++ lines (formatPrefixRule pattern) :=
      lines_append_newline [] (formatPrefixRule pattern)
    rw [hblank, ← List.append_assoc]
    exact hscan _

end CodexMonitor.Approvals
