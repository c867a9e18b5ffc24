import CodexMonitor.Lib.Escapes
import CodexMonitor.Lib.Lines

namespace CodexMonitor.Shared

open Text

/-!
# Shared — saved prompts

`prompts_core.rs`: a custom prompt is a file with a header for its description and the hint for
its arguments, if it has one of them, and its content behind it.  Positions in the file are
counted in characters.

* `buildPromptContents`, `parseFrontmatter` — writing and reading a file.
* `ReadsBack` — a prompt is read as it was entered, and is saved again as it is.
* `parse_build` — what is read of a header that was written.
* `readsBack_iff` — which prompts are read back.
-/

/-! ### Reading -/

def isLineBreak (c : Char) : Bool := c = '\r' || c = '\n'

/-- The line of a segment, trimmed. -/
def lineOf (segment : Text) : Text := trim (trimEndBy isLineBreak segment)

def fence : Text := "---".toList

/-- `text.split_once(separator)` -/
def splitOnce (separator : Char) (t : Text) : Option (Text × Text) :=
  match t.dropWhile fun c => c ≠ separator with
  | [] => none
  | _ :: value => some (t.takeWhile fun c => c ≠ separator, value)

/-- A value without the quotes around it. -/
def unquoted (val : Text) : Text :=
  if 2 ≤ val.length ∧
      ((val.head? = some '"' ∧ val.getLast? = some '"') ∨
        (val.head? = some '\'' ∧ val.getLast? = some '\'')) then (val.drop 1).dropLast
  else val

/-- The variables of the loop. -/
structure Frontmatter where
  description : Option Text := none
  argumentHint : Option Text := none
  consumed : Nat
  deriving DecidableEq, Repr

namespace Frontmatter

def consume (s : Frontmatter) (segment : Text) : Frontmatter :=
  { s with consumed := s.consumed + segment.length }

def set (s : Frontmatter) (key val : Text) : Frontmatter :=
  if key = "description".toList then { s with description := some val }
  else if key = "argument-hint".toList ∨ key = "argument_hint".toList then
    { s with argumentHint := some val }
  else s

def readLine (s : Frontmatter) (trimmed : Text) : Frontmatter :=
  match splitOnce ':' trimmed with
  | none => s
  | some (key, value) => s.set ((trim key).map asciiLower) (unquoted (trim value))

/-- The loop over the segments behind the first one, up to the one that closes the header. -/
def scan (s : Frontmatter) : List Text → Option Frontmatter
  | [] => none
  | segment :: rest =>
    if lineOf segment = fence then some (s.consume segment)
    else if (lineOf segment).isEmpty || startsWith (lineOf segment) "#".toList then
      scan (s.consume segment) rest
    else scan ((s.readLine (lineOf segment)).consume segment) rest

end Frontmatter

/-- The description, the hint and the content of a file. -/
def parseFrontmatter (content : Text) : Option Text × Option Text × Text :=
  match splitInclusive '\n' content with
  | [] => (none, none, [])
  | first :: segments =>
    if lineOf first ≠ fence then (none, none, content)
    else
      match Frontmatter.scan { consumed := first.length } segments with
      | none => (none, none, content)
      | some s =>
        (s.description, s.argumentHint,
          if content.length ≤ s.consumed then [] else content.drop s.consumed)

/-! ### Writing -/

def isQuote (c : Char) : Bool := c = '"'

/-- `text.replace('"', "\\\"")` -/
def escapeQuotes (t : Text) : Text := escapeWith '\\' isQuote t

def hasText (value : Option Text) : Bool := value.any fun t => !(trim t).isEmpty

/-- The line of a header for a value, if there is one. -/
def headerLine (key : Text) (value : Option Text) : Text :=
  match value with
  | none => []
  | some value =>
    if (trim value).isEmpty then []
    else key ++ ": \"".toList ++ escapeQuotes (trim value) ++ "\"\n".toList

def buildPromptContents (description argumentHint : Option Text) (content : Text) : Text :=
  if !(hasText description || hasText argumentHint) then content
  else
    "---\n".toList ++ headerLine "description".toList description ++
      headerLine "argument-hint".toList argumentHint ++ "---\n".toList ++ content

/-! ### What is wanted -/

/-- A value as it was entered: trimmed, and none if it is blank. -/
def entered (value : Option Text) : Option Text := (value.map trim).filter fun t => !t.isEmpty

/-- A prompt that is read and saved again without changes. -/
def savedAgain (file : Text) : Text :=
  buildPromptContents (parseFrontmatter file).1 (parseFrontmatter file).2.1
    (parseFrontmatter file).2.2

/-- **A prompt is read back** as it was entered, and is saved again as it is. -/
def ReadsBack (description argumentHint : Option Text) (content : Text) : Prop :=
  parseFrontmatter (buildPromptContents description argumentHint content) =
      (entered description, entered argumentHint, content) ∧
    savedAgain (buildPromptContents description argumentHint content) =
      buildPromptContents description argumentHint content

/-- The content begins with a header of its own, that is closed. -/
def hasHeader (content : Text) : Bool :=
  match splitInclusive '\n' content with
  | [] => false
  | first :: segments =>
    decide (lineOf first = fence) && segments.any fun segment => decide (lineOf segment = fence)

variable {s : Frontmatter} {t key file content : Text} {value description argumentHint : Option Text}

/-! ### Values -/

theorem entered_eq_some_iff :
    entered value = some t ↔ ∃ source, value = some source ∧ trim source = t ∧ t ≠ [] := by
  unfold entered
  rw [Option.filter_eq_some_iff, Option.map_eq_some_iff]
  constructor
  · rintro ⟨⟨source, hsource, htrim⟩, hne⟩
    refine ⟨source, hsource, htrim, ?_⟩
    rintro rfl
    exact absurd hne (by decide)
  · rintro ⟨source, hsource, htrim, hne⟩
    refine ⟨⟨source, hsource, htrim⟩, ?_⟩
    rw [Bool.not_eq_true', List.isEmpty_eq_false_iff]
    exact hne

theorem entered_entered (value : Option Text) : entered (entered value) = entered value := by
  cases h : entered value with
  | none => rfl
  | some t =>
    obtain ⟨source, -, rfl, hne⟩ := entered_eq_some_iff.mp h
    exact entered_eq_some_iff.mpr ⟨_, rfl, trimBy_trimBy _ source, hne⟩

theorem hasText_eq (value : Option Text) : hasText value = (entered value).isSome := by
  cases value with
  | none => rfl
  | some source =>
    unfold hasText entered
    rw [Option.any_some, Option.map_some]
    cases h : (trim source).isEmpty with
    | true => rw [Option.filter_some_neg (by rw [h]; decide)]; rfl
    | false => rw [Option.filter_some_pos (by rw [h]; decide)]; rfl

/-- The line for a value. -/
theorem headerLine_eq (key : Text) (value : Option Text) :
    headerLine key value = (entered value).elim [] fun t =>
      key ++ ": \"".toList ++ escapeQuotes t ++ "\"\n".toList := by
  cases value with
  | none => rfl
  | some source =>
    simp only [headerLine]
    unfold entered
    rw [Option.map_some]
    cases h : (trim source).isEmpty with
    | true => rw [Option.filter_some_neg (by rw [h]; decide)]; rfl
    | false => rw [Option.filter_some_pos (by rw [h]; decide)]; rfl

/-- A file is made from the values as they were entered. -/
theorem build_entered (description argumentHint : Option Text) (content : Text) :
    buildPromptContents (entered description) (entered argumentHint) content =
      buildPromptContents description argumentHint content := by
  unfold buildPromptContents
  rw [hasText_eq, hasText_eq, hasText_eq, hasText_eq, headerLine_eq, headerLine_eq,
    headerLine_eq _ description, headerLine_eq _ argumentHint, entered_entered, entered_entered]

theorem escapeQuotes_eq_self_iff : escapeQuotes t = t ↔ '"' ∉ t := by
  unfold escapeQuotes
  rw [escapeWith_eq_self_iff]
  constructor
  · exact fun h hmem => absurd (h '"' hmem) (by decide)
  · intro h c hc
    unfold isQuote
    rw [decide_eq_false_iff_not]
    rintro rfl
    exact h hc

theorem map_escapeQuotes_eq_iff :
    value.map escapeQuotes = value ↔ ∀ t, value = some t → '"' ∉ t := by
  cases value with
  | none => exact iff_of_true rfl nofun
  | some t =>
    rw [Option.map_some, Option.some_inj, escapeQuotes_eq_self_iff]
    exact ⟨fun h u hu => Option.some.inj hu ▸ h, fun h => h t rfl⟩

/-! ### The lines of a header -/

theorem unquoted_quotes (t : Text) : unquoted ('"' :: t ++ ['"']) = t := by
  unfold unquoted
  rw [if_pos, List.cons_append, List.drop_one, List.tail_cons, List.dropLast_concat]
  refine ⟨?_, .inl ⟨rfl, ?_⟩⟩
  · simp only [List.length_append, List.length_cons, List.length_nil]
    omega
  · exact List.getLast?_concat

theorem splitOnce_append {separator : Char} (h : separator ∉ key) (t : Text) :
    splitOnce separator (key ++ separator :: t) = some (key, t) := by
  have hkey : ∀ c ∈ key, decide (c ≠ separator) = true := by
    intro c hc
    rw [decide_eq_true_eq]
    rintro rfl
    exact h hc
  unfold splitOnce
  rw [List.dropWhile_append_of_pos hkey, List.takeWhile_append_of_pos hkey,
    List.dropWhile_cons_of_neg (by simp), List.takeWhile_cons_of_neg (by simp), List.append_nil]

/-- What the keys of a header have. -/
structure IsKey (key : Text) : Prop where
  first : ∃ c more, key = c :: more ∧ isWhitespace c = false ∧ c ≠ '#' ∧ c ≠ '-'
  colon : ':' ∉ key
  feed : '\n' ∉ key
  lower : (trim key).map asciiLower = key

theorem isKey_description : IsKey "description".toList :=
  ⟨⟨_, _, rfl, by decide⟩, by decide, by decide, by decide⟩

theorem isKey_argumentHint : IsKey "argument-hint".toList :=
  ⟨⟨_, _, rfl, by decide⟩, by decide, by decide, by decide⟩

theorem lineOf_value (hkey : IsKey key) (t : Text) :
    lineOf (key ++ ": \"".toList ++ t ++ "\"\n".toList) =
      key ++ ": \"".toList ++ t ++ ['"'] := by
  obtain ⟨c, more, rfl, hc, -, -⟩ := hkey.first
  have hsplit : (c :: more) ++ ": \"".toList ++ t ++ "\"\n".toList =
      (c :: (more ++ ": \"".toList ++ t) ++ ['"']) ++ ['\n'] := by simp
  have hline : (c :: more) ++ ": \"".toList ++ t ++ ['"'] =
      c :: (more ++ ": \"".toList ++ t) ++ ['"'] := by simp
  unfold lineOf trimEndBy
  rw [hsplit, hline, List.rdropWhile_concat_pos _ _ _ (by decide),
    List.rdropWhile_concat_neg _ _ _ (by decide)]
  exact trimBy_of_ends (by rw [hc]; exact Bool.false_ne_true) (by decide) _

namespace Frontmatter

theorem readLine_value (hkey : IsKey key) (t : Text) :
    s.readLine (key ++ ": \"".toList ++ t ++ ['"']) = s.set key t := by
  have hsplit : key ++ ": \"".toList ++ t ++ ['"'] = key ++ ':' :: (' ' :: ('"' :: t ++ ['"'])) := by
    simp
  have hblank : ∀ c ∈ [' '], isWhitespace c = true := by decide
  have hvalue : trim (' ' :: ('"' :: t ++ ['"'])) = '"' :: t ++ ['"'] := by
    have htrim : trim ([' '] ++ ('"' :: t ++ ['"'])) = trim ('"' :: t ++ ['"']) :=
      trimBy_append hblank _
    rw [List.singleton_append] at htrim
    rw [htrim]
    exact trimBy_of_ends (by decide) (by decide) t
  unfold readLine
  rw [hsplit, splitOnce_append hkey.colon]
  simp only
  rw [hkey.lower, hvalue, unquoted_quotes]

/-- What the line of a value adds. -/
def read (s : Frontmatter) (key : Text) (value : Option Text) : Frontmatter :=
  (entered value).elim s fun t => (s.set key (escapeQuotes t)).consume (headerLine key value)

/-- The line of a value is read. -/
theorem scan_headerLine (hkey : IsKey key) (hfeed : ∀ t, entered value = some t → '\n' ∉ t)
    (rest : Text) :
    s.scan (splitInclusive '\n' (headerLine key value ++ rest)) =
      (s.read key value).scan (splitInclusive '\n' rest) := by
  unfold read
  cases hvalue : entered value with
  | none =>
    rw [headerLine_eq, hvalue]
    rfl
  | some t =>
    have hline : headerLine key value = key ++ ": \"".toList ++ escapeQuotes t ++ "\"\n".toList := by
      rw [headerLine_eq, hvalue]
      rfl
    have hnone : '\n' ∉ key ++ ": \"".toList ++ escapeQuotes t ++ ['"'] := by
      have hescaped : '\n' ∉ escapeQuotes t := by
        unfold escapeQuotes
        rw [mem_escapeWith (by decide)]
        exact hfeed t hvalue
      simp [hkey.feed, hescaped]
    have hsplit : headerLine key value ++ rest =
        (key ++ ": \"".toList ++ escapeQuotes t ++ ['"']) ++ '\n' :: rest := by
      rw [hline]
      simp
    have hsegment : (key ++ ": \"".toList ++ escapeQuotes t ++ ['"']) ++ ['\n'] =
        headerLine key value := by
      rw [hline]
      simp
    obtain ⟨c, more, hcons, -, hhash, hdash⟩ := hkey.first
    have hlineOf : lineOf (headerLine key value) =
        key ++ ": \"".toList ++ escapeQuotes t ++ ['"'] := by
      rw [hline]
      exact lineOf_value hkey _
    have hfence : key ++ ": \"".toList ++ escapeQuotes t ++ ['"'] ≠ fence := by
      rw [hcons]
      intro heq
      exact hdash (List.cons.inj heq).1
    have hskip : ¬ ((key ++ ": \"".toList ++ escapeQuotes t ++ ['"']).isEmpty ||
        startsWith (key ++ ": \"".toList ++ escapeQuotes t ++ ['"']) "#".toList) = true := by
      rw [hcons]
      simp [startsWith, Ne.symm hhash]
    rw [hsplit, splitInclusive_append_sep hnone, hsegment, scan, hlineOf, if_neg hfence,
      if_neg hskip, readLine_value hkey]
    rfl

theorem set_consumed (s : Frontmatter) (key val : Text) :
    (s.set key val).consumed = s.consumed := by
  unfold set
  split
  · rfl
  · split <;> rfl

theorem read_consumed (s : Frontmatter) (key : Text) (value : Option Text) :
    (s.read key value).consumed = s.consumed + (headerLine key value).length := by
  unfold read
  cases hvalue : entered value with
  | none =>
    rw [headerLine_eq, hvalue]
    rfl
  | some t =>
    show (s.set key (escapeQuotes t)).consumed + _ = _
    rw [set_consumed]

theorem read_description (s : Frontmatter) (h : s.description = none) (value : Option Text) :
    (s.read "description".toList value).description = (entered value).map escapeQuotes ∧
      (s.read "description".toList value).argumentHint = s.argumentHint := by
  unfold read
  cases entered value with
  | none => exact ⟨h, rfl⟩
  | some t => exact ⟨rfl, rfl⟩

theorem read_argumentHint (s : Frontmatter) (h : s.argumentHint = none) (value : Option Text) :
    (s.read "argument-hint".toList value).argumentHint = (entered value).map escapeQuotes ∧
      (s.read "argument-hint".toList value).description = s.description := by
  unfold read
  cases entered value with
  | none => exact ⟨h, rfl⟩
  | some t => exact ⟨rfl, rfl⟩

/-- The loop ends at the first segment that closes the header. -/
theorem scan_isSome (segments : List Text) (s : Frontmatter) :
    (s.scan segments).isSome = segments.any fun segment => decide (lineOf segment = fence) := by
  induction segments generalizing s with
  | nil => rfl
  | cons segment rest ih =>
    rw [scan, List.any_cons]
    by_cases hfence : lineOf segment = fence
    · rw [if_pos hfence, decide_eq_true hfence]
      rfl
    · rw [if_neg hfence, decide_eq_false hfence, Bool.false_or]
      split
      · exact ih _
      · exact ih _

theorem readLine_consumed (s : Frontmatter) (line : Text) :
    (s.readLine line).consumed = s.consumed := by
  unfold readLine
  split
  · rfl
  · exact set_consumed s _ _

theorem scan_consumed {segments : List Text} {s' : Frontmatter} (h : s.scan segments = some s') :
    s.consumed ≤ s'.consumed := by
  induction segments generalizing s with
  | nil => cases h
  | cons segment rest ih =>
    rw [scan] at h
    split at h
    · rw [← Option.some.inj h]
      exact Nat.le_add_right _ _
    · split at h
      · exact (Nat.le_add_right _ _).trans (ih h)
      · rw [← readLine_consumed s (lineOf segment)]
        exact (Nat.le_add_right _ _).trans (ih h)

end Frontmatter

/-! ### The header that was written -/

theorem notMem_entered {c : Char} (h : ∀ t, value = some t → c ∉ t)
    (ht : entered value = some t) : c ∉ t := by
  obtain ⟨source, hsource, rfl, -⟩ := entered_eq_some_iff.mp ht
  intro hmem
  have hstart := (List.rdropWhile_prefix _ _).subset hmem
  exact h source hsource ((List.dropWhile_suffix _).subset hstart)

/-- **A header that was written** is read with the escapes in its values. -/
theorem parse_build (hdescription : ∀ t, description = some t → '\n' ∉ t)
    (hhint : ∀ t, argumentHint = some t → '\n' ∉ t)
    (hmeta : (hasText description || hasText argumentHint) = true) (content : Text) :
    parseFrontmatter (buildPromptContents description argumentHint content) =
      ((entered description).map escapeQuotes, (entered argumentHint).map escapeQuotes,
        content) := by
  have hfile : buildPromptContents description argumentHint content =
      fence ++ '\n' :: (headerLine "description".toList description ++
        (headerLine "argument-hint".toList argumentHint ++ (fence ++ '\n' :: content))) := by
    unfold buildPromptContents
    rw [hmeta, Bool.not_true, if_neg Bool.false_ne_true]
    simp [fence]
  have hfence : lineOf (fence ++ ['\n']) = fence := by decide +kernel
  have hnone : '\n' ∉ fence := by decide
  -- what the loop has read when it meets the second fence
  let start : Frontmatter := { consumed := (fence ++ ['\n']).length }
  let read := (start.read "description".toList description).read "argument-hint".toList argumentHint
  have hscan : start.scan (splitInclusive '\n' (headerLine "description".toList description ++
      (headerLine "argument-hint".toList argumentHint ++ (fence ++ '\n' :: content)))) =
        some (read.consume (fence ++ ['\n'])) := by
    rw [Frontmatter.scan_headerLine isKey_description fun t => notMem_entered hdescription,
      Frontmatter.scan_headerLine isKey_argumentHint fun t => notMem_entered hhint,
      splitInclusive_append_sep hnone, Frontmatter.scan, if_pos hfence]
  obtain ⟨hread, hkept⟩ := Frontmatter.read_description start rfl description
  obtain ⟨hread', hkept'⟩ := Frontmatter.read_argumentHint
    (start.read "description".toList description) hkept argumentHint
  have hconsumed : (read.consume (fence ++ ['\n'])).consumed =
      (fence ++ ['\n']).length + (headerLine "description".toList description).length +
        (headerLine "argument-hint".toList argumentHint).length + (fence ++ ['\n']).length := by
    show ((start.read _ description).read _ argumentHint).consumed + _ = _
    rw [Frontmatter.read_consumed, Frontmatter.read_consumed]
  have hheader : fence ++ '\n' :: (headerLine "description".toList description ++
      (headerLine "argument-hint".toList argumentHint ++ (fence ++ '\n' :: content))) =
        (fence ++ ['\n'] ++ headerLine "description".toList description ++
          headerLine "argument-hint".toList argumentHint ++ (fence ++ ['\n'])) ++ content := by
    simp
  unfold parseFrontmatter
  rw [hfile, splitInclusive_append_sep hnone]
  simp only [ne_eq, hfence, not_true_eq_false, if_false]
  rw [hscan]
  refine Prod.ext ?_ (Prod.ext ?_ ?_)
  · exact hkept'.trans hread
  · exact hread'
  · simp only
    rw [hconsumed, hheader]
    split
    · next hle =>
      rw [List.length_append] at hle
      have hnil : content.length = 0 := by
        simp only [List.length_append] at hle
        omega
      exact (List.length_eq_zero_iff.mp hnil).symm
    · apply List.drop_left'
      simp only [List.length_append]

/-- **A content without a header** is read as it is, and no other one. -/
theorem parse_eq_self_iff (content : Text) :
    parseFrontmatter content = (none, none, content) ↔ hasHeader content = false := by
  unfold parseFrontmatter hasHeader
  cases hsplit : splitInclusive '\n' content with
  | nil =>
    have hnil : content = [] := by
      cases content with
      | nil => rfl
      | cons c content =>
        rw [splitInclusive] at hsplit
        split at hsplit
        · cases hsplit
        · split at hsplit
          · cases hsplit
          · cases hsplit
    rw [hnil]
    exact iff_of_true rfl rfl
  | cons first segments =>
    simp only
    by_cases hfence : lineOf first = fence
    · rw [if_neg (not_not.mpr hfence), decide_eq_true hfence, Bool.true_and,
        ← Frontmatter.scan_isSome segments { consumed := first.length }]
      cases hscan : Frontmatter.scan { consumed := first.length } segments with
      | none => exact iff_of_true rfl rfl
      | some s =>
        refine iff_of_false (fun heq => ?_) Bool.noConfusion
        have hconsumed : first.length ≤ s.consumed := Frontmatter.scan_consumed hscan
        have hfirst : 0 < first.length := by
          rw [List.length_pos_iff]
          rintro rfl
          exact absurd hfence (by decide)
        have hcontent : content ≠ [] := by
          rintro rfl
          cases hsplit
        have hpos := List.length_pos_iff.mpr hcontent
        have hlen := congrArg List.length (congrArg (fun parsed => parsed.2.2) heq)
        simp only at hlen
        split at hlen
        · rw [List.length_nil] at hlen
          omega
        · rw [List.length_drop] at hlen
          omega
    · rw [if_pos hfence, decide_eq_false hfence, Bool.false_and]
      exact iff_of_true rfl rfl

/-- What was read as it was entered is saved again as it is. -/
theorem savedAgain_of_parse
    (h : parseFrontmatter (buildPromptContents description argumentHint content) =
      (entered description, entered argumentHint, content)) :
    savedAgain (buildPromptContents description argumentHint content) =
      buildPromptContents description argumentHint content := by
  unfold savedAgain
  rw [h]
  exact build_entered description argumentHint content

/-- **Which prompts are read back**: those without quotes in what was entered for the header, and
    if there is no header, those whose content does not begin with one. -/
theorem readsBack_iff (hdescription : ∀ t, description = some t → '\n' ∉ t)
    (hhint : ∀ t, argumentHint = some t → '\n' ∉ t) (content : Text) :
    ReadsBack description argumentHint content ↔
      (∀ t, entered description = some t → '"' ∉ t) ∧
      (∀ t, entered argumentHint = some t → '"' ∉ t) ∧
      (entered description = none → entered argumentHint = none → hasHeader content = false) := by
  have hreads : ReadsBack description argumentHint content ↔
      parseFrontmatter (buildPromptContents description argumentHint content) =
        (entered description, entered argumentHint, content) :=
    ⟨fun h => h.1, fun h => ⟨h, savedAgain_of_parse h⟩⟩
  rw [hreads]
  by_cases hmeta : (hasText description || hasText argumentHint) = true
  · have hsome : ¬ (entered description = none ∧ entered argumentHint = none) := by
      rintro ⟨hnone, hnone'⟩
      rw [hasText_eq, hasText_eq, hnone, hnone'] at hmeta
      cases hmeta
    rw [parse_build hdescription hhint hmeta, Prod.mk.injEq, Prod.mk.injEq,
      map_escapeQuotes_eq_iff, map_escapeQuotes_eq_iff, and_iff_left rfl]
    exact and_congr_right' (and_iff_left fun hnone hnone' => absurd ⟨hnone, hnone'⟩ hsome).symm
  · rw [hasText_eq, hasText_eq, Bool.or_eq_true, not_or, Option.not_isSome_iff_eq_none,
      Option.not_isSome_iff_eq_none] at hmeta
    obtain ⟨hnone, hnone'⟩ := hmeta
    have hfile : buildPromptContents description argumentHint content = content := by
      unfold buildPromptContents
      rw [hasText_eq, hasText_eq, hnone, hnone']
      rfl
    rw [hfile, hnone, hnone', parse_eq_self_iff]
    have hvacuous : ∀ t : Text, none = some t → '"' ∉ t := fun t ht => by cases ht
    exact ⟨fun h => ⟨hvacuous, hvacuous, fun _ _ => h⟩, fun h => h.2.2 rfl rfl⟩

theorem readsBack_review :
    ReadsBack (some " Review: #1 ".toList) none "---\nx\n---\n".toList :=
  (readsBack_iff (fun t ht => Option.some.inj ht ▸ by decide +kernel) (fun t ht => by cases ht)
    _).mpr ⟨fun t ht => Option.some.inj ht ▸ by decide +kernel, fun t ht => (by cases ht),
      fun hnone => absurd hnone (by decide +kernel)⟩

/-- **Quotes are escaped and not read back**: a backslash stands in front of each of them, and
    another one whenever the prompt is saved again; and a content that begins with a header of its
    own loses it. -/
theorem quotedDescription_changes :
    (parseFrontmatter (buildPromptContents (some "say \"hi\"".toList) none "x".toList)).1 =
        some "say \\\"hi\\\"".toList ∧
      savedAgain (buildPromptContents (some "say \"hi\"".toList) none "x".toList) ≠
        buildPromptContents (some "say \"hi\"".toList) none "x".toList ∧
      ¬ ReadsBack (some "say \"hi\"".toList) none "x".toList ∧
      parseFrontmatter (buildPromptContents none none "---\n---\nx".toList) =
        (none, none, "x".toList) := by
  have hchanged : savedAgain (buildPromptContents (some "say \"hi\"".toList) none "x".toList) ≠
      buildPromptContents (some "say \"hi\"".toList) none "x".toList := by
    decide +kernel
  exact ⟨by decide +kernel, hchanged, fun h => hchanged h.2, by decide +kernel⟩

end CodexMonitor.Shared
