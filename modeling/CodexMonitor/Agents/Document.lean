import CodexMonitor.Lib.Text
import CodexMonitor.Lib.UnixPath
import CodexMonitor.Lib.OrderedMap
import Mathlib.Tactic.DeriveEncodable
import Mathlib.Logic.Equiv.List

namespace CodexMonitor.Agents

open OrderedMap

/-!
# Agents — roles in `config.toml`

`agents_config_core.rs` keeps the roles of the agents in the table `agents` of `config.toml`, next
to the limits `max_threads` and `max_depth`.

* `Document` — a document of `toml_edit`, as far as the code looks into it: the tables in it, and
  the tables in these.
* `normalizeAgentName`, `normalizeAgentLookupName` — the names of new roles, and of those looked up.
* `managedRelativePathFromConfig` — the file of a role, if it is in the directory `agents`.
* `planUpdate` — what an update makes of the document, before any file is touched.
-/

/-! ### Documents -/

instance encodableChar : Encodable Char := Encodable.ofLeftInverse Char.toNat Char.ofNat Char.ofNat_toNat

instance encodableText : Encodable Text := inferInstanceAs (Encodable (List Char))

/-- A value; of arrays, dates, floats and deeper tables only the text counts. -/
inductive Value
  | string (t : Text)
  | integer (n : Int)
  | boolean (b : Bool)
  | other (raw : Text)
  deriving DecidableEq, Repr, Encodable

/-- A value or a table; a table is written inline, as a value, or with a header. -/
inductive Item (α : Type)
  | value (v : Value)
  | table (isInline : Bool) (entries : List (Text × α))
  deriving DecidableEq, Repr, Encodable

/-- An entry of the table `agents`. -/
abbrev RoleItem := Item Value

abbrev Document := List (Text × Item RoleItem)

def Value.asStr : Value → Option Text
  | .string t => some t
  | _ => none

def Value.asInteger : Value → Option Int
  | .integer n => some n
  | _ => none

def Value.asBool : Value → Option Bool
  | .boolean b => some b
  | _ => none

namespace Item

variable {α : Type}

def asValue : Item α → Option Value
  | .value v => some v
  | .table _ _ => none

def asTableLike : Item α → Option (List (Text × α))
  | .value _ => none
  | .table _ entries => some entries

def isTableLike (item : Item α) : Bool := item.asTableLike.isSome

/-- A table with a header only. -/
def asTable : Item α → Option (List (Text × α))
  | .table false entries => some entries
  | _ => none

end Item

/-- `toml_edit`: the parser, with its errors, and the writer. -/
structure TomlEdit where
  parse : Text → Except Text Document
  render : Document → Text

/-- A text that does not end a line gets a line end. -/
def withNewline (t : Text) : Text := if t.getLast? = some '\n' then t else t ++ ['\n']

/-- What is written is read back, and a blank text is an empty document. -/
structure TomlEdit.Lawful (toml : TomlEdit) : Prop where
  round : ∀ document, toml.parse (withNewline (toml.render document)) = .ok document
  blank : ∀ t, t.trim = [] → toml.parse t = .ok []

/-- `parse_document` and `parse_agent_config_document`, which differ in the text of the error. -/
def parseText (toml : TomlEdit) (context contents : Text) : Except Text Document :=
  if contents.trim = [] then .ok []
  else (toml.parse contents).mapError fun err => context ++ ": ".toList ++ err

def parseDocument (toml : TomlEdit) (contents : Text) : Except Text Document :=
  parseText toml "Failed to parse config.toml".toList contents

def parseAgentConfigDocument (toml : TomlEdit) (contents : Text) : Except Text Document :=
  parseText toml "Failed to parse agent config file".toList contents

theorem parseText_render {toml : TomlEdit} (h : toml.Lawful) (context : Text)
    (document : Document) :
    parseText toml context (withNewline (toml.render document)) = .ok document := by
  unfold parseText
  split
  next hblank => rw [← h.blank _ hblank, h.round]
  next => rw [h.round]; rfl

/-- `ensure_table`: the document with the table in it, and the table. -/
def ensureTable (document : Document) (key : Text) :
    Except Text (Document × List (Text × RoleItem)) :=
  match get key document with
  | none => .ok (insert key (.table false []) document, [])
  | some item =>
      match item.asTable with
      | some entries => .ok (document, entries)
      | none => .error ("`".toList ++ key ++ "` must be a table in config.toml".toList)

/-! ### Names -/

def isReservedAgentsKey (name : Text) : Bool :=
  name == "max_threads".toList || name == "max_depth".toList

def isAsciiWhitespace (c : Char) : Bool :=
  c == ' ' || c == '\t' || c == '\n' || c == '\x0c' || c == '\r'

/-- Each run of whitespace becomes one `-`; the flag tells whether the last character was
    whitespace. -/
def joinWords (state : Text × Bool) (c : Char) : Text × Bool :=
  if isAsciiWhitespace c then
    (if !state.1.isEmpty && !state.2 then state.1 ++ ['-'] else state.1, true)
  else (state.1 ++ [c], false)

def normalizeAgentName (rawName : Text) : Except Text Text :=
  let name := ((rawName.trim.map Text.asciiLower).foldl joinWords ([], false)).1
  match name with
  | [] => .error "agent name is required".toList
  | first :: rest =>
      if name.byteLen > 32 then .error "agent name must be 32 characters or fewer".toList
      else if !first.isLower && !first.isDigit then
        .error "agent name must start with a lowercase letter or digit".toList
      else if rest.any fun c => !c.isLower && !c.isDigit && c != '_' && c != '-' then
        .error "agent name must use only lowercase letters, digits, '_' or '-'".toList
      else if isReservedAgentsKey name then .error "agent name is reserved".toList
      else .ok name

def normalizeAgentLookupName (rawName : Text) : Except Text Text :=
  if rawName.trim = [] then .error "agent name is required".toList else .ok rawName.trim

def normalizeOptionalString (raw : Option Text) : Option Text :=
  match raw with
  | none => none
  | some value => if value.trim = [] then none else some value.trim

/-- The names of roles are compared without their case. -/
def hasAgentNameConflict (agents : List (Text × RoleItem)) (name : Text)
    (excluding : Option Text) : Bool :=
  isReservedAgentsKey name || agents.any fun e =>
    !(isReservedAgentsKey e.1 || !e.2.isTableLike) && excluding != some e.1 &&
      Text.eqIgnoreAsciiCase e.1 name

theorem not_reserved_of_normalize {rawName name : Text} (h : normalizeAgentName rawName = .ok name) :
    isReservedAgentsKey name = false := by
  unfold normalizeAgentName at h
  simp only at h
  split at h
  · cases h
  · split_ifs at h
    obtain rfl := Except.ok.inj h
    simp_all

/-! ### Roles -/

abbrev Fields := List (Text × Value)

def cloneRoleTable (item : RoleItem) : Except Text Fields :=
  match item.asTableLike with
  | none => .error "agent role must be a TOML table".toList
  | some entries => .ok (entries.foldl (fun role e => insert e.1 e.2 role) [])

def readRoleField (field : Text) (item : RoleItem) : Option Text :=
  normalizeOptionalString ((item.asTableLike.bind (get field)).bind Value.asStr)

def readRoleDescription (item : RoleItem) : Option Text :=
  readRoleField "description".toList item

def readRoleConfigFile (item : RoleItem) : Option Text := readRoleField "config_file".toList item

/-! ### Managed files -/

/-- A path below `CODEX_HOME`. -/
abbrev Path := List Text

def managedAgentsDir : Text := "agents".toList

def configPath : Path := ["config.toml".toList]

def managedRelativeConfigForName (name : Text) : Path :=
  [managedAgentsDir, name ++ ".toml".toList]

def pathText (path : Path) : Text := Text.joinWith ['/'] path

def normalizeRelativePath (rawPath : Text) : Option Path :=
  let trimmed := rawPath.trim
  if trimmed = [] || UnixPath.isAbsolute trimmed then none
  else
    let normalized := UnixPath.components trimmed
    if normalized.contains "..".toList || normalized.isEmpty then none else some normalized

def managedRelativePathFromConfig (rawPath : Text) : Option Path :=
  match normalizeRelativePath rawPath with
  | some (first :: rest) => if first = managedAgentsDir then some (first :: rest) else none
  | _ => none

theorem exists_of_managed {rawPath : Text} {path : Path}
    (h : managedRelativePathFromConfig rawPath = some path) :
    ∃ rest, path = managedAgentsDir :: rest := by
  unfold managedRelativePathFromConfig at h
  split at h
  · split_ifs at h with hfirst
    exact ⟨_, by rw [← Option.some.inj h, hfirst]⟩
  · cases h

/-- The characters of a new name. -/
def isNameChar (c : Char) : Bool := c.isLower || c.isDigit || c == '_' || c == '-'

theorem nameChars_of_normalize {rawName name : Text} (h : normalizeAgentName rawName = .ok name) :
    name ≠ [] ∧ ∀ c ∈ name, isNameChar c = true := by
  unfold normalizeAgentName at h
  simp only at h
  split at h
  · cases h
  next first rest hname =>
    split_ifs at h with _ hfirst hrest
    obtain rfl := Except.ok.inj h
    rw [hname]
    refine ⟨List.cons_ne_nil _ _, fun c hc => ?_⟩
    rcases List.mem_cons.mp hc with rfl | hc
    · simp only [Bool.and_eq_true, Bool.not_eq_true', not_and_or, Bool.not_eq_false] at hfirst
      rcases hfirst with hfirst | hfirst <;> simp [isNameChar, hfirst]
    · have hgood := List.any_eq_false.mp ((Bool.not_eq_true _).mp hrest) c hc
      simp only [isNameChar]
      grind

/-- The file of a new role is managed. -/
theorem managed_of_name {rawName name : Text} (h : normalizeAgentName rawName = .ok name) :
    managedRelativePathFromConfig (pathText (managedRelativeConfigForName name)) =
      some (managedRelativeConfigForName name) := by
  obtain ⟨hne, hchars⟩ := nameChars_of_normalize h
  have hslash : ∀ piece ∈ managedRelativeConfigForName name, '/' ∉ piece := by
    intro piece hpiece
    simp only [managedRelativeConfigForName, List.mem_cons, List.not_mem_nil, or_false] at hpiece
    rcases hpiece with rfl | rfl
    · decide
    · intro hmem
      rcases List.mem_append.mp hmem with hname | htoml
      · exact absurd (hchars '/' hname) (by decide)
      · exact absurd htoml (by decide)
  have hsplit : (pathText (managedRelativeConfigForName name)).splitOn '/' =
      managedRelativeConfigForName name := Text.splitOn_joinWith (List.cons_ne_nil _ _) hslash
  have htext : pathText (managedRelativeConfigForName name) =
      'a' :: ("gents/".toList ++ name ++ ".tom".toList) ++ ['l'] := by
    simp [pathText, managedRelativeConfigForName, Text.joinWith, managedAgentsDir]
  have htrim : (pathText (managedRelativeConfigForName name)).trim =
      pathText (managedRelativeConfigForName name) := by
    rw [htext, Text.trim, Text.trimBy, Text.trimStartBy, List.cons_append,
      List.dropWhile_cons_of_neg (by decide), ← List.cons_append, Text.trimEndBy,
      List.rdropWhile_concat_neg _ _ _ (by decide)]
  have hcomponents : UnixPath.components (pathText (managedRelativeConfigForName name)) =
      managedRelativeConfigForName name := by
    rw [UnixPath.components, hsplit]
    obtain ⟨c, rest, rfl⟩ := List.exists_cons_of_ne_nil hne
    simp [managedRelativeConfigForName, managedAgentsDir]
  have hnormal : normalizeRelativePath (pathText (managedRelativeConfigForName name)) =
      some (managedRelativeConfigForName name) := by
    have hrelative : UnixPath.isAbsolute (pathText (managedRelativeConfigForName name)) = false := by
      rw [htext]
      rfl
    have hnonempty : pathText (managedRelativeConfigForName name) ≠ [] := by
      rw [htext]
      exact List.cons_ne_nil _ _
    have hup : (managedRelativeConfigForName name).contains "..".toList = false := by
      rw [← Bool.not_eq_true, List.contains_iff_mem]
      intro hmem
      simp only [managedRelativeConfigForName, List.mem_cons, List.not_mem_nil, or_false] at hmem
      rcases hmem with hagents | hfile
      · exact absurd hagents (by decide)
      · have hlength := congrArg List.length hfile
        simp at hlength
    unfold normalizeRelativePath
    simp only [htrim, hrelative, hnonempty, hcomponents, hup, decide_false, Bool.or_self,
      Bool.false_eq_true, if_false, Bool.false_or]
    rfl
  rw [managedRelativePathFromConfig, hnormal]
  simp [managedRelativeConfigForName]

/-! ### The plan of an update -/

structure UpdateAgentInput where
  originalName : Text
  name : Text
  description : Option Text
  developerInstructions : Option Text
  renameManagedFile : Option Bool
  deriving DecidableEq, Repr

/-- What an update makes of the document: the other entries of `agents`, the role, its file, and the
    file that takes its place. -/
structure UpdatePlan where
  name : Text
  document : Document
  agents : List (Text × RoleItem)
  role : Fields
  configFile : Option Text
  move : Option (Path × Path)
  deriving DecidableEq, Repr

/-- The managed file is renamed with the role. -/
def plannedMove (renameManagedFile : Bool) (originalName name : Text) (configFile : Option Text) :
    Option (Path × Path) :=
  if renameManagedFile && name != originalName then
    match configFile.bind managedRelativePathFromConfig with
    | some old =>
        if old ≠ managedRelativeConfigForName name then
          some (old, managedRelativeConfigForName name)
        else none
    | none => none
  else none

def planUpdate (input : UpdateAgentInput) (originalName name : Text) (document : Document) :
    Except Text UpdatePlan := do
  let (document, agents) ← ensureTable document managedAgentsDir
  if name ≠ originalName ∧ hasAgentNameConflict agents name (some originalName) = true then
    .error ("agent '".toList ++ name ++ "' already exists".toList)
  else
    match get originalName agents with
    | none => .error ("agent '".toList ++ originalName ++ "' not found".toList)
    | some existing =>
        let role ← cloneRoleTable existing
        let configFile := readRoleConfigFile existing
        .ok {
          name := name
          document := document
          agents := remove originalName agents
          role := role
          configFile := configFile
          move := plannedMove (input.renameManagedFile.getD true) originalName name configFile }

/-- What a plan is made of. -/
structure Planned (input : UpdateAgentInput) (originalName name : Text) (document : Document)
    (plan : UpdatePlan) (agents : List (Text × RoleItem)) (existing : RoleItem) : Prop where
  ensured : ensureTable document managedAgentsDir = .ok (plan.document, agents)
  found : get originalName agents = some existing
  cloned : cloneRoleTable existing = .ok plan.role
  named : plan.name = name
  others : plan.agents = remove originalName agents
  configFile : plan.configFile = readRoleConfigFile existing
  move : plan.move =
    plannedMove (input.renameManagedFile.getD true) originalName name plan.configFile

theorem planned_of_planUpdate {input : UpdateAgentInput} {originalName name : Text}
    {document : Document} {plan : UpdatePlan}
    (h : planUpdate input originalName name document = .ok plan) :
    ∃ agents existing, Planned input originalName name document plan agents existing := by
  unfold planUpdate at h
  cases hensured : ensureTable document managedAgentsDir with
  | error e =>
    rw [hensured] at h
    cases h
  | ok result =>
    obtain ⟨document', agents⟩ := result
    rw [hensured] at h
    change (if _ then _ else _) = _ at h
    split_ifs at h
    cases hexisting : get originalName agents with
    | none =>
      rw [hexisting] at h
      cases h
    | some existing =>
      rw [hexisting] at h
      cases hrole : cloneRoleTable existing with
      | error e =>
        simp only [hrole] at h
        cases h
      | ok role =>
        simp only [hrole] at h
        obtain rfl := Except.ok.inj h
        exact ⟨agents, existing, hensured, hexisting, hrole, rfl, rfl, rfl, rfl⟩

/-- What is moved, and where to. -/
theorem move_of_planned {renameManagedFile : Bool} {originalName name : Text}
    {configFile : Option Text} {old new : Path}
    (h : plannedMove renameManagedFile originalName name configFile = some (old, new)) :
    name ≠ originalName ∧ configFile.bind managedRelativePathFromConfig = some old ∧
      new = managedRelativeConfigForName name ∧ old ≠ new := by
  unfold plannedMove at h
  split_ifs at h with hname
  cases hold : configFile.bind managedRelativePathFromConfig with
  | none =>
    rw [hold] at h
    cases h
  | some path =>
    rw [hold] at h
    simp only at h
    split_ifs at h with hne
    obtain ⟨rfl, rfl⟩ := Prod.mk.inj (Option.some.inj h)
    refine ⟨?_, rfl, rfl, hne⟩
    simp only [Bool.and_eq_true, bne_iff_ne] at hname
    exact hname.2

namespace UpdatePlan

def nextConfigFile (plan : UpdatePlan) : Option Text :=
  match plan.move with
  | some (_, new) => some (pathText new)
  | none => plan.configFile

def setOptional (key : Text) (value : Option Text) (role : Fields) : Fields :=
  match value with
  | some t => insert key (.string t) role
  | none => remove key role

def nextRole (plan : UpdatePlan) (description : Option Text) : Fields :=
  setOptional "config_file".toList plan.nextConfigFile
    (setOptional "description".toList description plan.role)

/-- The document that is written. -/
def nextDocument (plan : UpdatePlan) (description : Option Text) : Document :=
  insert managedAgentsDir
    (.table false (insert plan.name (.table false (plan.nextRole description)) plan.agents))
    plan.document

end UpdatePlan

/-! ### Sample documents -/

/-- A writer that gives the sample documents the texts that go with them, and the other ones a text
    of their own. -/
def sampleToml (samples : List (Document × Text)) : TomlEdit where
  parse t :=
    if t.trim = [] then .ok []
    else
      match samples.find? fun s => withNewline s.2 = t with
      | some s => .ok s.1
      | none =>
          match Encodable.decode (α := Document) (t.length - 2) with
          | some document => .ok document
          | none => .error "TOML parse error".toList
  render document :=
    match samples.find? fun s => s.1 = document with
    | some s => s.2
    | none => List.replicate (Encodable.encode document + 1) '#'

/-- The texts of the samples differ, and none of them is blank or a comment only. -/
theorem sampleToml_lawful {samples : List (Document × Text)}
    (hblank : ∀ s ∈ samples, (withNewline s.2).trim ≠ [])
    (hcomment : ∀ s ∈ samples, (withNewline s.2).head? ≠ some '#')
    (hdistinct : ∀ s ∈ samples, ∀ s' ∈ samples, withNewline s.2 = withNewline s'.2 → s.1 = s'.1) :
    (sampleToml samples).Lawful := by
  constructor
  · intro document
    cases hsample : samples.find? fun s => s.1 = document with
    | some s =>
      have hmem := List.mem_of_find?_eq_some hsample
      have hdocument : s.1 = document := by simpa using List.find?_some hsample
      simp only [sampleToml, hsample]
      rw [if_neg (hblank s hmem)]
      cases hfound : samples.find? fun s' => withNewline s'.2 = withNewline s.2 with
      | none =>
        have hnone := List.find?_eq_none.mp hfound s hmem
        exact absurd (decide_eq_true rfl) hnone
      | some s' =>
        have htext : withNewline s'.2 = withNewline s.2 := by simpa using List.find?_some hfound
        simp only
        rw [hdistinct s' (List.mem_of_find?_eq_some hfound) s hmem htext, hdocument]
    | none =>
      have htext : withNewline (List.replicate (Encodable.encode document + 1) '#') =
          '#' :: (List.replicate (Encodable.encode document) '#' ++ ['\n']) := by
        rw [withNewline, if_neg (by simp [List.getLast?_replicate])]
        rfl
      have hnone : (samples.find? fun s => withNewline s.2 =
          '#' :: (List.replicate (Encodable.encode document) '#' ++ ['\n'])) = none := by
        refine List.find?_eq_none.mpr fun s hs heq => hcomment s hs ?_
        rw [of_decide_eq_true heq]
        rfl
      have htrim : Text.trim ('#' :: (List.replicate (Encodable.encode document) '#' ++ ['\n'])) ≠
          [] := by
        rw [Text.trim, Text.trimBy, Text.trimStartBy, List.dropWhile_cons_of_neg (by decide),
          Text.trimEndBy]
        intro hempty
        have hall := List.rdropWhile_eq_nil_iff.mp hempty '#' List.mem_cons_self
        exact absurd hall (by decide)
      simp only [sampleToml, hsample, htext, if_neg htrim, hnone]
      simp
  · intro t ht
    simp only [sampleToml, if_pos ht]

end CodexMonitor.Agents
