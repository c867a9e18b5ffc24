import Mathlib
import CodexMonitor.Lib.Disk
import CodexMonitor.Lib.Faulty
import CodexMonitor.Agents.Document

namespace CodexMonitor.Agents

open OrderedMap

/-!
# Agents — creating, updating and deleting a role

The operations of `agents_config_core.rs` on `config.toml` and on the files of the roles, with what
they call of `config_toml_core.rs` and of `files/io.rs`.

* `Call`, `Damage` — the calls on files, each with the place in the code that makes it, and what a
  call that fails leaves.
* `createAgentCore`, `updateAgentCore`, `deleteAgentCore` — the operations.
* `getAgentsSettingsCore` — the settings that every operation returns at its end.

Paths are taken from `CODEX_HOME`, which is resolved; links lead out of it.  `exists` reports
what is on the disk.
-/

abbrev Home := Disk Text ByteArray

/-! ### Calls -/

/-- The places in the code. -/
inductive Step
  | load
  | oldPath
  | newPath
  | move
  | targetPath
  | create
  | instructions
  | delete
  | persist
  | undo
  | reload
  deriving DecidableEq, Repr

/-- The links of a path are looked up twice before a write. -/
inductive FileOp
  | canonicalize
  | symlinkMetadata (again : Bool)
  | open
  | read
  | createDirAll
  | write
  | rename
  | removeFile
  deriving DecidableEq, Repr

structure Call where
  step : Step
  op : FileOp
  path : Path
  deriving DecidableEq, Repr

/-- The error of a call that fails, and what a write leaves in the file: nothing was written, or
    something else than what was to be written. -/
structure Damage where
  error : Text
  left : Option ByteArray

abbrev FileProg := Faulty Call Damage Home Text

abbrev FileFault := Fault Call Damage

def ioErrorText : IoError → Text
  | .notFound => "No such file or directory (os error 2)".toList
  | .alreadyExists => "File exists (os error 17)".toList
  | .notADirectory => "Not a directory (os error 20)".toList
  | .isADirectory => "Is a directory (os error 21)".toList
  | .invalidInput => "Invalid argument (os error 22)".toList
  | .other => "Input/output error (os error 5)".toList

def describe (context err : Text) : Text := context ++ ": ".toList ++ err

/-- What a failed call leaves on the disk. -/
def Damage.spoil (damage : Damage) (op : FileOp) (path : Path) (d : Home) : Home :=
  match op, damage.left with
  | .write, some bytes => (d.writeFile path bytes).toOption.getD d
  | _, _ => d

/-- A call; its error is described by `context`. -/
def fileCall {α : Type} (step : Step) (op : FileOp) (path : Path) (context : Text)
    (act : Home → Except IoError (α × Home)) : FileProg α :=
  Faulty.call ⟨step, op, path⟩ (fun d => (act d).mapError fun err => describe context (ioErrorText err))
    fun damage d => (describe context damage.error, damage.spoil op path d)

def ofExcept {α : Type} : Except Text α → FileProg α
  | .ok a => pure a
  | .error e => Faulty.fail e

def pathExists (path : Path) : FileProg Bool := Faulty.query (·.present path)

def canonicalize (step : Step) (path : Path) (context : Text) : FileProg Unit :=
  fileCall step .canonicalize path context fun d =>
    if d.present path then .ok ((), d) else .error .notFound

/-- What stands at the path; `none` if nothing does. -/
def symlinkMetadata (step : Step) (again : Bool) (path : Path) (context : Text) :
    FileProg (Option (Node ByteArray)) :=
  fileCall step (.symlinkMetadata again) path context fun d =>
    match d.node path with
    | some node => .ok (some node, d)
    | none => if (d.file path.dropLast).isSome then .error .notADirectory else .ok (none, d)

def createDirAll (step : Step) (path : Path) (context : Text) : FileProg Unit :=
  fileCall step .createDirAll path context fun d => (d.createDirAll path).map ((), ·)

/-- A directory can be opened, but not read. -/
def openFile (step : Step) (path : Path) (context : Text) : FileProg Unit :=
  fileCall step .open path context fun d =>
    if d.present path then .ok ((), d) else .error .notFound

def readFile (step : Step) (path : Path) (context : Text) : FileProg ByteArray :=
  fileCall step .read path context fun d =>
    match d.file path with
    | some bytes => .ok (bytes, d)
    | none => .error (if d.isDir path then .isADirectory else .notFound)

def writeFile (step : Step) (path : Path) (bytes : ByteArray) (context : Text) : FileProg Unit :=
  fileCall step .write path context fun d => (d.writeFile path bytes).map ((), ·)

def renameFile (step : Step) (old new : Path) (context : Text) : FileProg Unit :=
  fileCall step .rename old context fun d => (d.rename old new).map ((), ·)

def removeFile (step : Step) (path : Path) (context : Text) : FileProg Unit :=
  fileCall step .removeFile path context fun d => (d.removeFile path).map ((), ·)

def decodeUtf8 (bytes : ByteArray) : Option Text := bytes.utf8Decode?.map Array.toList

def encodeUtf8 (t : Text) : ByteArray := (String.ofList t).toByteArray

theorem decode_encode (t : Text) : decodeUtf8 (encodeUtf8 t) = some t := by
  show (List.utf8Encode t).utf8Decode?.map Array.toList = some t
  rw [List.utf8Decode?_utf8Encode]
  rfl

/-! ### The document -/

section Operations

variable (toml : TomlEdit)

/-- `read_text_file_within`, under the policy of the global `config.toml`. -/
def readTextFileWithin (step : Step) : FileProg (Option Text) := do
  if !(← pathExists []) then
    pure none
  else
    canonicalize step [] "Failed to resolve CODEX_HOME".toList
    if !(← Faulty.query (·.isDir [])) then
      Faulty.fail "CODEX_HOME is not a directory".toList
    else if !(← pathExists configPath) then
      pure none
    else
      let metadata ← symlinkMetadata step false configPath "Failed to open config.toml".toList
      canonicalize step configPath "Failed to open config.toml".toList
      if metadata = some .link then
        Faulty.fail "Invalid config.toml path".toList
      else
        openFile step configPath "Failed to open config.toml".toList
        let bytes ← readFile step configPath "Failed to read config.toml".toList
        match decodeUtf8 bytes with
        | some content => pure (some content)
        | none => Faulty.fail "config.toml is not valid UTF-8".toList

/-- `write_text_file_within`, under the same policy. -/
def writeTextFileWithin (step : Step) (content : Text) : FileProg Unit := do
  createDirAll step [] "Failed to create CODEX_HOME".toList
  canonicalize step [] "Failed to resolve CODEX_HOME".toList
  if !(← Faulty.query (·.isDir [])) then
    Faulty.fail "CODEX_HOME is not a directory".toList
  else
    if ← pathExists configPath then
      let metadata ← symlinkMetadata step false configPath "Failed to resolve config.toml".toList
      canonicalize step configPath "Failed to resolve config.toml".toList
      if metadata = some .link then
        Faulty.fail "Invalid config.toml path".toList
      else
        writeFile step configPath (encodeUtf8 content) "Failed to write config.toml".toList
    else
      writeFile step configPath (encodeUtf8 content) "Failed to write config.toml".toList

def loadGlobalConfigDocument (step : Step) : FileProg (Bool × Document) := do
  match ← readTextFileWithin step with
  | some content => return (true, ← ofExcept (parseDocument toml content))
  | none => return (false, [])

def persistGlobalConfigDocument (document : Document) : FileProg Unit :=
  writeTextFileWithin .persist (withNewline (toml.render document))

/-! ### The files of the roles -/

variable (home : Text)

def displayPath (path : Path) : Text := pathText (home :: path)

/-- The components of the path one by one, as far as they exist. -/
def checkComponents (step : Step) (again : Bool) (current : Path) : List Text → FileProg Unit
  | [] => pure ()
  | component :: rest => do
      let current := current ++ [component]
      match ← symlinkMetadata step again current
        ("Failed to validate managed agent path ".toList ++ displayPath home current) with
      | none => pure ()
      | some .link =>
          Faulty.fail ("Managed agent config path may not contain symlinks: ".toList ++
            displayPath home current)
      | some _ => checkComponents step again current rest

def assertManagedPathWithoutSymlinks (step : Step) (again : Bool) (path : Path) : FileProg Unit :=
  checkComponents home step again [] path

def resolveSafeManagedAbsPathForRead (step : Step) (path : Path) : FileProg Path := do
  assertManagedPathWithoutSymlinks home step false path
  return path

def resolveSafeManagedAbsPathForWrite (step : Step) (path : Path) : FileProg Path := do
  assertManagedPathWithoutSymlinks home step false path
  createDirAll step path.dropLast "Failed to create agents directory".toList
  assertManagedPathWithoutSymlinks home step true path
  return path

def developerInstructionsKey : Text := "developer_instructions".toList

/-- What is written to the file of a role, from what is in it. -/
def upsertedContent (previous : Option ByteArray) (developerInstructions : Option Text) :
    Except Text ByteArray := do
  let existing ← match previous with
    | none => .ok []
    | some bytes =>
        match decodeUtf8 bytes with
        | some t => .ok t
        | none => .error "Agent config file is not valid UTF-8".toList
  let document ← parseAgentConfigDocument toml existing
  let document := match normalizeOptionalString developerInstructions with
    | some t => insert developerInstructionsKey (.value (.string t)) document
    | none => remove developerInstructionsKey document
  .ok (encodeUtf8 (withNewline (toml.render document)))

def readPrevious (path : Path) : FileProg (Option ByteArray) := do
  if ← pathExists path then
    let bytes ← readFile .instructions path
      "Failed to read agent config file before update".toList
    return some bytes
  else
    return none

def upsertDeveloperInstructionsInAgentConfigFile (path : Path)
    (developerInstructions : Option Text) : FileProg (Option ByteArray) := do
  createDirAll .instructions path.dropLast "Failed to create agents directory".toList
  let previous ← readPrevious path
  let rendered ← ofExcept (upsertedContent toml previous developerInstructions)
  writeFile .instructions path rendered "Failed to update agent config file".toList
  return previous

def buildTemplateContent (model reasoningEffort developerInstructions : Option Text) : Text :=
  let model := (normalizeOptionalString model).getD "gpt-5-codex".toList
  let reasoningEffort := (normalizeOptionalString reasoningEffort).getD "medium".toList
  let overrides : Document := [("model".toList, .value (.string model))]
  let overrides :=
    if reasoningEffort = [] then overrides
    else insert "model_reasoning_effort".toList (.value (.string reasoningEffort)) overrides
  let overrides := match normalizeOptionalString developerInstructions with
    | some t => insert developerInstructionsKey (.value (.string t)) overrides
    | none => overrides
  "# Agent-specific overrides\n".toList ++ toml.render overrides ++ ['\n']

/-! ### The settings -/

structure AgentSummaryDto where
  name : Text
  description : Option Text
  developerInstructions : Option Text
  configFile : Text
  resolvedPath : Text
  managedByApp : Bool
  fileExists : Bool
  deriving DecidableEq, Repr

structure AgentsSettingsDto where
  configPath : Text
  multiAgentEnabled : Bool
  maxThreads : Nat
  maxDepth : Nat
  agents : List AgentSummaryDto
  deriving DecidableEq, Repr

/-- The entries of the table under the key. -/
def tableEntries (key : Text) (document : Document) : List (Text × RoleItem) :=
  ((get key document).bind Item.asTableLike).getD []

def readFeatureFlag (document : Document) (key : Text) : Option Bool :=
  ((get key (tableEntries "features".toList document)).bind Item.asValue).bind Value.asBool

/-- A limit of the table `agents`, or its default if it is missing or out of range. -/
def readLimit (document : Document) (key : Text) (default upper : Nat) : Nat :=
  match ((get key (tableEntries managedAgentsDir document)).bind Item.asValue).bind
      Value.asInteger with
  | some raw => if 1 ≤ raw ∧ raw ≤ upper then raw.toNat else default
  | none => default

def readMaxThreads (document : Document) : Nat := readLimit document "max_threads".toList 6 12

def readMaxDepth (document : Document) : Nat := readLimit document "max_depth".toList 1 4

/-- What cannot be read is left out. -/
def readRoleDeveloperInstructions (d : Home) (configFile : Text) : Option Text := do
  let path ← managedRelativePathFromConfig configFile
  let bytes ← d.file path
  let contents ← decodeUtf8 bytes
  let document ← (parseAgentConfigDocument toml contents).toOption
  let item ← get developerInstructionsKey document
  normalizeOptionalString (item.asValue.bind Value.asStr)

/-- The path that is displayed, and whether a file is there; outside `CODEX_HOME` this is
    `outside`. -/
def resolveConfigFilePathForDisplay (outside : Text → Bool) (d : Home) (rawValue : Text) :
    Option (Text × Bool) :=
  let trimmed := rawValue.trim
  if trimmed = [] then none
  else if UnixPath.isAbsolute trimmed then some (trimmed, outside trimmed)
  else (normalizeRelativePath rawValue).map fun path =>
    (displayPath home path, (d.file path).isSome)

def collectAgents (outside : Text → Bool) (d : Home) (document : Document) :
    List AgentSummaryDto :=
  (tableEntries managedAgentsDir document).filterMap fun e =>
    if isReservedAgentsKey e.1 || !e.2.isTableLike then none
    else
      let configFile := (readRoleConfigFile e.2).getD []
      let resolved := resolveConfigFilePathForDisplay home outside d configFile
      some {
        name := e.1
        description := readRoleDescription e.2
        developerInstructions := readRoleDeveloperInstructions toml d configFile
        configFile := configFile
        resolvedPath := (resolved.map Prod.fst).getD home
        managedByApp := (managedRelativePathFromConfig configFile).isSome
        fileExists := (resolved.map Prod.snd).getD false }

variable (outside : Text → Bool)

def getAgentsSettingsCore : FileProg AgentsSettingsDto := do
  let (_, document) ← loadGlobalConfigDocument toml .reload
  let d ← Faulty.query id
  return {
    configPath := displayPath home configPath
    multiAgentEnabled := (readFeatureFlag document "multi_agent".toList).getD false
    maxThreads := readMaxThreads document
    maxDepth := readMaxDepth document
    agents := (collectAgents toml home outside d document).mergeSort fun a b =>
      decide (a.name ≤ b.name) }

/-! ### The operations -/

structure CreateAgentInput where
  name : Text
  description : Option Text
  developerInstructions : Option Text
  template : Option Text
  model : Option Text
  reasoningEffort : Option Text
  deriving DecidableEq, Repr

structure DeleteAgentInput where
  name : Text
  deleteManagedFile : Option Bool
  deriving DecidableEq, Repr

/-- The document with the new role. -/
def createdDocument (name : Text) (description : Option Text) (document : Document)
    (agents : List (Text × RoleItem)) : Document :=
  let role : Fields := match description with
    | some t => [("description".toList, .string t)]
    | none => []
  let role := insert "config_file".toList
    (.string (pathText (managedRelativeConfigForName name))) role
  insert managedAgentsDir (.table false (insert name (.table false role) agents)) document

def createAgentCore (input : CreateAgentInput) : FileProg AgentsSettingsDto := do
  let name ← ofExcept (normalizeAgentName input.name)
  let description := normalizeOptionalString input.description
  let developerInstructions := normalizeOptionalString input.developerInstructions
  let (_, document) ← loadGlobalConfigDocument toml .load
  let (document, agents) ← ofExcept (ensureTable document managedAgentsDir)
  if hasAgentNameConflict agents name none then
    Faulty.fail ("agent '".toList ++ name ++ "' already exists".toList)
  else
    let target ← resolveSafeManagedAbsPathForWrite home .targetPath
      (managedRelativeConfigForName name)
    if ← pathExists target then
      Faulty.fail ("target config file already exists: ".toList ++ displayPath home target)
    else
      let content := buildTemplateContent toml input.model input.reasoningEffort
        developerInstructions
      writeFile .create target (encodeUtf8 content) "Failed to create agent config file".toList
      let document := createdDocument name description document agents
      match ← (persistGlobalConfigDocument toml document).attempt with
      | .ok () => getAgentsSettingsCore toml home outside
      | .error err =>
          let _ ← (removeFile .undo target []).attempt
          Faulty.fail err

/-- The managed file is renamed, if there is one. -/
def moveManagedFile (move : Option (Path × Path)) : FileProg (Option (Path × Path)) :=
  match move with
  | none => pure none
  | some (old, new) => do
      let old ← resolveSafeManagedAbsPathForRead home .oldPath old
      let new ← resolveSafeManagedAbsPathForWrite home .newPath new
      if ← pathExists new then
        Faulty.fail ("target config file already exists: ".toList ++ displayPath home new)
      else if ← pathExists old then
        renameFile .move old new "Failed to rename agent config file".toList
        return some (old, new)
      else
        return none

def undoRename (renamed : Option (Path × Path)) : FileProg Unit :=
  match renamed with
  | none => pure ()
  | some (old, new) => do
      if ← pathExists new then
        let _ ← (renameFile .undo new old []).attempt
        pure ()
      else
        pure ()

/-- The file is rewritten, if there are instructions in the input; the backup of its content. -/
def updateInstructions (input : UpdateAgentInput) (plan : UpdatePlan)
    (renamed : Option (Path × Path)) : FileProg (Option (Path × Option ByteArray)) :=
  match input.developerInstructions with
  | none => pure none
  | some instructions =>
      match plan.nextConfigFile with
      | some configFile =>
          match managedRelativePathFromConfig configFile with
          | some path => do
              let target ← resolveSafeManagedAbsPathForWrite home .targetPath path
              match ← (upsertDeveloperInstructionsInAgentConfigFile toml target
                (normalizeOptionalString (some instructions))).attempt with
              | .ok previous => return some (target, previous)
              | .error err =>
                  undoRename renamed
                  Faulty.fail err
          | none => do
              undoRename renamed
              Faulty.fail ("agent '".toList ++ plan.name ++ ("' config_file is external; edit " ++
                "that file directly to change developer_instructions").toList)
      | none => do
          undoRename renamed
          Faulty.fail ("agent '".toList ++ plan.name ++
            "' does not define config_file; cannot update developer_instructions".toList)

def restoreBackup (backup : Option (Path × Option ByteArray)) : FileProg Unit :=
  match backup with
  | none => pure ()
  | some (path, some bytes) => do
      let _ ← (writeFile .undo path bytes []).attempt
      pure ()
  | some (path, none) => do
      if ← pathExists path then
        let _ ← (removeFile .undo path []).attempt
        pure ()
      else
        pure ()

def updateAgentCore (input : UpdateAgentInput) : FileProg AgentsSettingsDto := do
  let originalName ← ofExcept (normalizeAgentLookupName input.originalName)
  let name ← ofExcept (normalizeAgentName input.name)
  let (_, document) ← loadGlobalConfigDocument toml .load
  let plan ← ofExcept (planUpdate input originalName name document)
  let renamed ← moveManagedFile home plan.move
  let backup ← updateInstructions toml home input plan renamed
  let document := plan.nextDocument (normalizeOptionalString input.description)
  match ← (persistGlobalConfigDocument toml document).attempt with
  | .ok () => getAgentsSettingsCore toml home outside
  | .error err =>
      restoreBackup backup
      undoRename renamed
      Faulty.fail err

/-- The managed file is removed, if the input asks for it; the backup of its content. -/
def deleteManagedFile (input : DeleteAgentInput) (configFile : Option Text) :
    FileProg (Option (Path × ByteArray)) :=
  if !input.deleteManagedFile.getD false then pure none
  else
    match configFile.bind managedRelativePathFromConfig with
    | none => pure none
    | some path => do
        let target ← resolveSafeManagedAbsPathForRead home .targetPath path
        if ← pathExists target then
          let backup ← readFile .delete target
            "Failed to read agent config file before delete".toList
          removeFile .delete target "Failed to delete agent config file".toList
          return some (target, backup)
        else
          return none

def deleteAgentCore (input : DeleteAgentInput) : FileProg AgentsSettingsDto := do
  let name ← ofExcept (normalizeAgentLookupName input.name)
  let (_, document) ← loadGlobalConfigDocument toml .load
  let (document, agents) ← ofExcept (ensureTable document managedAgentsDir)
  match get name agents with
  | none => Faulty.fail ("agent '".toList ++ name ++ "' not found".toList)
  | some existing =>
      let backup ← deleteManagedFile home input (readRoleConfigFile existing)
      let document := insert managedAgentsDir (.table false (remove name agents)) document
      match ← (persistGlobalConfigDocument toml document).attempt with
      | .ok () => getAgentsSettingsCore toml home outside
      | .error err =>
          match backup with
          | none => Faulty.fail err
          | some (path, bytes) =>
              match ← (writeFile .undo path bytes []).attempt with
              | .ok () => Faulty.fail err
              | .error restoreError => Faulty.fail (err ++
                  " (also failed to restore deleted config file ".toList ++
                  displayPath home path ++ restoreError ++ ")".toList)

/-- One of the operations. -/
inductive AgentsRequest
  | create (input : CreateAgentInput)
  | update (input : UpdateAgentInput)
  | delete (input : DeleteAgentInput)
  deriving DecidableEq, Repr

def AgentsRequest.run : AgentsRequest → FileProg AgentsSettingsDto
  | .create input => createAgentCore toml home outside input
  | .update input => updateAgentCore toml home outside input
  | .delete input => deleteAgentCore toml home outside input

end Operations

end CodexMonitor.Agents
