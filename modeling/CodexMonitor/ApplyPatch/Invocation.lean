import CodexMonitor.ApplyPatch.Files

namespace CodexMonitor.ApplyPatch

/-!
# Apply patch — recognising and previewing an invocation

`apply-patch/src/invocation.rs`: an argument vector is recognised as an `apply_patch`
call, directly or through a shell script, and its hunks are turned into the changes shown
for approval (`maybeParseApplyPatchVerified`).

Two things come from third-party code and enter as `Externals`: the heredoc that the bash
grammar finds in a script, and the text of a unified diff.
-/

inductive ExtractHeredocError where
  | commandDidNotStartWithApplyPatch
  | failedToLoadBashGrammar
  | heredocNotUtf8
  | failedToParsePatchIntoAst
  | failedToFindHeredocBody
  deriving DecidableEq, Repr

structure Externals where
  /-- `extract_apply_patch_from_bash`: the heredoc body and the `cd` directory. -/
  extractApplyPatchFromBash : Text → Except ExtractHeredocError (Text × Option Text)
  /-- The unified diff of two texts, with one line of context. -/
  unifiedDiff : Text → Text → Text

/-! ### Shell scripts -/

inductive ApplyPatchShell where
  | unix
  | powerShell
  | cmd
  deriving DecidableEq, Repr

def applyPatchCommands : List Text := ["apply_patch".toList, "applypatch".toList]

/-- The file name of a shell without its extension, in lower case. -/
def classifyShellName (shell : Text) : Option Text :=
  match (UnixPath.components shell).getLast? with
  | none => none
  | some name =>
      if name = "..".toList then none
      else
        let stem := match UnixPath.extension name with
          | some ext => name.take (name.length - (ext.length + 1))
          | none => name
        some (stem.map Text.asciiLower)

def classifyShell (shell flag : Text) : Option ApplyPatchShell :=
  match classifyShellName shell with
  | none => none
  | some name =>
      if name ∈ ["bash".toList, "zsh".toList, "sh".toList] ∧
          flag ∈ ["-lc".toList, "-c".toList] then some .unix
      else if name ∈ ["pwsh".toList, "powershell".toList] ∧
          Text.eqIgnoreAsciiCase flag "-command".toList = true then some .powerShell
      else if name = "cmd".toList ∧ Text.eqIgnoreAsciiCase flag "/c".toList = true then some .cmd
      else none

def canSkipFlag (shell flag : Text) : Bool :=
  match classifyShellName shell with
  | none => false
  | some name =>
      ["pwsh".toList, "powershell".toList].contains name &&
        Text.eqIgnoreAsciiCase flag "-noprofile".toList

def parseShellScript : List Text → Option (ApplyPatchShell × Text)
  | [shell, flag, script] => (classifyShell shell flag).map (·, script)
  | [shell, skipFlag, flag, script] =>
      if canSkipFlag shell skipFlag then (classifyShell shell flag).map (·, script) else none
  | _ => none

/-! ### Parsing an argument vector -/

inductive MaybeApplyPatch where
  | body (args : ApplyPatchArgs)
  | shellParseError (err : ExtractHeredocError)
  | patchParseError (err : ParseError)
  | notApplyPatch
  deriving DecidableEq, Repr

variable (ext : Externals)

/-- The shell form: a script that is one `apply_patch` heredoc, perhaps after a `cd`. -/
def parseShellForm (argv : List Text) : MaybeApplyPatch :=
  match parseShellScript argv with
  | none => .notApplyPatch
  | some (_, script) =>
      match ext.extractApplyPatchFromBash script with
      | .ok (body, workdir) =>
          match parsePatch body with
          | .ok source => .body { source with workdir := workdir }
          | .error err => .patchParseError err
      -- a script that does something else is not ours to judge
      | .error .commandDidNotStartWithApplyPatch => .notApplyPatch
      | .error err => .shellParseError err

/-- `maybe_parse_apply_patch`. -/
def maybeParseApplyPatch (argv : List Text) : MaybeApplyPatch :=
  match argv with
  | [cmd, body] =>
      if cmd ∈ applyPatchCommands then
        match parsePatch body with
        | .ok source => .body source
        | .error err => .patchParseError err
      else parseShellForm ext argv
  | _ => parseShellForm ext argv

/-! ### Previewing the changes -/

inductive ApplyPatchFileChange where
  | add (content : Text)
  | delete (content : Text)
  | update (unifiedDiff : Text) (movePath : Option AbsPath) (newContent : Text)
  deriving DecidableEq, Repr

/-- The changes by path: the list of insertions, newest last. -/
abbrev Changes := List (AbsPath × ApplyPatchFileChange)

/-- The change recorded for a path: the newest insertion. -/
def Changes.get? (changes : Changes) (path : AbsPath) : Option ApplyPatchFileChange :=
  (changes.reverse.find? fun entry => entry.1 == path).map Prod.snd

structure ApplyPatchAction where
  changes : Changes
  patch : Text
  cwd : AbsPath

inductive MaybeApplyPatchVerified where
  | body (action : ApplyPatchAction)
  | shellParseError (err : ExtractHeredocError)
  | correctnessError (err : ApplyPatchError)
  | notApplyPatch

section Verify

variable (home : Option AbsPath) (cwd : AbsPath) (files : Files)

/-- The change one hunk would make to the files as they are. -/
def hunkChange (hunk : Hunk) : Except ApplyPatchError ApplyPatchFileChange :=
  let path := hunk.resolvePath home cwd
  match hunk with
  | .addFile _ contents => .ok (.add contents)
  -- the preview shows what would be deleted
  | .deleteFile _ =>
      match files.readFileText path with
      | .error err => .error (.ioError ("Failed to read ".toList ++ UnixPath.display path) err)
      | .ok content => .ok (.delete content)
  -- derived from the file on disk, whatever earlier hunks do to it
  | .updateFile _ movePath chunks =>
      match deriveNewContentsFromChunks path chunks files with
      | .error err => .error err
      | .ok applied =>
          .ok (.update (ext.unifiedDiff applied.originalContents applied.newContents)
            (movePath.map fun dest => UnixPath.resolve home dest cwd) applied.newContents)

/-- The changes of all hunks, each against the files as they are. -/
def hunkChanges : List Hunk → Except ApplyPatchError Changes
  | [] => .ok []
  | hunk :: hunks =>
      match hunkChange ext home cwd files hunk with
      | .error err => .error err
      | .ok change =>
          match hunkChanges hunks with
          | .error err => .error err
          | .ok changes => .ok ((hunk.resolvePath home cwd, change) :: changes)

/-- Whether the vector is a patch without a call to `apply_patch`. -/
def isImplicitInvocation (argv : List Text) : Bool :=
  (match argv with
    | [body] => (parsePatch body).isOk
    | _ => false) ||
  match parseShellScript argv with
  | some (_, script) => (parsePatch script).isOk
  | none => false

/-- The directory the patch's relative paths start from. -/
def effectiveCwd (args : ApplyPatchArgs) : AbsPath :=
  match args.workdir with
  | some dir => UnixPath.resolve home dir cwd
  | none => cwd

/-- `maybe_parse_apply_patch_verified`. -/
def maybeParseApplyPatchVerified (argv : List Text) : MaybeApplyPatchVerified :=
  if isImplicitInvocation argv then .correctnessError .implicitInvocation
  else
    match maybeParseApplyPatch ext argv with
    | .body args =>
        let cwd := effectiveCwd home cwd args
        match hunkChanges ext home cwd files args.hunks with
        | .error err => .correctnessError err
        | .ok changes => .body { changes := changes, patch := args.patch, cwd := cwd }
    | .shellParseError err => .shellParseError err
    | .patchParseError err => .correctnessError (.parseError err)
    | .notApplyPatch => .notApplyPatch

end Verify

end CodexMonitor.ApplyPatch
