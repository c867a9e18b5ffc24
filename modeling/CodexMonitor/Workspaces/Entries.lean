import CodexMonitor.Lib.Tasks
import CodexMonitor.Lib.Text

namespace CodexMonitor.WorkspaceStore

open Text

/-!
# Workspaces — entries and the form in which they are stored

`types.rs`, `storage.rs` and the helpers of `shared/workspaces_core`: the entries of the map
of workspaces, and the normalisation that `write_workspaces` applies to each of them.

* `WorkspaceEntry`, `WorkspaceSettings` — the data.
* `normalizeWindowsNamespacePath` — paths without a Windows namespace prefix.
* `normalizeWorkspaceEntry`, `stored` — the list that is written for a map.
-/

/-! ### Entries -/

inductive WorkspaceKind
  | main
  | worktree
  deriving DecidableEq, Repr

structure LaunchScriptEntry where
  id : Text
  script : Text
  icon : Text
  label : Option Text := none
  deriving DecidableEq, Repr

structure WorkspaceSettings where
  sidebarCollapsed : Bool := false
  sortOrder : Option Nat := none
  groupId : Option Text := none
  cloneSourceWorkspaceId : Option Text := none
  gitRoot : Option Text := none
  launchScript : Option Text := none
  launchScripts : Option (List LaunchScriptEntry) := none
  worktreeSetupScript : Option Text := none
  worktreesFolder : Option Text := none
  deriving DecidableEq, Repr

structure WorkspaceEntry where
  id : Text
  name : Text
  path : Text
  kind : WorkspaceKind := .main
  parentId : Option Text := none
  /-- `worktree.branch` -/
  worktree : Option Text := none
  settings : WorkspaceSettings := {}
  deriving DecidableEq, Repr

def WorkspaceEntry.isWorktree (entry : WorkspaceEntry) : Bool := entry.kind = .worktree

/-- The map of workspaces. -/
abbrev Workspaces := Registry Text WorkspaceEntry

/-- `workspaces.values()` -/
def values (workspaces : Workspaces) : List WorkspaceEntry := workspaces.entries.map Sigma.snd

/-! ### Normalisation -/

/-- `strip_prefix_ascii_case` -/
def stripAsciiCase (value start : Text) : Option Text :=
  if eqIgnoreAsciiCase (value.take start.length) start then some (value.drop start.length)
  else none

def isAsciiAlphabetic (c : Char) : Bool := ('a' ≤ c && c ≤ 'z') || ('A' ≤ c && c ≤ 'Z')

def startsWithDrivePath : Text → Bool
  | c₀ :: c₁ :: c₂ :: _ => isAsciiAlphabetic c₀ && c₁ = ':' && (c₂ = '\\' || c₂ = '/')
  | _ => false

/-- The rest behind a prefix, if it is a path on a drive. -/
def stripDrive (path start : Text) : Option Text :=
  (stripAsciiCase path start).filter startsWithDrivePath

/-- `normalize_windows_namespace_path`, once in `storage.rs` and once in `utils.rs`. -/
def normalizeWindowsNamespacePath (path : Text) : Text :=
  match stripAsciiCase path "\\\\?\\UNC\\".toList with
  | some rest => "\\\\".toList ++ rest
  | none => match stripAsciiCase path "//?/UNC/".toList with
    | some rest => "//".toList ++ rest
    | none =>
        ((stripDrive path "\\\\?\\".toList).or <| (stripDrive path "//?/".toList).or <|
          (stripDrive path "\\\\.\\".toList).or (stripDrive path "//./".toList)).getD path

def normalizeWorkspaceSettings (settings : WorkspaceSettings) : WorkspaceSettings :=
  { settings with
    worktreesFolder := settings.worktreesFolder.map normalizeWindowsNamespacePath }

def normalizeWorkspaceEntry (entry : WorkspaceEntry) : WorkspaceEntry :=
  { entry with
    path := normalizeWindowsNamespacePath entry.path
    settings := normalizeWorkspaceSettings entry.settings }

/-- The list that `write_workspaces` stores for the entries of a map. -/
def stored (workspaces : Workspaces) : List WorkspaceEntry :=
  (values workspaces).map normalizeWorkspaceEntry

/-! ### Helpers of the operations -/

/-- `normalize_setup_script` -/
def normalizeSetupScript (script : Option Text) : Option Text :=
  script.filter fun value => !value.trim.isEmpty

/-- `workspace_path_to_string` -/
def workspacePathToString (path : Text) : Text := normalizeWindowsNamespacePath path

/-- `PathBuf::join` with a relative part. -/
def joinPath (base part : Text) : Text :=
  if startsWith part "/".toList then part
  else if base.isEmpty || endsWith base "/".toList then base ++ part
  else base ++ "/".toList ++ part

/-- `normalize_workspace_path_input`; the home directory is the one of the environment. -/
def normalizeWorkspacePathInput (home : Option Text) (path : Text) : Text :=
  let trimmed := path.trim
  match stripStart trimmed "~/".toList, home with
  | some rest, some home => joinPath home rest
  | _, some home => if trimmed = "~".toList then home else trimmed
  | _, none => trimmed

/-- `Path::file_name` of a Unix path: the last component, unless that is `..`. -/
def fileName (path : Text) : Option Text :=
  let components := (splitOn '/' path).filter fun c => !c.isEmpty && c ≠ ".".toList
  components.getLast?.filter fun c => c ≠ "..".toList

end CodexMonitor.WorkspaceStore
