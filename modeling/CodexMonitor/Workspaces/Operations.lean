import CodexMonitor.Lib.FileTree
import CodexMonitor.Lib.UnixPath
import CodexMonitor.Workspaces.Store

namespace CodexMonitor.WorkspaceStore

open Text

/-!
# Workspaces — one operation run alone

The operations of `shared/workspaces_core` that add, rename and configure workspaces, from
their call to their return: each goes through git commands, a spawned session, the map of
workspaces and its file, with what it does about a failure.

* `World` — the two maps, the child processes that run and the file tree.
* `Env` — how everything outside the code turns out.
* `takeLiveSharedSession`, `spawnWorkspaceSession` — the session of a new workspace.
* `addWorkspaceCore`, … — the operations.
-/

/-- A session, known by its child process. -/
abbrev SessionId := Nat

structure World where
  workspaces : Workspaces := ∅
  /-- The entries in the order of iteration. -/
  sessions : Registry Text SessionId := ∅
  /-- The child processes that run. -/
  running : List SessionId := []
  tree : FileTree Text

/-! ### The environment -/

/-- What became of a command or of an access to a file, with the directories it made. -/
structure Outcome where
  ok : Bool := true
  error : Text := []
  created : List AbsPath := []
  deriving DecidableEq, Repr

def Outcome.result (outcome : Outcome) : Except Text Unit :=
  if outcome.ok then .ok () else .error outcome.error

/-- How spawning a session goes; a child that is not killed may have exited by itself. -/
inductive SpawnOutcome
  /-- There is no `codex`, or the app-server cannot be started. -/
  | unavailable (error : Text)
  /-- `codex --version` does not end in time. -/
  | versionTimeout (exited : Bool)
  | initializeTimeout
  /-- `initialize` is answered with an error, or cannot be sent; or `initialized` cannot. -/
  | initializeFailed (error : Text) (exited : Bool)
  | connected
  deriving DecidableEq, Repr

structure Env where
  cwd : AbsPath := []
  home : Option Text := none
  dataDir : Text := []
  globalWorktreesFolder : Option Text := none
  /-- `Uuid::new_v4()` -/
  id : Text := []
  createDirAll : Outcome := {}
  readDir : Outcome := {}
  clone : Outcome := {}
  branchExists : Except Text Bool := .ok false
  /-- The search for a remote branch, if the caller passes one. -/
  findRemoteTrackingBranch : Option (Except Text (Option Text)) := none
  worktreeAdd : Outcome := {}
  resolveGitRoot : Except Text Text := .ok []
  uniqueBranchName : Except Text Text := .ok []
  renameBranch : Outcome := {}
  moveWorktree : Outcome := {}
  moveBack : Outcome := {}
  spawn : SpawnOutcome := .connected
  write : Outcome := {}
  /-- What `remove_dir_all` cannot remove. -/
  kept : List AbsPath := []
  /-- The daemon refuses when no path is free, the desktop app goes on. -/
  strict : Bool := false

/-- Where a path text leads. -/
def Env.locate (env : Env) (path : Text) : AbsPath := UnixPath.resolve none path env.cwd

/-! ### Paths of worktrees and copies -/

def isAsciiAlphanumeric (c : Char) : Bool := isAsciiAlphabetic c || ('0' ≤ c && c ≤ '9')

def sanitizeName (value fallback : Text) : Text :=
  let result := value.map fun c =>
    if isAsciiAlphanumeric c || c = '-' || c = '_' || c = '.' then c else '-'
  let trimmed := trimBy (· = '-') result
  if trimmed.isEmpty then fallback else trimmed

def sanitizeWorktreeName (branch : Text) : Text := sanitizeName branch "worktree".toList

def sanitizeCloneDirName (name : Text) : Text := sanitizeName name "copy".toList

/-- The paths that are tried: the name itself, and with the numbers from 2 to 999. -/
def candidatePaths (baseDir name : Text) : List Text :=
  joinPath baseDir name :: (List.range' 2 998).map fun index =>
    joinPath baseDir (name ++ "-".toList ++ (toString index).toList)

def uniqueWorktreePathBestEffort (present : Text → Bool) (baseDir name : Text) : Text :=
  ((candidatePaths baseDir name).find? fun path => !present path).getD (joinPath baseDir name)

def noPathMessage (baseDir : Text) : Text :=
  "Failed to find an available worktree path under ".toList ++ baseDir ++ ".".toList

def uniqueWorktreePathStrict (present : Text → Bool) (baseDir name : Text) : Except Text Text :=
  match (candidatePaths baseDir name).find? fun path => !present path with
  | some path => .ok path
  | none => .error (noPathMessage baseDir)

def startsWithDot (path : Text) : Bool := (splitOn '/' path).head? = some ".".toList

/-- Equality of two `PathBuf`s, which is that of their components. -/
def samePath (a b : Text) : Bool :=
  UnixPath.isAbsolute a = UnixPath.isAbsolute b && startsWithDot a = startsWithDot b &&
    UnixPath.components a = UnixPath.components b

def uniqueWorktreePathForRename (present : Text → Bool) (baseDir name currentPath : Text) :
    Except Text Text :=
  match (candidatePaths baseDir name).find? fun path =>
      samePath path currentPath || !present path with
  | some path => .ok path
  | none => .error (noPathMessage baseDir)

def buildCloneDestinationPath (present : Text → Bool) (copiesFolder copyName : Text) : Text :=
  uniqueWorktreePathBestEffort present copiesFolder (sanitizeCloneDirName copyName)

/-- The folder of the worktrees of a workspace: its own setting, the global one, the default. -/
def worktreeRoot (env : Env) (parent : WorkspaceEntry) : Text :=
  match parent.settings.worktreesFolder with
  | some folder => workspacePathToString folder
  | none => match env.globalWorktreesFolder with
    | some folder => joinPath (workspacePathToString folder) parent.id
    | none => joinPath (joinPath env.dataDir "worktrees".toList) parent.id

/-! ### Steps of the operations -/

namespace World

variable (w : World)

/-- Something exists at the path text. -/
def presentAt (env : Env) (path : Text) : Bool := w.tree.present (env.locate path)

/-- The directories that a command made. -/
def made (outcome : Outcome) : World := { w with tree := w.tree.createAll outcome.created }

/-- `create_dir_all` -/
def createDirAll (env : Env) (path : Text) : Except Text Unit × World :=
  let w := w.made env.createDirAll
  if env.createDirAll.ok then (.ok (), { w with tree := w.tree.create (env.locate path) })
  else (.error env.createDirAll.error, w)

/-- `let _ = remove_dir_all(path)` -/
def removeDirAll (env : Env) (path : Text) : World :=
  { w with tree := w.tree.removeDirAll (env.locate path) env.kept }

/-- `git clone` -/
def clone (env : Env) (path : Text) : Except Text Unit × World :=
  let w := w.made env.clone
  if env.clone.ok then (.ok (), { w with tree := w.tree.create (env.locate path) })
  else (.error env.clone.error, w)

/-- `git worktree move` -/
def moveWorktree (env : Env) (outcome : Outcome) (old new : Text) : Except Text Unit × World :=
  if outcome.ok && w.tree.movable (env.locate old) (env.locate new) then
    (.ok (), { w with tree := w.tree.move (env.locate old) (env.locate new) })
  else (.error outcome.error, w)

/-- `remove_session_references` -/
def removeSessionReferences (session : SessionId) : World :=
  { w with sessions := w.sessions.retain fun candidate => candidate ≠ session }

/-- `session_process_is_alive` -/
def isAlive (session : SessionId) : Bool := w.running.contains session

/-- `sessions.values().next()` -/
def firstSession : Option SessionId := (w.sessions.entries.map Sigma.snd).head?

/-- The loop of `take_live_shared_session`; each turn drops an entry, or is the last. -/
def takeLive : Nat → World → Option SessionId × World
  | 0, w => (none, w)
  | turns + 1, w =>
      match w.firstSession with
      | none => (none, w)
      | some session =>
          if w.isAlive session then (some session, w)
          else takeLive turns (w.removeSessionReferences session)

def takeLiveSharedSession : Option SessionId × World := takeLive w.sessions.entries.length w

/-- The number of a new child process. -/
def newChild : SessionId := w.running.foldr max 0 + 1

/-- A child process that runs unless it has exited. -/
def startChild (exited : Bool) : World :=
  if exited then w else { w with running := w.newChild :: w.running }

/-- `kill_child_process_tree` -/
def killChildProcessTree (session : SessionId) : World :=
  { w with running := w.running.filter fun child => child ≠ session }

/-- `spawn_workspace_session` -/
def spawnWorkspaceSession (env : Env) : Except Text SessionId × World :=
  match env.spawn with
  | .unavailable error => (.error error, w)
  | .versionTimeout exited =>
      (.error ("Timed out while checking Codex CLI. Make sure `codex --version` runs in " ++
        "Terminal.").toList, w.startChild exited)
  | .initializeTimeout =>
      (.error ("Codex app-server did not respond to initialize. Check that `codex app-server` " ++
        "works in Terminal.").toList, (w.startChild false).killChildProcessTree w.newChild)
  | .initializeFailed error exited => (.error error, w.startChild exited)
  | .connected => (.ok w.newChild, w.startChild false)

/-- The session of a new workspace, and whether it was spawned for it. -/
def acquireSession (env : Env) : Except Text (SessionId × Bool) × World :=
  match w.takeLiveSharedSession with
  | (some session, w) => (.ok (session, false), w)
  | (none, w) =>
      match w.spawnWorkspaceSession env with
      | (.error error, w) => (.error error, w)
      | (.ok session, w) => (.ok (session, true), w)

/-- The entry is inserted and the list written, into a directory that exists. -/
def insertAndWrite (env : Env) (entry : WorkspaceEntry) : Except Text Unit × World :=
  (env.write.result, { w with workspaces := w.workspaces.insert entry.id entry })

end World

structure WorkspaceInfo where
  entry : WorkspaceEntry
  connected : Bool
  deriving DecidableEq, Repr

abbrev Returned := Except Text WorkspaceInfo × World

/-- The last step of an addition. -/
def connectEntry (w : World) (entry : WorkspaceEntry) (session : SessionId) : Returned :=
  (.ok ⟨entry, true⟩, { w with sessions := w.sessions.insert entry.id session })

/-- The second half of the operations that add a workspace; `discard` is what the operation
    removes of the directory it made. -/
def attach (env : Env) (entry : WorkspaceEntry) (discard : World → World) (w : World) : Returned :=
  match w.acquireSession env with
  | (.error error, w) => (.error error, discard w)
  | (.ok (session, spawnedNewSession), w) =>
      match w.insertAndWrite env entry with
      | (.error error, w) =>
          let w := { w with workspaces := w.workspaces.erase entry.id }
          let w := if spawnedNewSession then w.killChildProcessTree session else w
          (.error error, discard w)
      | (.ok (), w) => connectEntry w entry session

/-! ### Adding a workspace -/

def addWorkspaceCore (env : Env) (path : Text) (w : World) : Returned :=
  let normalizedPath := normalizeWorkspacePathInput env.home path
  if ¬ w.tree.isDir (env.locate normalizedPath) then
    (.error "Workspace path must be a folder.".toList, w)
  else attach env (addedEntry { id := env.id, home := env.home } path) id w

def addCloneCore (env : Env) (sourceWorkspaceId copyName copiesFolder : Text) (w : World) :
    Returned :=
  let copyName := copyName.trim
  if copyName.isEmpty then (.error "Copy name is required.".toList, w)
  else
    let copiesFolder := copiesFolder.trim
    if copiesFolder.isEmpty then (.error "Copies folder is required.".toList, w)
    else match w.createDirAll env copiesFolder with
      | (.error error, w) => (.error ("Failed to create copies folder: ".toList ++ error), w)
      | (.ok (), w) =>
          if ¬ w.tree.isDir (env.locate copiesFolder) then
            (.error "Copies folder must be a directory.".toList, w)
          else match w.workspaces.lookup sourceWorkspaceId with
            | none => (.error "source workspace not found".toList, w)
            | some source =>
                let path := buildCloneDestinationPath (w.presentAt env) copiesFolder copyName
                let entry := clonedEntry { id := env.id, path := path } w.workspaces source copyName
                match w.clone env path with
                | (.error error, w) => (.error error, w.removeDirAll env path)
                | (.ok (), w) => attach env entry (·.removeDirAll env path) w

/-- `default_repo_name_from_url` -/
def defaultRepoNameFromUrl (url : Text) : Option Text :=
  let trimmed := trimEndBy (· = '/') url.trim
  let tail := ((splitOn '/' trimmed).getLast?.getD []).trim
  if tail.isEmpty then none
  else
    let withoutGitSuffix :=
      if endsWith tail ".git".toList then tail.take (tail.length - 4) else tail
    if withoutGitSuffix.isEmpty then none else some withoutGitSuffix

/-- `validate_target_folder_name` -/
def validateTargetFolderName (value : Text) : Except Text Text :=
  let trimmed := value.trim
  if trimmed.isEmpty then .error "Target folder name is required.".toList
  else if trimmed.contains '/' || trimmed.contains '\\' || trimmed = ".".toList ||
      trimmed = "..".toList then
    .error ("Target folder name must be a single relative folder name without separators or " ++
      "traversal.").toList
  else .ok trimmed

/-- The folder that a repository is cloned into. -/
def cloneFolderName (url : Text) (targetFolderName : Option Text) : Except Text Text :=
  match ((targetFolderName.map trim).filter fun value => !value.isEmpty).or
      (defaultRepoNameFromUrl url) with
  | none => .error "Could not determine target folder name from URL.".toList
  | some folderName => validateTargetFolderName folderName

/-- The destination of a clone is free, or an empty directory. -/
def inspectDestination (env : Env) (clonePath : Text) (w : World) : Except Text Unit :=
  if w.presentAt env clonePath then
    if ¬ env.readDir.ok || ¬ w.tree.isDir (env.locate clonePath) then
      .error ("Failed to inspect destination path: ".toList ++ env.readDir.error)
    else if ¬ w.tree.isEmptyBelow (env.locate clonePath) then
      .error "Destination path already exists and is not empty.".toList
    else .ok ()
  else .ok ()

def addWorkspaceFromGitUrlCore (env : Env) (url destinationPath : Text)
    (targetFolderName : Option Text) (w : World) : Returned :=
  let url := url.trim
  if url.isEmpty then (.error "Remote Git URL is required.".toList, w)
  else
    let destinationPath := destinationPath.trim
    if destinationPath.isEmpty then (.error "Destination folder is required.".toList, w)
    else if ¬ w.tree.isDir (env.locate destinationPath) then
      (.error "Destination folder must be an existing directory.".toList, w)
    else match cloneFolderName url targetFolderName with
      | .error error => (.error error, w)
      | .ok folderName =>
          let clonePath := joinPath destinationPath folderName
          match inspectDestination env clonePath w with
          | .error error => (.error error, w)
          | .ok () =>
              match w.clone env clonePath with
              | (.error error, w) => (.error error, w.removeDirAll env clonePath)
              | (.ok (), w) =>
                  attach env (gitUrlEntry { id := env.id, path := clonePath })
                    (·.removeDirAll env clonePath) w

/-! ### Worktrees -/

/-- `git worktree add`, on the branch, on the remote branch or on a new one. -/
def addGitWorktree (env : Env) (w : World) : Except Text Unit × World :=
  match env.branchExists with
  | .error error => (.error error, w)
  | .ok true => (env.worktreeAdd.result, w.made env.worktreeAdd)
  | .ok false =>
      match env.findRemoteTrackingBranch with
      | some (.error error) => (.error error, w)
      | some (.ok _) | none => (env.worktreeAdd.result, w.made env.worktreeAdd)

/-- `unique_worktree_path`, as the daemon and as the desktop app pass it. -/
def uniqueWorktreePath (env : Env) (w : World) (baseDir name : Text) : Except Text Text :=
  if env.strict then uniqueWorktreePathStrict (w.presentAt env) baseDir name
  else .ok (uniqueWorktreePathBestEffort (w.presentAt env) baseDir name)

def addWorktreeCore (env : Env) (parentId branch : Text) (name : Option Text) (w : World) :
    Returned :=
  let branch := branch.trim
  if branch.isEmpty then (.error "Branch name is required.".toList, w)
  else match w.workspaces.lookup parentId with
    | none => (.error "parent workspace not found".toList, w)
    | some parent =>
        if parent.isWorktree then
          (.error "Cannot create a worktree from another worktree.".toList, w)
        else
          let root := worktreeRoot env parent
          match w.createDirAll env root with
          | (.error error, w) => (.error ("Failed to create worktree directory: ".toList ++ error), w)
          | (.ok (), w) =>
              match uniqueWorktreePath env w root (sanitizeWorktreeName branch) with
              | .error error => (.error error, w)
              | .ok path =>
                  match addGitWorktree env w with
                  | (.error error, w) => (.error error, w)
                  | (.ok (), w) =>
                      let entry := worktreeEntry { id := env.id, path := path } parent branch name
                      match w.acquireSession env with
                      | (.error error, w) => (.error error, w)
                      | (.ok (session, _), w) =>
                          -- the entry and the session stay when the list cannot be written
                          match w.insertAndWrite env entry with
                          | (.error error, w) => (.error error, w)
                          | (.ok (), w) => connectEntry w entry session

/-- The entry of a worktree with its parent. -/
def worktreeWithParent (workspaces : Workspaces) (id : Text) :
    Except Text (WorkspaceEntry × WorkspaceEntry) :=
  Store.worktreeWithParent { workspaces := workspaces } id

/-- The worktree is moved, unless it is where it should be; whether it was moved. -/
def moveToNextPath (env : Env) (oldPath nextPath : Text) (w : World) : Except Text Bool × World :=
  if workspacePathToString nextPath ≠ oldPath then
    match w.moveWorktree env env.moveWorktree oldPath nextPath with
    | (.error error, w) => (.error error, w)
    | (.ok (), w) => (.ok true, w)
  else (.ok false, w)

/-- The entry is renamed and the list written; if that fails the worktree is moved back and the
    entry restored. -/
def renameEntry (env : Env) (id oldBranch finalBranch oldPath nextPath : Text) (moved : Bool)
    (w : World) : Returned :=
  match w.workspaces.lookup id with
  | none =>
      (.error "workspace not found".toList,
        if moved then (w.moveWorktree env env.moveBack nextPath oldPath).2 else w)
  | some oldSnapshot =>
      let entry := renamedEntry oldBranch finalBranch (workspacePathToString nextPath) oldSnapshot
      let w := { w with workspaces := w.workspaces.insert id entry }
      match env.write.result with
      | .error error =>
          let w := if moved then (w.moveWorktree env env.moveBack nextPath oldPath).2 else w
          (.error error, { w with workspaces := modify w.workspaces id fun _ => oldSnapshot })
      | .ok () => (.ok ⟨entry, (w.sessions.lookup entry.id).isSome⟩, w)

def renameWorktreeCore (env : Env) (id branch : Text) (w : World) : Returned :=
  let trimmed := branch.trim
  if trimmed.isEmpty then (.error "Branch name is required.".toList, w)
  else match worktreeWithParent w.workspaces id with
    | .error error => (.error error, w)
    | .ok (entry, parent) =>
        match entry.worktree with
        | none => (.error "worktree metadata missing".toList, w)
        | some oldBranch =>
            if oldBranch = trimmed then (.error "Branch name is unchanged.".toList, w)
            else match env.resolveGitRoot with
              | .error error => (.error error, w)
              | .ok _ =>
                  match env.uniqueBranchName with
                  | .error error => (.error error, w)
                  | .ok finalBranch =>
                      if finalBranch = oldBranch then
                        (.error "Branch name is unchanged.".toList, w)
                      else
                        renameToBranch env id entry parent oldBranch finalBranch w
where
  /-- The second half: the branch is renamed, the worktree moved, the entry changed. -/
  renameToBranch (env : Env) (id : Text) (entry parent : WorkspaceEntry)
      (oldBranch finalBranch : Text) (w : World) : Returned :=
    let root := worktreeRoot env parent
    match w.createDirAll env root with
    | (.error error, w) => (.error ("Failed to create worktree directory: ".toList ++ error), w)
    | (.ok (), w) =>
        match uniqueWorktreePathForRename (w.presentAt env) root
            (sanitizeWorktreeName finalBranch) entry.path with
        | .error error => (.error error, w)
        | .ok nextPath =>
            match env.renameBranch.result with
            | .error error => (.error error, w)
            | .ok () =>
                match moveToNextPath env entry.path nextPath w with
                | (.error error, w) => (.error error, w)
                | (.ok moved, w) =>
                    renameEntry env id oldBranch finalBranch entry.path nextPath moved w

/-! ### Settings -/

def updateWorkspaceSettingsCore (env : Env) (id : Text) (settings : WorkspaceSettings)
    (w : World) : Returned :=
  match w.workspaces.lookup id with
  | none => (.error "workspace not found".toList, w)
  | some previous =>
      let entry := { previous with settings := acceptedSettings settings }
      let workspaces := w.workspaces.insert id entry
      let children := childIds workspaces id
      let connected := (w.sessions.lookup id).isSome
      let workspaces :=
        if previous.settings.worktreeSetupScript ≠ entry.settings.worktreeSetupScript ∧
            ¬ entry.isWorktree then
          Store.updateAll workspaces children entry.settings.worktreeSetupScript
        else workspaces
      match env.write.result with
      | .error error => (.error error, { w with workspaces := workspaces })
      | .ok () => (.ok ⟨entry, connected⟩, { w with workspaces := workspaces })

/-! ### The operations -/

inductive Operation
  | addWorkspace (path : Text)
  | addClone (sourceWorkspaceId copyName copiesFolder : Text)
  | addWorkspaceFromGitUrl (url destinationPath : Text) (targetFolderName : Option Text)
  | addWorktree (parentId branch : Text) (name : Option Text)
  | renameWorktree (id branch : Text)
  | updateWorkspaceSettings (id : Text) (settings : WorkspaceSettings)
  deriving DecidableEq, Repr

def Operation.run (env : Env) : Operation → World → Returned
  | .addWorkspace path => addWorkspaceCore env path
  | .addClone source copyName copiesFolder => addCloneCore env source copyName copiesFolder
  | .addWorkspaceFromGitUrl url destinationPath targetFolderName =>
      addWorkspaceFromGitUrlCore env url destinationPath targetFolderName
  | .addWorktree parentId branch name => addWorktreeCore env parentId branch name
  | .renameWorktree id branch => renameWorktreeCore env id branch
  | .updateWorkspaceSettings id settings => updateWorkspaceSettingsCore env id settings

end CodexMonitor.WorkspaceStore
