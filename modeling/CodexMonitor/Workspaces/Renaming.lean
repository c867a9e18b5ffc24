import CodexMonitor.Lib.Worktrees
import CodexMonitor.Threads.RootPaths
import CodexMonitor.Workspaces.WorktreePaths

namespace CodexMonitor.WorkspaceStore

open Text

/-!
# Workspaces — renaming a worktree

`rename_worktree_core` once more, with the repository that its git commands change and with the
roots that the sessions keep.  Git reads a path text from the repository it is run in, the app
from its own working directory.

* `RepoWorld` — the state with the repository; `RenameEnv` — how the commands turn out.
* `renameWorktreeCore` — the code, in two halves: `planRename`, `applyRename`.
* `Restored`, `Follows` — what is left behind by a failure and by a success.
-/

namespace Renaming

/-! ### The state -/

/-- Git takes no name of a branch with two dots in a row; its other rules are among the ways in
    which a command fails. -/
def IsRefName (name : Text) : Prop := ¬ "..".toList <:+: name

instance (name : Text) : Decidable (IsRefName name) :=
  inferInstanceAs (Decidable (¬ "..".toList <:+: name))

/-- The workspaces that a session serves. -/
structure SessionWorkspaces where
  workspaceIds : List Text := []
  workspaceRoots : Registry Text Text := ∅

structure RepoWorld extends World where
  repo : Repo AbsPath Text
  refNames : ∀ b ∈ repo.branches, IsRefName b
  /-- What each session serves. -/
  served : SessionId → SessionWorkspaces := fun _ => {}

structure RenameEnv extends Env where
  /-- `git branch -m` with the old name. -/
  renameBack : Outcome := {}
  /-- The entry disappears while the git commands run. -/
  entryGone : Bool := false

/-- `register_workspace_with_path` -/
def SessionWorkspaces.registerWorkspaceWithPath (served : SessionWorkspaces) (workspaceId : Text)
    (workspacePath : Option Text) : SessionWorkspaces :=
  let served := { served with workspaceIds := served.workspaceIds.insert workspaceId }
  match workspacePath with
  | none => served
  | some path =>
      let normalized := Threads.Backend.normalizeRootPath path
      if normalized.isEmpty then served
      else { served with workspaceRoots := served.workspaceRoots.insert workspaceId normalized }

/-! ### The git commands -/

theorem refNames_renameBranch {w : RepoWorld} {old new : Text} (h : IsRefName new) :
    ∀ b ∈ (w.repo.renameBranch old new).branches, IsRefName b := by
  intro b hb
  obtain ⟨a, ha, rfl⟩ := List.mem_map.mp hb
  by_cases hold : a = old
  · rwa [hold, relabel_old]
  · rw [relabel_of_ne hold]
    exact w.refNames a ha

namespace RepoWorld

variable (w : RepoWorld)

/-- `git branch -m` -/
def renameBranch (outcome : Outcome) (old new : Text) : Except Text Unit × RepoWorld :=
  if h : outcome.ok ∧ old ∈ w.repo.branches ∧ new ∉ w.repo.branches ∧ IsRefName new then
    (.ok (), { w with
      repo := w.repo.renameBranch old new
      refNames := refNames_renameBranch h.2.2.2 })
  else (.error outcome.error, w)

/-- `git worktree move`, run in a directory. -/
def moveWorktree (dir : AbsPath) (outcome : Outcome) (old new : Text) :
    Except Text Unit × RepoWorld :=
  let src := UnixPath.resolve none old dir
  let dst := UnixPath.resolve none new dir
  if outcome.ok ∧ w.repo.HasWorktree src ∧ ¬ w.repo.HasWorktree dst then
    (.ok (), { w with repo := w.repo.moveWorktree src dst })
  else (.error outcome.error, w)

/-- The directory of the worktrees is made. -/
def createDirAll (env : RenameEnv) (path : Text) : Except Text Unit × RepoWorld :=
  match w.toWorld.createDirAll env.toEnv path with
  | (result, world) => (result, { w with toWorld := world })

/-- The session of a workspace learns its root. -/
def registerRoot (entry : WorkspaceEntry) : RepoWorld :=
  match w.sessions.lookup entry.id with
  | none => w
  | some session =>
      { w with
        served := Function.update w.served session <|
          (w.served session).registerWorkspaceWithPath entry.id (some entry.path) }

/-- What others do to the entry meanwhile. -/
def interrupted (env : RenameEnv) (id : Text) : RepoWorld :=
  if env.entryGone then { w with workspaces := w.workspaces.erase id } else w

end RepoWorld

/-! ### The operation -/

/-- What is to be done, once everything was checked. -/
structure RenamePlan where
  parentRoot : AbsPath
  oldBranch : Text
  finalBranch : Text
  oldPath : Text
  nextPath : Text

/-- The checks, and the directory that is made. -/
def planRename (env : RenameEnv) (id branch : Text) (w : RepoWorld) :
    Except Text RenamePlan × RepoWorld :=
  let trimmed := branch.trim
  if trimmed.isEmpty then (.error "Branch name is required.".toList, w)
  else match worktreeWithParent w.workspaces id with
    | .error error => (.error error, w)
    | .ok (entry, parent) =>
        match entry.worktree with
        | none => (.error "worktree metadata missing".toList, w)
        | some oldBranch =>
            if oldBranch = trimmed then (.error "Branch name is unchanged.".toList, w)
            else match env.resolveGitRoot with
              | .error error => (.error error, w)
              | .ok parentRoot =>
                  match env.uniqueBranchName with
                  | .error error => (.error error, w)
                  | .ok finalBranch =>
                      if finalBranch = oldBranch then
                        (.error "Branch name is unchanged.".toList, w)
                      else
                        let root := worktreeRoot env.toEnv parent
                        match w.createDirAll env root with
                        | (.error error, w) =>
                            (.error ("Failed to create worktree directory: ".toList ++ error), w)
                        | (.ok (), w) =>
                            match uniqueWorktreePathForRename (w.presentAt env.toEnv) root
                                (sanitizeWorktreeName finalBranch) entry.path with
                            | .error error => (.error error, w)
                            | .ok nextPath =>
                                (.ok ⟨env.locate parentRoot, oldBranch, finalBranch, entry.path,
                                  nextPath⟩, w)

/-- The worktree is moved, unless it is where it should be; whether it was moved. -/
def moveToNextPath (env : RenameEnv) (plan : RenamePlan) (w : RepoWorld) :
    Except Text Bool × RepoWorld :=
  if workspacePathToString plan.nextPath ≠ plan.oldPath then
    match w.moveWorktree plan.parentRoot env.moveWorktree plan.oldPath plan.nextPath with
    | (.error error, w) => (.error error, w)
    | (.ok (), w) => (.ok true, w)
  else (.ok false, w)

/-- The compensating commands: the worktree back, if it was moved, and the branch. -/
def undoGit (env : RenameEnv) (plan : RenamePlan) (moved : Bool) (w : RepoWorld) : RepoWorld :=
  let w := if moved then
      (w.moveWorktree plan.parentRoot env.moveBack plan.nextPath plan.oldPath).2
    else w
  (w.renameBranch env.renameBack plan.finalBranch plan.oldBranch).2

/-- The entry is changed and the list written; then the session learns the root. -/
def updateEntry (env : RenameEnv) (id : Text) (plan : RenamePlan) (moved : Bool) (w : RepoWorld) :
    Except Text WorkspaceInfo × RepoWorld :=
  match w.workspaces.lookup id with
  | none => (.error "workspace not found".toList, undoGit env plan moved w)
  | some oldSnapshot =>
      let entry := renamedEntry plan.oldBranch plan.finalBranch
        (workspacePathToString plan.nextPath) oldSnapshot
      let w := { w with workspaces := w.workspaces.insert id entry }
      match env.write.result with
      | .error error =>
          let w := undoGit env plan moved w
          (.error error, { w with workspaces := modify w.workspaces id fun _ => oldSnapshot })
      | .ok () =>
          let w := w.registerRoot entry
          (.ok ⟨entry, (w.sessions.lookup entry.id).isSome⟩, w)

/-- The second half: the branch is renamed, the worktree moved, the entry changed. -/
def applyRename (env : RenameEnv) (id : Text) (plan : RenamePlan) (w : RepoWorld) :
    Except Text WorkspaceInfo × RepoWorld :=
  match w.renameBranch env.renameBranch plan.oldBranch plan.finalBranch with
  | (.error error, w) => (.error error, w)
  | (.ok (), w) =>
      match moveToNextPath env plan w with
      | (.error error, w) =>
          (.error error, (w.renameBranch env.renameBack plan.finalBranch plan.oldBranch).2)
      | (.ok moved, w) => updateEntry env id plan moved (w.interrupted env id)

def renameWorktreeCore (env : RenameEnv) (id branch : Text) (w : RepoWorld) :
    Except Text WorkspaceInfo × RepoWorld :=
  match planRename env id branch w with
  | (.error error, w) => (.error error, w)
  | (.ok plan, w) => applyRename env id plan w

end Renaming

end CodexMonitor.WorkspaceStore
