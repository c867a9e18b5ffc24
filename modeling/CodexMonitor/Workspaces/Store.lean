import CodexMonitor.Lib.Machine
import CodexMonitor.Workspaces.Entries

namespace CodexMonitor.WorkspaceStore

open Text

/-!
# Workspaces — the operations on the map of workspaces

The operations of `shared/workspaces_core` that change the map of workspaces and the file it
is stored in, interleaved at their await points.  Behind its last await an operation that
writes the file does not yield between taking the list of entries and writing it.

* `Request` — the operations with their arguments.
* `Stage` — where an operation stands: each stage ends with one locked access to the map, or
  with the failure of what is done outside the map (git, spawning a session, directories).
* `Draw` — what the environment decides: the new id, the new path, the branch.
* `storeMachine` — the interleavings.
-/

inductive Request
  | addWorkspace (path : Text)
  | addClone (sourceWorkspaceId copyName copiesFolder : Text)
  | addWorkspaceFromGitUrl (url destinationPath : Text) (targetFolderName : Option Text)
  | addWorktree (parentId branch : Text) (name : Option Text)
  | removeWorktree (id : Text)
  | removeWorkspace (id : Text)
      (requireAllChildrenRemovedToRemoveParent continueOnChildError : Bool)
  | renameWorktree (id branch : Text)
  | updateWorkspaceSettings (id : Text) (settings : WorkspaceSettings)
  deriving DecidableEq, Repr

/-- The two flags of a removal. -/
structure RemoveFlags where
  requireAllChildrenRemovedToRemoveParent : Bool
  continueOnChildError : Bool
  deriving DecidableEq, Repr

/-- Where an operation stands. -/
inductive Stage
  | requested (request : Request)
  /-- Clones, spawns a session; then inserts the entry. -/
  | adding (entry : WorkspaceEntry)
  /-- Could not write: takes the entry back. -/
  | undoing (id error : Text)
  /-- Makes the worktree, spawns a session; then inserts the entry. -/
  | addingWorktree (entry : WorkspaceEntry)
  /-- Removes the worktree's directory; then removes the entry. -/
  | removingWorktree (id : Text)
  /-- Removes the directories of the children, those of `children` still to come. -/
  | removingWorkspace (id : Text) (children removed : List Text) (failures : List (Text × Text))
      (flags : RemoveFlags)
  /-- Renames the branch and moves the worktree; then updates the entry. -/
  | renamingWorktree (id oldBranch finalBranch nextPath : Text)
  /-- Could not write: puts the old entry back. -/
  | restoring (id : Text) (oldSnapshot : WorkspaceEntry) (error : Text)
  /-- Has changed the settings of its workspace; hands the setup script on to the children. -/
  | updatingChildren (entry : WorkspaceEntry) (children : List Text)
  /-- Has changed what it changes, and takes and writes the list. -/
  | persisting (entry : WorkspaceEntry)
  | returned (result : Except Text (Option WorkspaceEntry))

/-- Something done outside the map is under way, and its failure ends the operation. -/
def Stage.refusable : Stage → Bool
  | .requested _ | .adding _ | .addingWorktree _ | .removingWorktree _ | .renamingWorktree .. => true
  | _ => false

/-- What the environment decides for an operation. -/
structure Draw where
  /-- `Uuid::new_v4()` -/
  id : Text := []
  /-- The directory of the clone or of the worktree. -/
  path : Text := []
  home : Option Text := none
  /-- The answer of `unique_branch_name`. -/
  finalBranch : Text := []
  deriving DecidableEq, Repr

/-- The map, the list in the file, and the operations. -/
structure Store where
  workspaces : Workspaces := ∅
  file : List WorkspaceEntry := []
  ops : Tasks Stage := Tasks.idle
  /-- The ids drawn so far, with the kind and the parent of their entry. -/
  issued : Registry Text (WorkspaceKind × Option Text) := ∅

inductive Step
  | request (request : Request)
  /-- Something outside the map fails. -/
  | refuse (error : Text)
  /-- The first access to the map. -/
  | lookup (draw : Draw)
  | insert (written : Except Text Unit)
  | undo
  /-- The directory of the next child is removed, or not. -/
  | child (outcome : Except Text Unit)
  | remove (written : Except Text Unit)
  | rename (written : Except Text Unit)
  | restore
  | updateChildren
  | persist (written : Except Text Unit)

inductive Action
  | op (i : Nat) (step : Step)

/-! ### The entries that are made -/

def addedEntry (draw : Draw) (path : Text) : WorkspaceEntry :=
  let path := workspacePathToString (normalizeWorkspacePathInput draw.home path)
  { id := draw.id, name := (fileName path).getD "Workspace".toList, path := path }

def clonedEntry (draw : Draw) (workspaces : Workspaces) (source : WorkspaceEntry)
    (copyName : Text) : WorkspaceEntry :=
  let groupId :=
    if source.isWorktree then
      (source.parentId.bind fun parentId => workspaces.lookup parentId).bind
        fun parent => parent.settings.groupId
    else source.settings.groupId
  let cloneSource := source.settings.cloneSourceWorkspaceId.or
    (if source.isWorktree then source.parentId else some source.id)
  { id := draw.id, name := copyName, path := workspacePathToString draw.path
    settings := { groupId := groupId, cloneSourceWorkspaceId := cloneSource } }

def gitUrlEntry (draw : Draw) : WorkspaceEntry :=
  { id := draw.id, name := (fileName draw.path).getD "Workspace".toList
    path := workspacePathToString draw.path }

def worktreeEntry (draw : Draw) (parent : WorkspaceEntry) (branch : Text) (name : Option Text) :
    WorkspaceEntry :=
  { id := draw.id, name := ((name.map trim).filter fun n => !n.isEmpty).getD branch
    path := workspacePathToString draw.path, kind := .worktree, parentId := some parent.id
    worktree := some branch
    settings := { worktreeSetupScript := normalizeSetupScript parent.settings.worktreeSetupScript } }

/-- The entry behind a rename. -/
def renamedEntry (oldBranch finalBranch nextPath : Text) (entry : WorkspaceEntry) :
    WorkspaceEntry :=
  { entry with
    name := if entry.name.trim = oldBranch then finalBranch else entry.name
    path := nextPath
    worktree := some finalBranch }

/-- The settings as an update stores them. -/
def acceptedSettings (settings : WorkspaceSettings) : WorkspaceSettings :=
  { settings with
    worktreeSetupScript := normalizeSetupScript settings.worktreeSetupScript
    worktreesFolder := settings.worktreesFolder.map normalizeWindowsNamespacePath }

/-- `if let Some(entry) = workspaces.get_mut(id) { .. }` -/
def modify (workspaces : Workspaces) (id : Text) (f : WorkspaceEntry → WorkspaceEntry) :
    Workspaces :=
  match workspaces.lookup id with
  | some entry => workspaces.insert id (f entry)
  | none => workspaces

/-- The ids of the entries whose parent is `id`. -/
def childIds (workspaces : Workspaces) (id : Text) : List Text :=
  ((values workspaces).filter fun entry => entry.parentId = some id).map WorkspaceEntry.id

def withSetupScript (script : Option Text) (entry : WorkspaceEntry) : WorkspaceEntry :=
  { entry with settings := { entry.settings with worktreeSetupScript := script } }

/-- The message of a removal that left the parent. -/
def removeFailedMessage (failures : List (Text × Text)) : Text :=
  "Failed to remove one or more worktrees; parent workspace was not removed.".toList ++
    failures.flatMap fun (childId, error) => "\n- ".toList ++ childId ++ ": ".toList ++ error

namespace Store

def move (s : Store) (i : Nat) (stage : Stage) : Store := { s with ops := s.ops.set i stage }

def fail (s : Store) (i : Nat) (error : String) : Store :=
  s.move i (.returned (.error error.toList))

/-- `write_workspaces` with the entries of the map. -/
def write (s : Store) : Store := { s with file := stored s.workspaces }

/-- A new entry's id is drawn. -/
def issue (s : Store) (entry : WorkspaceEntry) : Store :=
  { s with issued := s.issued.insert entry.id (entry.kind, entry.parentId) }

/-- The operation goes on with a new entry, whose id was never drawn before. -/
def begin (s : Store) (i : Nat) (entry : WorkspaceEntry) (stage : Stage) : Option Store :=
  if (s.issued.lookup entry.id).isNone then some ((s.issue entry).move i stage) else none

/-- The entry of a worktree with its parent, as two operations look them up. -/
def worktreeWithParent (s : Store) (id : Text) : Except Text (WorkspaceEntry × WorkspaceEntry) :=
  match s.workspaces.lookup id with
  | none => .error "workspace not found".toList
  | some entry =>
      if ¬ entry.isWorktree then .error "Not a worktree workspace.".toList
      else match entry.parentId with
        | none => .error "worktree parent not found".toList
        | some parentId =>
            match s.workspaces.lookup parentId with
            | none => .error "worktree parent not found".toList
            | some parent => .ok (entry, parent)

/-- The first access of an operation to the map. -/
def firstAccess (s : Store) (i : Nat) (draw : Draw) : Request → Option Store
  | .addWorkspace path =>
      let entry := addedEntry draw path
      s.begin i entry (.adding entry)
  | .addClone source copyName copiesFolder =>
      if copyName.trim.isEmpty then some (s.fail i "Copy name is required.")
      else if copiesFolder.trim.isEmpty then some (s.fail i "Copies folder is required.")
      else match s.workspaces.lookup source with
        | none => some (s.fail i "source workspace not found")
        | some source =>
            let entry := clonedEntry draw s.workspaces source copyName.trim
            s.begin i entry (.adding entry)
  | .addWorkspaceFromGitUrl _ _ _ =>
      let entry := gitUrlEntry draw
      s.begin i entry (.adding entry)
  | .addWorktree parentId branch name =>
      if branch.trim.isEmpty then some (s.fail i "Branch name is required.")
      else match s.workspaces.lookup parentId with
        | none => some (s.fail i "parent workspace not found")
        | some parent =>
            if parent.isWorktree then
              some (s.fail i "Cannot create a worktree from another worktree.")
            else
              let entry := worktreeEntry draw parent branch.trim name
              s.begin i entry (.addingWorktree entry)
  | .removeWorktree id =>
      match s.worktreeWithParent id with
      | .error error => some (s.move i (.returned (.error error)))
      | .ok (entry, _) => some (s.move i (.removingWorktree entry.id))
  | .removeWorkspace id requireAll continueOnError =>
      match s.workspaces.lookup id with
      | none => some (s.fail i "workspace not found")
      | some entry =>
          if entry.isWorktree then some (s.fail i "Use remove_worktree for worktree agents.")
          else some (s.move i (.removingWorkspace id (childIds s.workspaces id) [] []
            ⟨requireAll, continueOnError⟩))
  | .renameWorktree id branch =>
      if branch.trim.isEmpty then some (s.fail i "Branch name is required.")
      else match s.worktreeWithParent id with
        | .error error => some (s.move i (.returned (.error error)))
        | .ok (entry, _) =>
            match entry.worktree with
            | none => some (s.fail i "worktree metadata missing")
            | some oldBranch =>
                if oldBranch = branch.trim ∨ draw.finalBranch = oldBranch then
                  some (s.fail i "Branch name is unchanged.")
                else some (s.move i (.renamingWorktree id oldBranch draw.finalBranch
                  (workspacePathToString draw.path)))
  | .updateWorkspaceSettings id settings =>
      match s.workspaces.lookup id with
      | none => some (s.fail i "workspace not found")
      | some previous =>
          let entry := { previous with settings := acceptedSettings settings }
          let s := { s with workspaces := s.workspaces.insert id entry }
          let children := childIds s.workspaces id
          if previous.settings.worktreeSetupScript ≠ entry.settings.worktreeSetupScript ∧
              ¬ entry.isWorktree ∧ children ≠ [] then
            some (s.move i (.updatingChildren entry children))
          else some (s.move i (.persisting entry))

/-- What the first access of an operation can do to the map and to the operation. -/
inductive FirstAccess (s : Store) (i : Nat) : Store → Prop
  | refused (error : Text) : FirstAccess s i (s.move i (.returned (.error error)))
  | adding {entry : WorkspaceEntry} (hkind : entry.kind = .main) (hparent : entry.parentId = none)
      (hfresh : s.issued.lookup entry.id = none) :
      FirstAccess s i ((s.issue entry).move i (.adding entry))
  | addingWorktree {entry parent : WorkspaceEntry} {parentId : Text}
      (hlookup : s.workspaces.lookup parentId = some parent) (hmain : parent.isWorktree = false)
      (hkind : entry.kind = .worktree) (hparent : entry.parentId = some parent.id)
      (hfresh : s.issued.lookup entry.id = none) :
      FirstAccess s i ((s.issue entry).move i (.addingWorktree entry))
  | removingWorktree {id : Text} {entry : WorkspaceEntry}
      (hlookup : s.workspaces.lookup id = some entry) (hkind : entry.isWorktree = true) :
      FirstAccess s i (s.move i (.removingWorktree entry.id))
  | removingWorkspace (id : Text) (flags : RemoveFlags) :
      FirstAccess s i (s.move i
        (.removingWorkspace id (childIds s.workspaces id) [] [] flags))
  | renamingWorktree (id oldBranch finalBranch nextPath : Text) :
      FirstAccess s i (s.move i (.renamingWorktree id oldBranch finalBranch nextPath))
  | updating {id : Text} {previous : WorkspaceEntry} {settings : WorkspaceSettings} {st : Stage}
      (hlookup : s.workspaces.lookup id = some previous)
      (hst : st = .persisting { previous with settings := settings } ∨
        ∃ children, st = .updatingChildren { previous with settings := settings } children) :
      FirstAccess s i ({ s with
        workspaces := s.workspaces.insert id { previous with settings := settings } }.move i st)

theorem begin_eq_some {s s' : Store} {i : Nat} {entry : WorkspaceEntry} {st : Stage}
    (h : s.begin i entry st = some s') :
    s.issued.lookup entry.id = none ∧ s' = (s.issue entry).move i st := by
  unfold Store.begin at h
  split at h
  next hfresh =>
    cases h
    exact ⟨Option.isNone_iff_eq_none.mp hfresh, rfl⟩
  next => cases h

theorem worktreeWithParent_eq_ok {s : Store} {id : Text} {entry parent : WorkspaceEntry}
    (h : s.worktreeWithParent id = .ok (entry, parent)) :
    s.workspaces.lookup id = some entry ∧ entry.isWorktree = true := by
  unfold Store.worktreeWithParent at h
  split at h
  · cases h
  next found hlookup =>
    split at h
    · cases h
    next hkind =>
      split at h
      · cases h
      · split at h <;> cases h
        exact ⟨hlookup, not_not.mp hkind⟩

theorem firstAccess_spec {s s' : Store} {i : Nat} {draw : Draw} {request : Request}
    (h : s.firstAccess i draw request = some s') : FirstAccess s i s' := by
  cases request with
  | addWorkspace path =>
    obtain ⟨hfresh, rfl⟩ := begin_eq_some h
    exact .adding rfl rfl hfresh
  | addClone source copyName copiesFolder =>
    simp only [firstAccess] at h
    split_ifs at h
    · cases h
      exact .refused _
    · cases h
      exact .refused _
    · split at h
      · cases h
        exact .refused _
      · obtain ⟨hfresh, rfl⟩ := begin_eq_some h
        exact .adding rfl rfl hfresh
  | addWorkspaceFromGitUrl url destinationPath targetFolderName =>
    obtain ⟨hfresh, rfl⟩ := begin_eq_some h
    exact .adding rfl rfl hfresh
  | addWorktree parentId branch name =>
    simp only [firstAccess] at h
    split_ifs at h
    · cases h
      exact .refused _
    · split at h
      · cases h
        exact .refused _
      next parent hlookup =>
        split_ifs at h with hkind
        · cases h
          exact .refused _
        · obtain ⟨hfresh, rfl⟩ := begin_eq_some h
          exact .addingWorktree hlookup (Bool.eq_false_iff.mpr hkind) rfl rfl hfresh
  | removeWorktree id =>
    simp only [firstAccess] at h
    split at h
    · cases h
      exact .refused _
    next entry parent hfound =>
      cases h
      obtain ⟨hlookup, hkind⟩ := worktreeWithParent_eq_ok hfound
      exact .removingWorktree hlookup hkind
  | removeWorkspace id requireAll continueOnError =>
    simp only [firstAccess] at h
    split at h
    · cases h
      exact .refused _
    · split_ifs at h <;> cases h
      · exact .refused _
      · exact .removingWorkspace id _
  | renameWorktree id branch =>
    simp only [firstAccess] at h
    split_ifs at h
    · cases h
      exact .refused _
    · split at h
      · cases h
        exact .refused _
      · split at h
        · cases h
          exact .refused _
        · split_ifs at h <;> cases h
          · exact .refused _
          · exact .renamingWorktree id _ _ _
  | updateWorkspaceSettings id settings =>
    simp only [firstAccess] at h
    split at h
    · cases h
      exact .refused _
    next previous hlookup =>
      split_ifs at h <;> cases h
      · exact .updating hlookup (.inr ⟨_, rfl⟩)
      · exact .updating hlookup (.inl rfl)

/-- The ids that a removal of a workspace removes at its end. -/
def idsToRemove (id : Text) (removed : List Text) (failures : List (Text × Text))
    (flags : RemoveFlags) : List Text :=
  if failures.isEmpty ∨ ¬ flags.requireAllChildrenRemovedToRemoveParent then removed ++ [id]
  else removed

/-- What a removal of a workspace returns after writing. -/
def removeResult (failures : List (Text × Text)) (flags : RemoveFlags) :
    Except Text (Option WorkspaceEntry) :=
  if failures.isEmpty ∨ ¬ flags.requireAllChildrenRemovedToRemoveParent then .ok none
  else .error (removeFailedMessage failures)

/-- `for workspace_id in ids_to_remove { workspaces.remove(&workspace_id); }` -/
def removeAll (workspaces : Workspaces) (ids : List Text) : Workspaces :=
  ids.foldl (fun ws id => ws.erase id) workspaces

/-- The map after the access of `update_workspace_settings_core` to the children. -/
def updateAll (workspaces : Workspaces) (ids : List Text) (script : Option Text) : Workspaces :=
  ids.foldl (fun ws id => modify ws id (withSetupScript script)) workspaces

/-- The operation ends with the outcome of writing the file. -/
def finish (s : Store) (i : Nat) (written : Except Text Unit)
    (result : Except Text (Option WorkspaceEntry)) : Store :=
  match written with
  | .ok _ => s.write.move i (.returned result)
  | .error error => s.move i (.returned (.error error))

/-- A step of the operation `i`. -/
def stepOp (s : Store) (i : Nat) (step : Step) : Option Store :=
  match s.ops i, step with
  | none, .request request => some (s.move i (.requested request))
  | some (.requested request), .lookup draw => s.firstAccess i draw request
  | some (.requested _), .refuse error | some (.adding _), .refuse error
  | some (.addingWorktree _), .refuse error | some (.removingWorktree _), .refuse error
  | some (.renamingWorktree ..), .refuse error => some (s.move i (.returned (.error error)))
  | some (.adding entry), .insert written =>
      let s := { s with workspaces := s.workspaces.insert entry.id entry }
      match written with
      | .ok _ => some (s.write.move i (.returned (.ok (some entry))))
      | .error error => some (s.move i (.undoing entry.id error))
  | some (.undoing id error), .undo =>
      some ({ s with workspaces := s.workspaces.erase id }.move i (.returned (.error error)))
  -- a worktree whose list could not be written stays in the map
  | some (.addingWorktree entry), .insert written =>
      some ({ s with workspaces := s.workspaces.insert entry.id entry }.finish i written
        (.ok (some entry)))
  | some (.removingWorktree id), .remove written =>
      some ({ s with workspaces := s.workspaces.erase id }.finish i written (.ok none))
  | some (.removingWorkspace id (child :: children) removed failures flags), .child outcome =>
      match outcome with
      | .ok _ =>
          some (s.move i (.removingWorkspace id children (removed ++ [child]) failures flags))
      | .error error =>
          if flags.continueOnChildError then
            some (s.move i (.removingWorkspace id children removed
              (failures ++ [(child, error)]) flags))
          else some (s.move i (.returned (.error error)))
  | some (.removingWorkspace id [] removed failures flags), .remove written =>
      let ids := idsToRemove id removed failures flags
      some ({ s with workspaces := removeAll s.workspaces ids }.finish i written
        (removeResult failures flags))
  | some (.renamingWorktree id oldBranch finalBranch nextPath), .rename written =>
      match s.workspaces.lookup id with
      | none => some (s.fail i "workspace not found")
      | some old =>
          let entry := renamedEntry oldBranch finalBranch nextPath old
          let s := { s with workspaces := s.workspaces.insert id entry }
          match written with
          | .ok _ => some (s.write.move i (.returned (.ok (some entry))))
          | .error error => some (s.move i (.restoring id old error))
  | some (.restoring id old error), .restore =>
      some ({ s with workspaces := modify s.workspaces id fun _ => old }.move i
        (.returned (.error error)))
  | some (.updatingChildren entry children), .updateChildren =>
      some ({ s with
        workspaces := updateAll s.workspaces children entry.settings.worktreeSetupScript }.move i
          (.persisting entry))
  | some (.persisting entry), .persist written => some (s.finish i written (.ok (some entry)))
  | _, _ => none

/-- What a step of an operation can do. -/
inductive Effect (s : Store) (i : Nat) : Step → Store → Prop
  | request (hnone : s.ops i = none) (request : Request) :
      Effect s i (.request request) (s.move i (.requested request))
  | lookup {request : Request} {draw : Draw} {s' : Store}
      (hst : s.ops i = some (.requested request)) (haccess : FirstAccess s i s') :
      Effect s i (.lookup draw) s'
  | refuse {st : Stage} (hst : s.ops i = some st) (hrefusable : st.refusable = true)
      (error : Text) : Effect s i (.refuse error) (s.move i (.returned (.error error)))
  | insert {entry : WorkspaceEntry} (hst : s.ops i = some (.adding entry)) :
      Effect s i (.insert (.ok ()))
        ({ s with workspaces := s.workspaces.insert entry.id entry }.write.move i
          (.returned (.ok (some entry))))
  | insertFails {entry : WorkspaceEntry} (hst : s.ops i = some (.adding entry)) (error : Text) :
      Effect s i (.insert (.error error))
        ({ s with workspaces := s.workspaces.insert entry.id entry }.move i
          (.undoing entry.id error))
  | undo {id error : Text} (hst : s.ops i = some (.undoing id error)) :
      Effect s i .undo
        ({ s with workspaces := s.workspaces.erase id }.move i (.returned (.error error)))
  | insertWorktree {entry : WorkspaceEntry} (hst : s.ops i = some (.addingWorktree entry))
      (written : Except Text Unit) :
      Effect s i (.insert written)
        ({ s with workspaces := s.workspaces.insert entry.id entry }.finish i written
          (.ok (some entry)))
  | removeWorktree {id : Text} (hst : s.ops i = some (.removingWorktree id))
      (written : Except Text Unit) :
      Effect s i (.remove written)
        ({ s with workspaces := s.workspaces.erase id }.finish i written (.ok none))
  | child {id child : Text} {children removed : List Text} {failures : List (Text × Text)}
      {flags : RemoveFlags} {st : Stage} (outcome : Except Text Unit)
      (hst : s.ops i = some (.removingWorkspace id (child :: children) removed failures flags))
      (hnext : (∃ removed failures, st = .removingWorkspace id children removed failures flags) ∨
        ∃ error, st = .returned (.error error)) :
      Effect s i (.child outcome) (s.move i st)
  | removeWorkspace {id : Text} {removed : List Text} {failures : List (Text × Text)}
      {flags : RemoveFlags}
      (hst : s.ops i = some (.removingWorkspace id [] removed failures flags))
      (written : Except Text Unit) :
      Effect s i (.remove written)
        ({ s with
          workspaces := removeAll s.workspaces (idsToRemove id removed failures flags) }.finish i
            written (removeResult failures flags))
  | renameMissing {id oldBranch finalBranch nextPath : Text} (written : Except Text Unit)
      (hst : s.ops i = some (.renamingWorktree id oldBranch finalBranch nextPath)) :
      Effect s i (.rename written) (s.fail i "workspace not found")
  | rename {id oldBranch finalBranch nextPath : Text} {old : WorkspaceEntry}
      (hst : s.ops i = some (.renamingWorktree id oldBranch finalBranch nextPath))
      (hlookup : s.workspaces.lookup id = some old) :
      Effect s i (.rename (.ok ()))
        ({ s with
          workspaces := s.workspaces.insert id
            (renamedEntry oldBranch finalBranch nextPath old) }.write.move i
          (.returned (.ok (some (renamedEntry oldBranch finalBranch nextPath old)))))
  | renameFails {id oldBranch finalBranch nextPath : Text} {old : WorkspaceEntry} (error : Text)
      (hst : s.ops i = some (.renamingWorktree id oldBranch finalBranch nextPath))
      (hlookup : s.workspaces.lookup id = some old) :
      Effect s i (.rename (.error error))
        ({ s with
          workspaces := s.workspaces.insert id
            (renamedEntry oldBranch finalBranch nextPath old) }.move i
          (.restoring id old error))
  | restore {id error : Text} {old : WorkspaceEntry}
      (hst : s.ops i = some (.restoring id old error)) :
      Effect s i .restore
        ({ s with workspaces := modify s.workspaces id fun _ => old }.move i
          (.returned (.error error)))
  | updateChildren {entry : WorkspaceEntry} {children : List Text}
      (hst : s.ops i = some (.updatingChildren entry children)) :
      Effect s i .updateChildren
        ({ s with
          workspaces := updateAll s.workspaces children entry.settings.worktreeSetupScript }.move i
          (.persisting entry))
  | persist {entry : WorkspaceEntry} (hst : s.ops i = some (.persisting entry))
      (written : Except Text Unit) :
      Effect s i (.persist written) (s.finish i written (.ok (some entry)))

/-- **Inversion of a step.** -/
theorem stepOp_effect {s s' : Store} {i : Nat} {step : Step} (h : s.stepOp i step = some s') :
    Effect s i step s' := by
  unfold stepOp at h
  split at h
  next hnone =>
    cases h
    exact .request hnone _
  next hst => exact .lookup hst (firstAccess_spec h)
  next hst => cases h; exact .refuse hst rfl _
  next hst => cases h; exact .refuse hst rfl _
  next hst => cases h; exact .refuse hst rfl _
  next hst => cases h; exact .refuse hst rfl _
  next hst => cases h; exact .refuse hst rfl _
  next hst =>
    dsimp only at h
    split at h <;> cases h
    · exact .insert hst
    · exact .insertFails hst _
  next hst => cases h; exact .undo hst
  next hst => cases h; exact .insertWorktree hst _
  next hst => cases h; exact .removeWorktree hst _
  next hst =>
    split at h
    · cases h
      exact .child _ hst (.inl ⟨_, _, rfl⟩)
    · split_ifs at h <;> cases h
      · exact .child _ hst (.inl ⟨_, _, rfl⟩)
      · exact .child _ hst (.inr ⟨_, rfl⟩)
  next hst => cases h; exact .removeWorkspace hst _
  next hst =>
    split at h
    · cases h
      exact .renameMissing _ hst
    next old hlookup =>
      dsimp only at h
      split at h <;> cases h
      · exact .rename hst hlookup
      · exact .renameFails _ hst hlookup
  next hst => cases h; exact .restore hst
  next hst => cases h; exact .updateChildren hst
  next hst => cases h; exact .persist hst _
  next => cases h

end Store

/-- The operations on one map of workspaces. -/
def storeMachine : Machine Store Action where
  init := {}
  step s
    | .op i step => s.stepOp i step

end CodexMonitor.WorkspaceStore
