import CodexMonitor.Workspaces.Compensation
import CodexMonitor.Workspaces.Renaming

namespace CodexMonitor.WorkspaceStore.Renaming

open Text

/-!
# Workspaces — a renamed worktree is rolled back, or followed

Each command is undone by its compensation, so that a failure after any of them leaves the
repository and the entry as they were.  After a success git has the branch of the entry; the path
of the entry leads to the worktree if git finds the folder of the worktrees where the app does.

* `Restored`, `Follows` — after a failure, and after a success.
* `undoGit_restores` — the compensating commands.
* `FolderFound` — the folder of the worktrees leads the app and git to one place.
* `renameWorktree_follows_iff` — the whole operation.
-/

/-- **After a failure**: the repository is as before, and so are the entries, up to one that
    others removed. -/
structure Restored (env : RenameEnv) (id : Text) (w w' : RepoWorld) : Prop where
  repo : w'.repo = w.repo
  entries : ∀ k, w'.workspaces.lookup k = w.workspaces.lookup k ∨
    env.entryGone = true ∧ k = id ∧ w'.workspaces.lookup k = none

/-- **After a success**: git has what it had, with the branch of the entry in place of the old one
    and with the worktree where the path of the entry leads; and the session has the path. -/
structure Follows (env : RenameEnv) (id : Text) (entry : WorkspaceEntry) (parentRoot : AbsPath)
    (w : RepoWorld) (info : WorkspaceInfo) (w' : RepoWorld) : Prop where
  stored : w'.workspaces.lookup id = some info.entry
  git : ∃ old new, entry.worktree = some old ∧ info.entry.worktree = some new ∧
    w'.repo = (w.repo.renameBranch old new).moveWorktree
      (UnixPath.resolve none entry.path parentRoot) (env.locate info.entry.path)
  root : ∀ session, w'.sessions.lookup info.entry.id = some session →
    (w'.served session).workspaceRoots.lookup info.entry.id =
      some (Threads.Backend.normalizeRootPath info.entry.path)

variable {env : RenameEnv} {id branch : Text} {w w' : RepoWorld} {plan : RenamePlan}

/-! ### The commands -/

theorem renameBranch_ok {outcome : Outcome} {old new : Text}
    (h : w.renameBranch outcome old new = (.ok (), w')) :
    w'.repo = w.repo.renameBranch old new ∧ old ∈ w.repo.branches ∧ new ∉ w.repo.branches ∧
      IsRefName new := by
  unfold RepoWorld.renameBranch at h
  split at h
  next hok =>
    obtain ⟨-, rfl⟩ := Prod.mk.inj h
    exact ⟨rfl, hok.2⟩
  next => cases h

theorem renameBranch_error {outcome : Outcome} {old new error : Text}
    (h : w.renameBranch outcome old new = (.error error, w')) : w' = w := by
  unfold RepoWorld.renameBranch at h
  split at h
  · cases h
  · exact (Prod.mk.inj h).2.symm

/-- A command touches nothing but the repository. -/
theorem renameBranch_frame (outcome : Outcome) (old new : Text) (w : RepoWorld) :
    (w.renameBranch outcome old new).2.toWorld = w.toWorld ∧
      (w.renameBranch outcome old new).2.served = w.served := by
  unfold RepoWorld.renameBranch
  split <;> exact ⟨rfl, rfl⟩

theorem moveWorktree_ok {dir : AbsPath} {outcome : Outcome} {old new : Text}
    (h : w.moveWorktree dir outcome old new = (.ok (), w')) :
    w'.repo = w.repo.moveWorktree (UnixPath.resolve none old dir) (UnixPath.resolve none new dir) ∧
      w.repo.HasWorktree (UnixPath.resolve none old dir) ∧
      ¬ w.repo.HasWorktree (UnixPath.resolve none new dir) := by
  unfold RepoWorld.moveWorktree at h
  dsimp only at h
  split at h
  next hok =>
    obtain ⟨-, rfl⟩ := Prod.mk.inj h
    exact ⟨rfl, hok.2⟩
  next => cases h

theorem moveWorktree_error {dir : AbsPath} {outcome : Outcome} {old new error : Text}
    (h : w.moveWorktree dir outcome old new = (.error error, w')) : w' = w := by
  unfold RepoWorld.moveWorktree at h
  dsimp only at h
  split at h
  · cases h
  · exact (Prod.mk.inj h).2.symm

theorem moveWorktree_frame (dir : AbsPath) (outcome : Outcome) (old new : Text) (w : RepoWorld) :
    (w.moveWorktree dir outcome old new).2.toWorld = w.toWorld ∧
      (w.moveWorktree dir outcome old new).2.served = w.served := by
  unfold RepoWorld.moveWorktree
  dsimp only
  split <;> exact ⟨rfl, rfl⟩

/-! ### Compensation -/

/-- The branch gets its old name back. -/
theorem renameBranch_back {outcome : Outcome} {old new : Text} {r : Repo AbsPath Text}
    (hok : outcome.ok = true) (hrepo : w.repo = r.renameBranch old new) (hold : old ∈ r.branches)
    (hnew : new ∉ r.branches) (hname : IsRefName old) :
    (w.renameBranch outcome new old).2.repo = r := by
  have hne : new ≠ old := by
    rintro rfl
    exact hnew hold
  have hback : outcome.ok ∧ new ∈ w.repo.branches ∧ old ∉ w.repo.branches ∧ IsRefName old := by
    rw [hrepo]
    exact ⟨hok, Repo.mem_renameBranch hold, Repo.not_mem_renameBranch hne, hname⟩
  unfold RepoWorld.renameBranch
  rw [dif_pos hback]
  show w.repo.renameBranch new old = r
  rw [hrepo, Repo.renameBranch_undo hnew]

/-- The worktree gets back to its old place. -/
theorem moveWorktree_back {dir : AbsPath} {outcome : Outcome} {old new : Text}
    {r : Repo AbsPath Text} (hok : outcome.ok = true)
    (hrepo : w.repo =
      r.moveWorktree (UnixPath.resolve none old dir) (UnixPath.resolve none new dir))
    (hold : r.HasWorktree (UnixPath.resolve none old dir))
    (hnew : ¬ r.HasWorktree (UnixPath.resolve none new dir)) :
    (w.moveWorktree dir outcome new old).2.repo = r := by
  have hne : UnixPath.resolve none new dir ≠ UnixPath.resolve none old dir := by
    intro h
    rw [h] at hnew
    exact hnew hold
  have hback : outcome.ok ∧ w.repo.HasWorktree (UnixPath.resolve none new dir) ∧
      ¬ w.repo.HasWorktree (UnixPath.resolve none old dir) := by
    rw [hrepo]
    exact ⟨hok, Repo.hasWorktree_moveWorktree hold, Repo.not_hasWorktree_moveWorktree hne⟩
  unfold RepoWorld.moveWorktree
  dsimp only
  rw [if_pos hback]
  show w.repo.moveWorktree _ _ = r
  rw [hrepo, Repo.moveWorktree_undo hnew]

theorem moveToNextPath_frame (env : RenameEnv) (plan : RenamePlan) (w : RepoWorld) :
    (moveToNextPath env plan w).2.toWorld = w.toWorld ∧
      (moveToNextPath env plan w).2.served = w.served := by
  have hframe := moveWorktree_frame plan.parentRoot env.moveWorktree plan.oldPath plan.nextPath w
  unfold moveToNextPath
  split
  · cases hmove : w.moveWorktree plan.parentRoot env.moveWorktree plan.oldPath plan.nextPath with
    | mk result after =>
      rw [hmove] at hframe
      cases result <;> exact hframe
  · exact ⟨rfl, rfl⟩

theorem moveToNextPath_error {error : Text} (h : moveToNextPath env plan w = (.error error, w')) :
    w' = w := by
  unfold moveToNextPath at h
  split at h
  · cases hmove : w.moveWorktree plan.parentRoot env.moveWorktree plan.oldPath plan.nextPath with
    | mk result after =>
      rw [hmove] at h
      cases result with
      | error e =>
        rw [← moveWorktree_error hmove]
        exact (Prod.mk.inj h).2.symm
      | ok => cases h
  · cases h

/-- Whether the worktree was moved, and what git has then. -/
theorem moveToNextPath_ok {moved : Bool} (h : moveToNextPath env plan w = (.ok moved, w')) :
    (moved = true ∧ workspacePathToString plan.nextPath ≠ plan.oldPath ∧
      w.moveWorktree plan.parentRoot env.moveWorktree plan.oldPath plan.nextPath = (.ok (), w')) ∨
    (moved = false ∧ workspacePathToString plan.nextPath = plan.oldPath ∧ w' = w) := by
  unfold moveToNextPath at h
  split at h
  next hne =>
    cases hmove : w.moveWorktree plan.parentRoot env.moveWorktree plan.oldPath plan.nextPath with
    | mk result after =>
      rw [hmove] at h
      cases result with
      | error e => cases h
      | ok =>
        obtain ⟨hmoved, rfl⟩ := Prod.mk.inj h
        exact .inl ⟨(Except.ok.inj hmoved).symm, hne, rfl⟩
  next heq =>
    obtain ⟨hmoved, rfl⟩ := Prod.mk.inj h
    exact .inr ⟨(Except.ok.inj hmoved).symm, not_not.mp heq, rfl⟩

theorem undoGit_frame (moved : Bool) (w : RepoWorld) :
    (undoGit env plan moved w).toWorld = w.toWorld := by
  unfold undoGit
  rw [(renameBranch_frame _ _ _ _).1]
  cases moved with
  | true => exact (moveWorktree_frame _ _ _ _ _).1
  | false => rfl

/-- **The compensating commands restore the repository.** -/
theorem undoGit_restores {renamed located : RepoWorld} {moved : Bool}
    (hmoveBack : env.moveBack.ok = true) (hrenameBack : env.renameBack.ok = true)
    (hrename : w.renameBranch env.renameBranch plan.oldBranch plan.finalBranch = (.ok (), renamed))
    (hmove : moveToNextPath env plan renamed = (.ok moved, located)) (hrepo : w'.repo = located.repo) :
    (undoGit env plan moved w').repo = w.repo := by
  obtain ⟨hrenamed, hold, hnew, -⟩ := renameBranch_ok hrename
  have hname : IsRefName plan.oldBranch := w.refNames _ hold
  unfold undoGit
  apply renameBranch_back hrenameBack _ hold hnew hname
  rcases moveToNextPath_ok hmove with ⟨rfl, -, hmove⟩ | ⟨rfl, -, rfl⟩
  · obtain ⟨hmoved, hsrc, hdst⟩ := moveWorktree_ok hmove
    rw [← hrenamed]
    exact moveWorktree_back hmoveBack (hrepo.trans hmoved) hsrc hdst
  · rw [← hrenamed]
    exact hrepo

/-! ### The checks -/

theorem createDirAll_frame (env : RenameEnv) (path : Text) (w : RepoWorld) :
    (w.createDirAll env path).2.workspaces = w.workspaces ∧
      (w.createDirAll env path).2.repo = w.repo := by
  unfold RepoWorld.createDirAll World.createDirAll World.made
  split
  next heq =>
    split at heq
    all_goals
      obtain ⟨-, rfl⟩ := Prod.mk.inj heq
      exact ⟨rfl, rfl⟩

/-- The checks change nothing that has to be restored. -/
theorem planRename_frame (env : RenameEnv) (id branch : Text) (w : RepoWorld) :
    (planRename env id branch w).2.workspaces = w.workspaces ∧
      (planRename env id branch w).2.repo = w.repo := by
  unfold planRename
  dsimp only
  split
  · exact ⟨rfl, rfl⟩
  split
  · exact ⟨rfl, rfl⟩
  next entry parent _ =>
    split
    · exact ⟨rfl, rfl⟩
    split
    · exact ⟨rfl, rfl⟩
    split
    · exact ⟨rfl, rfl⟩
    split
    · exact ⟨rfl, rfl⟩
    split
    · exact ⟨rfl, rfl⟩
    have hframe := createDirAll_frame env (worktreeRoot env.toEnv parent) w
    split
    next heq =>
      rw [heq] at hframe
      exact hframe
    next heq =>
      rw [heq] at hframe
      split <;> exact hframe

/-- **What was checked.** -/
structure Planned (env : RenameEnv) (id : Text) (w : RepoWorld) (plan : RenamePlan) (w' : RepoWorld)
    (entry parent : WorkspaceEntry) (root : Text) : Prop where
  found : worktreeWithParent w.workspaces id = .ok (entry, parent)
  gitRoot : env.resolveGitRoot = .ok root
  oldBranch : entry.worktree = some plan.oldBranch
  parentRoot : plan.parentRoot = env.locate root
  oldPath : plan.oldPath = entry.path
  created : w.createDirAll env (worktreeRoot env.toEnv parent) = (.ok (), w')
  nextPath : uniqueWorktreePathForRename (w'.presentAt env.toEnv) (worktreeRoot env.toEnv parent)
    (sanitizeWorktreeName plan.finalBranch) entry.path = .ok plan.nextPath

theorem planRename_ok (h : planRename env id branch w = (.ok plan, w')) :
    ∃ entry parent root, Planned env id w plan w' entry parent root := by
  unfold planRename at h
  dsimp only at h
  split at h
  · cases h
  split at h
  · cases h
  next entry parent hfound =>
    split at h
    · cases h
    next oldBranch hold =>
      split at h
      · cases h
      split at h
      · cases h
      next root hroot =>
        split at h
        · cases h
        split at h
        · cases h
        split at h
        · cases h
        next made hmade =>
          split at h
          · cases h
          next nextPath hnext =>
            obtain ⟨hplan, rfl⟩ := Prod.mk.inj h
            obtain rfl := Except.ok.inj hplan
            exact ⟨entry, parent, root, ⟨hfound, hroot, hold, rfl, rfl, hmade, hnext⟩⟩

/-! ### After a failure -/

theorem lookup_interrupted (env : RenameEnv) (id k : Text) (w : RepoWorld) :
    (w.interrupted env id).workspaces.lookup k = w.workspaces.lookup k ∨
      env.entryGone = true ∧ k = id ∧ (w.interrupted env id).workspaces.lookup k = none := by
  unfold RepoWorld.interrupted
  split
  next hgone =>
    by_cases hk : k = id
    · rw [hk]
      exact .inr ⟨hgone, rfl, AList.lookup_erase _ _⟩
    · exact .inl (AList.lookup_erase_ne hk)
  next => exact .inl rfl

theorem interrupted_repo (env : RenameEnv) (id : Text) (w : RepoWorld) :
    (w.interrupted env id).repo = w.repo := by
  unfold RepoWorld.interrupted
  split <;> rfl

/-- The entry that could not be written, or could not be found. -/
theorem updateEntry_error {error : Text} {moved : Bool}
    (h : updateEntry env id plan moved w = (.error error, w')) :
    (∃ before, before.repo = w.repo ∧ w'.repo = (undoGit env plan moved before).repo) ∧
      ∀ k, w'.workspaces.lookup k = w.workspaces.lookup k := by
  unfold updateEntry at h
  split at h
  next =>
    obtain ⟨-, rfl⟩ := Prod.mk.inj h
    refine ⟨⟨w, rfl, rfl⟩, fun k => ?_⟩
    rw [undoGit_frame]
  next oldSnapshot hlookup =>
    dsimp only at h
    split at h
    next =>
      obtain ⟨-, rfl⟩ := Prod.mk.inj h
      refine ⟨⟨_, ?_, rfl⟩, fun k => ?_⟩
      · rfl
      · rw [undoGit_frame]
        exact lookup_restore hlookup k
    next => cases h

theorem applyRename_restores {error : Text} (hmoveBack : env.moveBack.ok = true)
    (hrenameBack : env.renameBack.ok = true)
    (h : applyRename env id plan w = (.error error, w')) : Restored env id w w' := by
  unfold applyRename at h
  split at h
  next hrename =>
    obtain ⟨-, rfl⟩ := Prod.mk.inj h
    rw [renameBranch_error hrename]
    exact ⟨rfl, fun k => .inl rfl⟩
  next renamed hrename =>
    have hframe := (renameBranch_frame env.renameBranch plan.oldBranch plan.finalBranch w).1
    rw [hrename] at hframe
    split at h
    next hmove =>
      obtain ⟨-, rfl⟩ := Prod.mk.inj h
      obtain ⟨hrenamed, hold, hnew, -⟩ := renameBranch_ok hrename
      rw [moveToNextPath_error hmove]
      constructor
      · exact renameBranch_back hrenameBack hrenamed hold hnew (w.refNames _ hold)
      · intro k
        rw [(renameBranch_frame _ _ _ renamed).1, hframe]
        exact .inl rfl
    next moved located hmove =>
      have hmoved := (moveToNextPath_frame env plan renamed).1
      rw [hmove, hframe] at hmoved
      obtain ⟨⟨before, hbefore, hrepo⟩, hentries⟩ := updateEntry_error h
      constructor
      · rw [hrepo]
        exact undoGit_restores hmoveBack hrenameBack hrename hmove
          (hbefore.trans (interrupted_repo env id located))
      · intro k
        rw [hentries k, ← hmoved]
        exact lookup_interrupted env id k located

/-! ### After a success -/

/-- Behind a beginning that ends otherwise there is more of the text. -/
theorem length_lt_of_startsWith {start t : Text} {c d : Char} (h : startsWith t start = true)
    (hstart : start.getLast? = some d) (ht : t.getLast? = some c) (hne : c ≠ d) :
    start.length < t.length := by
  have hbegins : start <+: t := List.isPrefixOf_iff_prefix.mp h
  apply lt_of_le_of_ne hbegins.length_le
  intro hlen
  rw [hbegins.eq_of_length hlen, ht] at hstart
  exact hne (Option.some.inj hstart)

/-- A path with a file name in it is no empty root. -/
theorem normalizeRootPath_ne_nil {front file : Text} (h : PlainName file) :
    Threads.Backend.normalizeRootPath (front ++ file) ≠ [] := by
  obtain ⟨init, c, rfl⟩ : ∃ init c, file = init ++ [c] :=
    ⟨_, _, (List.dropLast_append_getLast h.ne_nil).symm⟩
  have hc := h.ne_sign (c := c) (by simp)
  obtain ⟨body, hbody⟩ : ∃ body, Threads.withForwardSlashes (front ++ (init ++ [c])) =
      body ++ [c] := by
    unfold Threads.withForwardSlashes trimEndBy
    rw [← List.append_assoc, List.map_append, List.map_singleton, if_neg hc.2.1]
    exact ⟨_, List.rdropWhile_concat_neg _ _ _ (by simpa using hc.1)⟩
  have hdrop : Threads.Backend.withoutNamespace (body ++ [c]) ≠ [] := by
    unfold Threads.Backend.withoutNamespace
    dsimp only
    split
    · exact List.cons_ne_nil _ _
    split
    next hstart =>
      -- the prefix ends with a slash, so the last character is behind it
      intro hnil
      have hlen := List.drop_eq_nil_iff.mp hnil
      have hlast : ((body ++ [c]).map asciiLower).getLast? = some (asciiLower c) := by simp
      have hne := isFileNameChar_asciiLower (h.chars c (by simp)) (.inl rfl)
      rcases (Bool.or_eq_true _ _).mp hstart with hstart | hstart
      all_goals
        have hlt := length_lt_of_startsWith hstart rfl hlast hne
        rw [List.length_map] at hlt
        exact absurd hlen (Nat.not_le.mpr hlt)
    next => simp
  unfold Threads.Backend.normalizeRootPath
  dsimp only
  rw [hbody, if_neg (by simp), if_neg (by simpa using hdrop)]
  split
  · simpa using hdrop
  · exact hdrop

theorem registerRoot_root {entry : WorkspaceEntry} {session : SessionId}
    (h : (w.registerRoot entry).sessions.lookup entry.id = some session)
    (hroot : Threads.Backend.normalizeRootPath entry.path ≠ []) :
    ((w.registerRoot entry).served session).workspaceRoots.lookup entry.id =
      some (Threads.Backend.normalizeRootPath entry.path) := by
  cases hsession : w.sessions.lookup entry.id with
  | none =>
    unfold RepoWorld.registerRoot at h
    rw [hsession] at h
    exact absurd (hsession.symm.trans h) (by simp)
  | some t =>
    unfold RepoWorld.registerRoot at h ⊢
    rw [hsession] at h ⊢
    obtain rfl := Option.some.inj (hsession.symm.trans h)
    dsimp only
    rw [Function.update_self]
    unfold SessionWorkspaces.registerWorkspaceWithPath
    dsimp only
    rw [if_neg (by simpa using hroot)]
    exact AList.lookup_insert _

theorem registerRoot_frame (w : RepoWorld) (entry : WorkspaceEntry) :
    (w.registerRoot entry).workspaces = w.workspaces ∧ (w.registerRoot entry).repo = w.repo := by
  unfold RepoWorld.registerRoot
  split <;> exact ⟨rfl, rfl⟩

/-- **What a success did.** -/
structure Applied (env : RenameEnv) (id : Text) (plan : RenamePlan) (w : RepoWorld)
    (info : WorkspaceInfo) (w' renamed located : RepoWorld) (moved : Bool) : Prop where
  rename : w.renameBranch env.renameBranch plan.oldBranch plan.finalBranch = (.ok (), renamed)
  move : moveToNextPath env plan renamed = (.ok moved, located)
  repo : w'.repo = located.repo
  path : info.entry.path = workspacePathToString plan.nextPath
  branch : info.entry.worktree = some plan.finalBranch
  stored : w'.workspaces.lookup id = some info.entry
  root : Threads.Backend.normalizeRootPath info.entry.path ≠ [] → ∀ session,
    w'.sessions.lookup info.entry.id = some session →
      (w'.served session).workspaceRoots.lookup info.entry.id =
        some (Threads.Backend.normalizeRootPath info.entry.path)

theorem applyRename_ok {info : WorkspaceInfo} (h : applyRename env id plan w = (.ok info, w')) :
    ∃ renamed located moved, Applied env id plan w info w' renamed located moved := by
  unfold applyRename at h
  split at h
  · cases h
  next renamed hrename =>
    split at h
    · cases h
    next moved located hmove =>
      unfold updateEntry at h
      split at h
      · cases h
      next oldSnapshot hlookup =>
        dsimp only at h
        split at h
        · cases h
        obtain ⟨hinfo, rfl⟩ := Prod.mk.inj h
        obtain rfl := Except.ok.inj hinfo
        refine ⟨renamed, located, moved, ⟨hrename, hmove, ?_, rfl, rfl, ?_, ?_⟩⟩
        · rw [(registerRoot_frame _ _).2]
          exact interrupted_repo env id located
        · rw [(registerRoot_frame _ _).1]
          exact AList.lookup_insert _
        · intro hroot session hsession
          exact registerRoot_root hsession hroot

/-! ### Where the worktree is -/

/-- **The folder of the worktrees is found alike**: in the form that is stored it leads the app,
    and git, to where git finds it. -/
structure FolderFound (env : RenameEnv) (parentRoot : AbsPath) (root : Text) : Prop where
  app : env.locate (workspacePathToString (folderBase root)) =
    UnixPath.resolve none root parentRoot
  git : UnixPath.resolve none (workspacePathToString (folderBase root)) parentRoot =
    UnixPath.resolve none root parentRoot

/-- A folder with a path of its own is found alike, if it is stored as it is. -/
theorem folderFound_of_absolute {root : Text} (parentRoot : AbsPath)
    (habs : UnixPath.isAbsolute root = true)
    (hstored : workspacePathToString (folderBase root) = folderBase root) :
    FolderFound env parentRoot root := by
  have hresolve : ∀ dir, UnixPath.resolve none root dir =
      UnixPath.follow [] (UnixPath.components root) := by
    intro dir
    rw [resolve_none, if_pos habs]
  constructor
  · unfold Env.locate
    rw [hstored, resolve_folderBase, hresolve, hresolve]
  · rw [hstored, resolve_folderBase]

/-- The path that was chosen: a plain name in the folder of the worktrees. -/
theorem Planned.exists_file {entry parent : WorkspaceEntry} {root : Text}
    (h : Planned env id w plan w' entry parent root) (hname : IsRefName plan.finalBranch) :
    ∃ file, PlainName file ∧ file ≠ "..".toList ∧
      plan.nextPath = folderBase (worktreeRoot env.toEnv parent) ++ file := by
  have hplain : PlainName (sanitizeWorktreeName plan.finalBranch) :=
    sanitizeName_plain ⟨by decide, by decide⟩ _
  have hdots : sanitizeWorktreeName plan.finalBranch ≠ "..".toList := fun heq =>
    hname (dots_of_sanitizeName (by decide) heq)
  have hnext := h.nextPath
  unfold uniqueWorktreePathForRename at hnext
  split at hnext
  next path hfind =>
    obtain rfl := Except.ok.inj hnext
    obtain ⟨file, hfile, heq, hcase⟩ := mem_candidatePaths hplain (List.mem_of_find?_eq_some hfind)
    refine ⟨file, hfile, ?_, heq⟩
    rcases hcase with rfl | ⟨-, hne⟩
    · exact hdots
    · exact hne
  next => cases hnext

section Place

variable {root file : Text} (hfile : PlainName file) (hdots : file ≠ "..".toList)

include hfile hdots

theorem resolve_next (root : Text) (dir : AbsPath) :
    UnixPath.resolve none (folderBase root ++ file) dir =
      UnixPath.resolve none root dir ++ if file = ".".toList then [] else [file] := by
  rw [resolve_folder (isFolder_folderBase root) hfile hdots, resolve_folderBase]

theorem resolve_stored (root : Text) (dir : AbsPath) :
    UnixPath.resolve none (workspacePathToString (folderBase root ++ file)) dir =
      UnixPath.resolve none (workspacePathToString (folderBase root)) dir ++
        if file = ".".toList then [] else [file] := by
  rw [workspacePathToString_append (isFolder_folderBase root) hfile,
    resolve_folder (isFolder_folderBase root).stored hfile hdots]

end Place

section Success

variable {entry parent : WorkspaceEntry} {root : Text} {info : WorkspaceInfo}
  {renamed located planned : RepoWorld} {moved : Bool}

/-- Git has what the entry says if its place of the worktree is the one of the entry. -/
theorem Applied.git_iff (hplan : Planned env id w plan planned entry parent root)
    (h : Applied env id plan planned info w' renamed located moved) (hrepo : planned.repo = w.repo) :
    (w'.repo = (w.repo.renameBranch plan.oldBranch plan.finalBranch).moveWorktree
        (UnixPath.resolve none entry.path plan.parentRoot) (env.locate info.entry.path)) ↔
      UnixPath.resolve none (if moved then plan.nextPath else info.entry.path) plan.parentRoot =
          env.locate info.entry.path ∨
        ¬ w.repo.HasWorktree (UnixPath.resolve none entry.path plan.parentRoot) := by
  obtain ⟨hrenamed, -⟩ := renameBranch_ok h.rename
  rw [hrepo] at hrenamed
  have hsrc : (w.repo.renameBranch plan.oldBranch plan.finalBranch).HasWorktree
      (UnixPath.resolve none entry.path plan.parentRoot) ↔
        w.repo.HasWorktree (UnixPath.resolve none entry.path plan.parentRoot) :=
    Repo.hasWorktree_renameBranch
  rw [h.repo, ← hsrc, ← Repo.moveWorktree_eq_iff]
  rcases moveToNextPath_ok h.move with ⟨rfl, -, hmove⟩ | ⟨rfl, heq, rfl⟩
  · rw [(moveWorktree_ok hmove).1, hrenamed, hplan.oldPath]
    rfl
  · -- the entry keeps its path
    rw [hrenamed, if_neg (by decide), h.path, heq, hplan.oldPath, Repo.moveWorktree_same]

/-- The two places are alike where the folder is found alike. -/
theorem Applied.place_of_folderFound (hplan : Planned env id w plan planned entry parent root)
    (h : Applied env id plan planned info w' renamed located moved)
    (hfound : FolderFound env plan.parentRoot (worktreeRoot env.toEnv parent)) :
    UnixPath.resolve none (if moved then plan.nextPath else info.entry.path) plan.parentRoot =
      env.locate info.entry.path := by
  obtain ⟨-, -, -, hname⟩ := renameBranch_ok h.rename
  obtain ⟨file, hfile, hdots, hnext⟩ := hplan.exists_file hname
  have happ := hfound.app
  unfold Env.locate at happ ⊢
  rw [h.path, hnext, resolve_stored hfile hdots, happ]
  cases moved with
  | true => exact resolve_next hfile hdots _ _
  | false =>
    rw [if_neg (by decide), resolve_stored hfile hdots, hfound.git]

/-- And only there, if the folder is stored as it is. -/
theorem Applied.folderFound_of_place (hplan : Planned env id w plan planned entry parent root)
    (h : Applied env id plan planned info w' renamed located moved)
    (hstored : workspacePathToString (folderBase (worktreeRoot env.toEnv parent)) =
      folderBase (worktreeRoot env.toEnv parent))
    (hplace : UnixPath.resolve none (if moved then plan.nextPath else info.entry.path)
      plan.parentRoot = env.locate info.entry.path) :
    FolderFound env plan.parentRoot (worktreeRoot env.toEnv parent) := by
  obtain ⟨-, -, -, hname⟩ := renameBranch_ok h.rename
  obtain ⟨file, hfile, hdots, hnext⟩ := hplan.exists_file hname
  have hpath : info.entry.path = plan.nextPath := by
    rw [h.path, hnext, workspacePathToString_append (isFolder_folderBase _) hfile, hstored]
  rw [hpath, ite_self, hnext] at hplace
  unfold Env.locate at hplace
  rw [resolve_next hfile hdots, resolve_next hfile hdots] at hplace
  constructor
  · unfold Env.locate
    rw [hstored, resolve_folderBase]
    exact (List.append_cancel_right hplace).symm
  · rw [hstored, resolve_folderBase]

end Success

/-! ### The operation -/

/-- **Renaming a worktree.**  A failure is rolled back, if the compensating commands succeed.
    After a success the entry and the session follow git, if the folder of the worktrees is found
    alike or git has no worktree at the path of the entry; and, for a folder that is stored as it
    is, only then. -/
theorem renameWorktree_follows_iff (env : RenameEnv) (id branch : Text) (w : RepoWorld) :
    (∀ error w', renameWorktreeCore env id branch w = (.error error, w') →
      env.moveBack.ok = true → env.renameBack.ok = true → Restored env id w w') ∧
    (∀ info w', renameWorktreeCore env id branch w = (.ok info, w') →
      ∃ entry parent root, worktreeWithParent w.workspaces id = .ok (entry, parent) ∧
        env.resolveGitRoot = .ok root ∧
        (FolderFound env (env.locate root) (worktreeRoot env.toEnv parent) ∨
            ¬ w.repo.HasWorktree (UnixPath.resolve none entry.path (env.locate root)) →
          Follows env id entry (env.locate root) w info w') ∧
        (workspacePathToString (folderBase (worktreeRoot env.toEnv parent)) =
            folderBase (worktreeRoot env.toEnv parent) →
          Follows env id entry (env.locate root) w info w' →
          FolderFound env (env.locate root) (worktreeRoot env.toEnv parent) ∨
            ¬ w.repo.HasWorktree (UnixPath.resolve none entry.path (env.locate root)))) := by
  have hframe := planRename_frame env id branch w
  constructor
  · intro error w' h hmoveBack hrenameBack
    unfold renameWorktreeCore at h
    split at h
    next hplan =>
      obtain ⟨-, rfl⟩ := Prod.mk.inj h
      rw [hplan] at hframe
      exact ⟨hframe.2, fun k => .inl (by rw [hframe.1])⟩
    next plan planned hplan =>
      rw [hplan] at hframe
      have hrestored := applyRename_restores hmoveBack hrenameBack h
      constructor
      · exact hrestored.repo.trans hframe.2
      · intro k
        rw [← hframe.1]
        exact hrestored.entries k
  · intro info w' h
    unfold renameWorktreeCore at h
    split at h
    · cases h
    next plan planned hplan =>
      rw [hplan] at hframe
      obtain ⟨entry, parent, root, hplanned⟩ := planRename_ok hplan
      obtain ⟨renamed, located, moved, happlied⟩ := applyRename_ok h
      have hgit := happlied.git_iff hplanned hframe.2
      refine ⟨entry, parent, root, hplanned.found, hplanned.gitRoot, ?_, ?_⟩
      all_goals rw [← hplanned.parentRoot]
      · intro hfound
        have hroot : Threads.Backend.normalizeRootPath info.entry.path ≠ [] := by
          obtain ⟨file, hfile, -, hnext⟩ :=
            hplanned.exists_file (renameBranch_ok happlied.rename).2.2.2
          rw [happlied.path, hnext, workspacePathToString_append (isFolder_folderBase _) hfile]
          exact normalizeRootPath_ne_nil hfile
        refine ⟨happlied.stored, ⟨_, _, hplanned.oldBranch, happlied.branch, ?_⟩,
          happlied.root hroot⟩
        exact hgit.mpr (hfound.imp_left (happlied.place_of_folderFound hplanned))
      · intro hstored hfollows
        obtain ⟨old, new, hold, hnew, hrepo⟩ := hfollows.git
        obtain rfl := Option.some.inj (hplanned.oldBranch.symm.trans hold)
        obtain rfl := Option.some.inj (happlied.branch.symm.trans hnew)
        exact (hgit.mp hrepo).imp_left (happlied.folderFound_of_place hplanned hstored)

/-! ### A folder below the home directory -/

theorem isRefName_of_two : ∀ b ∈ ["main".toList, "old".toList], IsRefName b := by decide

/-- A repository with one worktree, in the folder of the settings. -/
def folderWorld (folder : Text) (place : AbsPath) : RepoWorld where
  workspaces := (AList.insert "p".toList
      { id := "p".toList, name := "repo".toList, path := "/repo".toList
        settings := { worktreesFolder := some folder } } ∅).insert "w".toList
      { id := "w".toList, name := "old".toList, path := joinPath folder "old".toList
        kind := .worktree, parentId := some "p".toList, worktree := some "old".toList }
  tree := { dirs := [[]], closed := by simp }
  repo :=
    { branches := ["main".toList, "old".toList]
      worktrees := [⟨place, some "old".toList⟩]
      heads_mem := by simp }
  refNames := isRefName_of_two

def renameEnv : RenameEnv where
  resolveGitRoot := .ok "/repo".toList
  uniqueBranchName := .ok "new".toList

/-- The entry of the worktree. -/
def folderEntry (folder : Text) : WorkspaceEntry where
  id := "w".toList
  name := "old".toList
  path := joinPath folder "old".toList
  kind := .worktree
  parentId := some "p".toList
  worktree := some "old".toList

/-- Git finds `~/worktrees` in the repository, the app in its working directory. -/
theorem tildeFolder_not_followed : ∃ info w', renameWorktreeCore renameEnv "w".toList "new".toList
      (folderWorld "~/worktrees".toList
        ["repo".toList, "~".toList, "worktrees".toList, "old".toList]) = (.ok info, w') ∧
    ¬ Follows renameEnv "w".toList (folderEntry "~/worktrees".toList) ["repo".toList]
      (folderWorld "~/worktrees".toList
        ["repo".toList, "~".toList, "worktrees".toList, "old".toList]) info w' := by
  refine ⟨_, _, rfl, fun h => ?_⟩
  obtain ⟨old, new, hold, hnew, hrepo⟩ := h.git
  obtain rfl := Option.some.inj hold
  obtain rfl := Option.some.inj hnew
  exact absurd (congrArg Repo.worktrees hrepo) (by decide +kernel)

/-- A folder with a path of its own is followed. -/
theorem absoluteFolder_followed : ∃ info w', renameWorktreeCore renameEnv "w".toList "new".toList
      (folderWorld "/worktrees".toList ["worktrees".toList, "old".toList]) = (.ok info, w') ∧
    Follows renameEnv "w".toList (folderEntry "/worktrees".toList) ["repo".toList]
      (folderWorld "/worktrees".toList ["worktrees".toList, "old".toList]) info w' := by
  obtain ⟨info, w', hrun⟩ : ∃ info w', renameWorktreeCore renameEnv "w".toList "new".toList
      (folderWorld "/worktrees".toList ["worktrees".toList, "old".toList]) = (.ok info, w') :=
    ⟨_, _, rfl⟩
  obtain ⟨entry, parent, root, hfound, hroot, hfollows, -⟩ :=
    (renameWorktree_follows_iff renameEnv "w".toList "new".toList
      (folderWorld "/worktrees".toList ["worktrees".toList, "old".toList])).2 info w' hrun
  have hentry : folderEntry "/worktrees".toList = entry :=
    congrArg Prod.fst (Except.ok.inj hfound)
  have hparent : worktreeRoot renameEnv.toEnv parent = "/worktrees".toList :=
    (congrArg (fun p => worktreeRoot renameEnv.toEnv p.2) (Except.ok.inj hfound)).symm
  have hrepo : "/repo".toList = root := Except.ok.inj hroot
  rw [← hentry, ← hrepo, hparent] at hfollows
  refine ⟨info, w', hrun, hfollows (.inl ?_)⟩
  exact folderFound_of_absolute _ (by decide +kernel) (by decide +kernel)

end CodexMonitor.WorkspaceStore.Renaming
