import CodexMonitor.Workspaces.Operations

namespace CodexMonitor.WorkspaceStore

open Text

/-!
# Workspaces — what a failing operation leaves behind

An operation that returns an error should leave the two maps as they were, no child process of
its own and every directory that was there.

* `Restored` — that.
* `Compensated` — when an operation meets it: what the compensations of the code miss is
  excluded, operation by operation.
* `restored_iff_compensated` — exactly then.
-/

/-- The world after a failure is as before it, apart from new directories and from children
    that have ended. -/
structure Restored (w w' : World) : Prop where
  workspaces : ∀ id, w'.workspaces.lookup id = w.workspaces.lookup id
  sessions : ∀ id, w'.sessions.lookup id = w.sessions.lookup id
  children : ∀ child ∈ w'.running, child ∈ w.running
  dirs : ∀ d ∈ w.tree.dirs, d ∈ w'.tree.dirs

/-- If the operation failed, it restored the world. -/
def RestoredOnError (w : World) (returned : Returned) : Prop :=
  ∀ error, returned.1 = .error error → Restored w returned.2

theorem restoredOnError_error {w w' : World} {error : Text} :
    RestoredOnError w (.error error, w') ↔ Restored w w' := by
  constructor
  · intro h
    exact h error rfl
  · intro h _ _
    exact h

theorem restoredOnError_ok {w w' : World} {info : WorkspaceInfo} :
    RestoredOnError w (.ok info, w') := by
  intro error h
  cases h

theorem Restored.refl (w : World) : Restored w w where
  workspaces := fun _ => rfl
  sessions := fun _ => rfl
  children := fun _ h => h
  dirs := fun _ h => h

/-- Only the tree was touched. -/
theorem restored_tree_iff {w : World} {t : FileTree Text} :
    Restored w { w with tree := t } ↔ ∀ d ∈ w.tree.dirs, d ∈ t.dirs := by
  constructor
  · intro h
    exact h.dirs
  · intro h
    exact ⟨fun _ => rfl, fun _ => rfl, fun _ hc => hc, h⟩

/-! ### Sessions -/

namespace World

variable {w : World}

/-- The first session of the map is dead, so that looking for a live one drops it. -/
def stale (w : World) : Bool := w.firstSession.any fun session => !w.isAlive session

/-- Some session of the map is alive. -/
def hasLive (w : World) : Bool := w.sessions.entries.any fun e => w.isAlive e.2

theorem removeSessionReferences_length {session : SessionId}
    (h : w.firstSession = some session) :
    (w.removeSessionReferences session).sessions.entries.length < w.sessions.entries.length := by
  show (w.sessions.entries.filter _).length < _
  apply List.length_filter_lt_length_iff_exists.mpr
  rw [firstSession, List.head?_map] at h
  obtain ⟨e, he, rfl⟩ := Option.map_eq_some_iff.mp h
  refine ⟨e, List.mem_of_mem_head? he, ?_⟩
  simp

/-- Looking for a live session changes nothing but the sessions. -/
theorem takeLive_frame (turns : Nat) (w : World) :
    (takeLive turns w).2 = { w with sessions := (takeLive turns w).2.sessions } := by
  induction turns generalizing w with
  | zero => rfl
  | succ turns ih =>
    unfold takeLive
    split
    · rfl
    next session _ =>
      split
      · rfl
      · rw [ih]
        rfl

/-- It only drops entries. -/
theorem lookup_takeLive {turns : Nat} {w : World} {id : Text} {session : SessionId}
    (h : (takeLive turns w).2.sessions.lookup id = some session) :
    w.sessions.lookup id = some session := by
  induction turns generalizing w with
  | zero => exact h
  | succ turns ih =>
    unfold takeLive at h
    split at h
    · exact h
    · split at h
      · exact h
      · exact (Registry.lookup_retain.mp (ih h)).1

theorem takeLive_of_not_stale {turns : Nat} (h : w.stale = false) : (takeLive turns w).2 = w := by
  cases turns with
  | zero => rfl
  | succ turns =>
    unfold takeLive
    split
    · rfl
    next session hfirst =>
      have halive : w.isAlive session = true := by
        simpa [stale, hfirst] using h
      rw [if_pos halive]

/-- A dead first session is dropped. -/
theorem takeLive_of_stale {turns : Nat} (hturns : 0 < turns) (h : w.stale = true) :
    ∃ id, (takeLive turns w).2.sessions.lookup id ≠ w.sessions.lookup id := by
  obtain ⟨turns, rfl⟩ : ∃ n, turns = n + 1 := ⟨turns - 1, by omega⟩
  obtain ⟨session, hfirst, hdead⟩ : ∃ session, w.firstSession = some session ∧
      w.isAlive session = false := by
    simpa [stale, Option.any_eq_true] using h
  have hhead := hfirst
  rw [firstSession, List.head?_map] at hhead
  obtain ⟨⟨id, _⟩, he, rfl⟩ := Option.map_eq_some_iff.mp hhead
  refine ⟨id, ?_⟩
  rw [Registry.lookup_of_mem (List.mem_of_mem_head? he)]
  unfold takeLive
  rw [hfirst]
  simp only [hdead, Bool.false_eq_true, if_false]
  intro hlookup
  have hkept := (Registry.lookup_retain.mp (lookup_takeLive hlookup)).2
  simp at hkept

/-- With as many turns as there are entries, a live session is found if there is one. -/
theorem isSome_takeLive {turns : Nat} {w : World} (h : w.sessions.entries.length ≤ turns) :
    (takeLive turns w).1.isSome = w.hasLive := by
  induction turns generalizing w with
  | zero =>
    have hnil : w.sessions.entries = [] := List.length_eq_zero_iff.mp (by omega)
    simp [takeLive, hasLive, hnil]
  | succ turns ih =>
    unfold takeLive
    split
    next hfirst =>
      rw [firstSession, List.head?_map, Option.map_eq_none_iff, List.head?_eq_none_iff] at hfirst
      simp [hasLive, hfirst]
    next session hfirst =>
      split
      next halive =>
        have hmem := hfirst
        rw [firstSession, List.head?_map] at hmem
        obtain ⟨e, he, rfl⟩ := Option.map_eq_some_iff.mp hmem
        have hlive : w.hasLive = true :=
          List.any_eq_true.mpr ⟨e, List.mem_of_mem_head? he, halive⟩
        rw [hlive]
        rfl
      next hdead =>
        have hlt := removeSessionReferences_length hfirst
        rw [ih (by omega)]
        -- dropping a dead session does not drop a live one
        show (w.sessions.entries.filter _).any _ = _
        rw [Bool.eq_iff_iff]
        simp only [hasLive, List.any_filter, List.any_eq_true, Bool.and_eq_true,
          decide_eq_true_eq]
        constructor
        · rintro ⟨e, he, _, halive⟩
          exact ⟨e, he, halive⟩
        · rintro ⟨e, he, halive⟩
          refine ⟨e, he, ?_, halive⟩
          rintro rfl
          exact hdead halive

/-- The world in which a live session was looked for. -/
def swept (w : World) : World := w.takeLiveSharedSession.2

theorem swept_eq (w : World) : w.swept = { w with sessions := w.swept.sessions } :=
  takeLive_frame _ w

/-- **The sessions map is kept** by looking for a live session if and only if its first session
    is not dead. -/
theorem swept_sessions_iff :
    (∀ id, w.swept.sessions.lookup id = w.sessions.lookup id) ↔ w.stale = false := by
  constructor
  · intro h
    by_contra hstale
    rw [Bool.not_eq_false] at hstale
    have hpos : 0 < w.sessions.entries.length := by
      rw [List.length_pos_iff]
      intro hnil
      simp [stale, firstSession, hnil] at hstale
    obtain ⟨id, hne⟩ := takeLive_of_stale hpos hstale
    exact hne (h id)
  · intro h id
    rw [swept, takeLiveSharedSession, takeLive_of_not_stale h]

/-! ### Spawning -/

theorem newChild_not_mem (w : World) : w.newChild ∉ w.running := by
  have hle : ∀ (l : List Nat) (c : Nat), c ∈ l → c ≤ l.foldr max 0 := by
    intro l c hc
    induction l with
    | nil => cases hc
    | cons a l ih =>
      rcases List.mem_cons.mp hc with rfl | hc
      · exact Nat.le_max_left _ _
      · exact (ih hc).trans (Nat.le_max_right _ _)
  intro h
  have := hle _ _ h
  unfold newChild at this
  omega

end World

/-- A spawn that ends with an error. -/
def SpawnOutcome.fails : SpawnOutcome → Bool
  | .connected => false
  | _ => true

/-- A failing spawn that leaves its child running. -/
def SpawnOutcome.leavesChild : SpawnOutcome → Bool
  | .versionTimeout exited | .initializeFailed _ exited => !exited
  | _ => false

namespace World

variable {w : World} {env : Env}

theorem spawn_connected (h : env.spawn.fails = false) :
    w.spawnWorkspaceSession env =
      (.ok w.newChild, { w with running := w.newChild :: w.running }) := by
  have hspawn : env.spawn = .connected := by
    unfold SpawnOutcome.fails at h
    split at h
    · assumption
    · cases h
  unfold spawnWorkspaceSession
  rw [hspawn]
  rfl

/-- What a failing spawn leaves. -/
theorem spawn_failed (h : env.spawn.fails = true) :
    ∃ error running, w.spawnWorkspaceSession env = (.error error, { w with running := running }) ∧
      ((∀ child ∈ running, child ∈ w.running) ↔ env.spawn.leavesChild = false) := by
  have hstart : ∀ exited, ∃ running, w.startChild exited = { w with running := running } ∧
      ((∀ child ∈ running, child ∈ w.running) ↔ (!exited) = false) := by
    intro exited
    cases exited with
    | true => exact ⟨w.running, rfl, iff_of_true (fun _ hc => hc) rfl⟩
    | false =>
      refine ⟨_, rfl, iff_of_false (fun hsub => ?_) (by decide)⟩
      exact w.newChild_not_mem (hsub _ List.mem_cons_self)
  unfold spawnWorkspaceSession
  cases hspawn : env.spawn with
  | unavailable error => exact ⟨error, w.running, rfl, iff_of_true (fun _ hc => hc) rfl⟩
  | versionTimeout exited =>
    obtain ⟨running, heq, hiff⟩ := hstart exited
    exact ⟨_, running, Prod.ext rfl heq, hiff⟩
  | initializeTimeout =>
    refine ⟨_, _, rfl, iff_of_true (fun child hc => ?_) rfl⟩
    -- the new child was killed
    obtain ⟨hmem, hne⟩ := List.mem_filter.mp hc
    rcases List.mem_cons.mp hmem with rfl | hmem
    · simp at hne
    · exact hmem
  | initializeFailed error exited =>
    obtain ⟨running, heq, hiff⟩ := hstart exited
    exact ⟨error, running, Prod.ext rfl heq, hiff⟩
  | connected =>
    rw [hspawn] at h
    cases h

/-! ### The session of a new workspace -/

theorem acquire_live (env : Env) (h : w.hasLive = true) :
    ∃ session, w.acquireSession env = (.ok (session, false), w.swept) := by
  have hsome : w.takeLiveSharedSession.1.isSome = true := by
    rw [takeLiveSharedSession, isSome_takeLive (Nat.le_refl _), h]
  obtain ⟨session, hsession⟩ := Option.isSome_iff_exists.mp hsome
  refine ⟨session, ?_⟩
  unfold acquireSession
  split
  next found w' heq =>
    rw [heq] at hsession
    cases hsession
    rw [swept, heq]
  next w' heq =>
    rw [heq] at hsession
    cases hsession

theorem acquire_spawned (h : w.hasLive = false) :
    w.acquireSession env = match w.swept.spawnWorkspaceSession env with
      | (.error error, w) => (.error error, w)
      | (.ok session, w) => (.ok (session, true), w) := by
  have hnone : w.takeLiveSharedSession.1 = none := by
    rw [← Option.not_isSome_iff_eq_none, takeLiveSharedSession, isSome_takeLive (Nat.le_refl _), h]
    exact Bool.false_ne_true
  unfold acquireSession
  split
  next found w' heq =>
    rw [heq] at hnone
    cases hnone
  next w' heq =>
    obtain rfl : w.swept = w' := by rw [swept, heq]
    rfl

/-- The session that is had, in the swept world with the child that was spawned for it. -/
theorem acquire_ok (env : Env) (h : ¬ (w.hasLive = false ∧ env.spawn.fails = true)) :
    ∃ session spawned running,
      w.acquireSession env = (.ok (session, spawned), { w.swept with running := running }) ∧
      ∀ child ∈ running, child ∈ w.swept.running ∨ spawned = true ∧ child = session := by
  by_cases hlive : w.hasLive = true
  · obtain ⟨session, hacquire⟩ := acquire_live env hlive
    exact ⟨session, false, w.swept.running, hacquire, fun _ hc => .inl hc⟩
  · rw [Bool.not_eq_true] at hlive
    have hspawn : env.spawn.fails = false := by simpa [hlive] using h
    refine ⟨_, _, _, by rw [acquire_spawned hlive, spawn_connected hspawn], ?_⟩
    intro child hc
    rcases List.mem_cons.mp hc with rfl | hc
    · exact .inr ⟨rfl, rfl⟩
    · exact .inl hc

theorem acquire_failed (h : w.hasLive = false) (hspawn : env.spawn.fails = true) :
    ∃ error running,
      w.acquireSession env = (.error error, { w.swept with running := running }) ∧
      ((∀ child ∈ running, child ∈ w.swept.running) ↔ env.spawn.leavesChild = false) := by
  obtain ⟨error, running, heq, hiff⟩ := spawn_failed (w := w.swept) hspawn
  exact ⟨error, running, by rw [acquire_spawned h, heq], hiff⟩

/-! ### Attaching a new entry -/

/-- The second half of an addition fails: no session can be had, or the list is not written. -/
def attachFails (env : Env) (w : World) : Bool :=
  (!w.hasLive && env.spawn.fails) || !env.write.ok

/-- Its failure leaves the sessions map and no child: no dead session is dropped on the way, and
    a spawn that fails takes its child with it. -/
def AttachClean (env : Env) (w : World) : Prop :=
  w.stale = false ∧ (w.hasLive = false → env.spawn.leavesChild = false)

theorem swept_workspaces (w : World) : w.swept.workspaces = w.workspaces := by rw [swept_eq]

theorem swept_running (w : World) : w.swept.running = w.running := by rw [swept_eq]

theorem swept_tree (w : World) : w.swept.tree = w.tree := by rw [swept_eq]

/-- Killing the session that was spawned leaves the children there were before. -/
theorem killSpawned_eq {spawned : Bool} {session : SessionId} {children : List SessionId}
    (h : ∀ child ∈ w.running, child ∈ children ∨ spawned = true ∧ child = session) :
    ∃ running, (if spawned then w.killChildProcessTree session else w) =
        { w with running := running } ∧ ∀ child ∈ running, child ∈ children := by
  cases spawned with
  | true =>
    refine ⟨_, rfl, ?_⟩
    intro child hc
    obtain ⟨hmem, hne⟩ := List.mem_filter.mp hc
    rcases h child hmem with hmem | ⟨_, rfl⟩
    · exact hmem
    · simp at hne
  | false =>
    refine ⟨w.running, rfl, ?_⟩
    intro child hc
    simpa using h child hc

end World

theorem lookup_erase_insert {workspaces : Workspaces} {entry : WorkspaceEntry}
    (hfresh : workspaces.lookup entry.id = none) (id : Text) :
    ((workspaces.insert entry.id entry).erase entry.id).lookup id = workspaces.lookup id := by
  by_cases hid : id = entry.id
  · subst hid
    rw [AList.lookup_erase, hfresh]
  · rw [AList.lookup_erase_ne hid, AList.lookup_insert_ne hid]

theorem SpawnOutcome.fails_of_leavesChild {spawn : SpawnOutcome} (h : spawn.leavesChild = true) :
    spawn.fails = true := by
  cases spawn <;> first | rfl | cases h

/-- A world behind the second half of an addition that undid its insertion. -/
theorem restored_swept_iff {w : World} {workspaces : Workspaces} {running : List SessionId}
    {t t' : FileTree Text} (hworkspaces : ∀ id, workspaces.lookup id = w.workspaces.lookup id) :
    Restored { w with tree := t } ⟨workspaces, w.swept.sessions, running, t'⟩ ↔
      (w.stale = false ∧ ∀ child ∈ running, child ∈ w.running) ∧ ∀ d ∈ t.dirs, d ∈ t'.dirs := by
  constructor
  · intro h
    exact ⟨⟨World.swept_sessions_iff.mp h.sessions, h.children⟩, h.dirs⟩
  · rintro ⟨⟨hstale, hchildren⟩, hdirs⟩
    exact ⟨hworkspaces, World.swept_sessions_iff.mpr hstale, hchildren, hdirs⟩

/-- With a session at hand only a dropped dead session is not made good. -/
theorem attachClean_iff {env : Env} {w : World}
    (h : ¬ (w.hasLive = false ∧ env.spawn.fails = true)) :
    w.AttachClean env ↔ w.stale = false := by
  refine and_iff_left ?_
  intro hlive
  by_contra hleaves
  rw [Bool.not_eq_false] at hleaves
  exact h ⟨hlive, SpawnOutcome.fails_of_leavesChild hleaves⟩

theorem attachFails_iff {env : Env} {w : World}
    (h : ¬ (w.hasLive = false ∧ env.spawn.fails = true)) :
    w.attachFails env = true ↔ env.write.ok = false := by
  simp [World.attachFails, h]

/-- **Attaching an entry**, in a world whose tree was `t` when the operation began. -/
theorem attach_restored_iff (env : Env) (entry : WorkspaceEntry) {discard : World → World}
    {w : World} (t : FileTree Text) (g : FileTree Text → FileTree Text)
    (hdiscard : ∀ w, discard w = { w with tree := g w.tree })
    (hfresh : w.workspaces.lookup entry.id = none) :
    RestoredOnError { w with tree := t } (attach env entry discard w) ↔
      (w.attachFails env = true → w.AttachClean env ∧ ∀ d ∈ t.dirs, d ∈ (g w.tree).dirs) := by
  by_cases hsession : w.hasLive = false ∧ env.spawn.fails = true
  · obtain ⟨hlive, hspawn⟩ := hsession
    obtain ⟨error, running, hacquire, hiff⟩ := World.acquire_failed hlive hspawn
    simp only [attach, hacquire, hdiscard]
    rw [restoredOnError_error, restored_swept_iff fun id => by rw [World.swept_workspaces],
      ← World.swept_running, hiff]
    simp [World.attachFails, World.AttachClean, hlive, hspawn, World.swept_tree]
  · obtain ⟨session, spawned, running, hacquire, hchildren⟩ := World.acquire_ok env hsession
    rw [attachFails_iff hsession, attachClean_iff hsession]
    cases hwrite : env.write.ok with
    | true =>
      simp only [attach, hacquire, World.insertAndWrite, Outcome.result, hwrite, if_true]
      exact iff_of_true restoredOnError_ok nofun
    | false =>
      -- the entry is taken back and the child killed
      have hundo : ∀ id, ((w.swept.workspaces.insert entry.id entry).erase entry.id).lookup id =
          w.workspaces.lookup id := by
        intro id
        rw [World.swept_workspaces, lookup_erase_insert hfresh]
      rw [World.swept_running] at hchildren
      obtain ⟨running', hkilled, hleft⟩ := World.killSpawned_eq
        (w := ⟨(w.swept.workspaces.insert entry.id entry).erase entry.id, w.swept.sessions,
          running, w.swept.tree⟩) hchildren
      simp only [attach, hacquire, World.insertAndWrite, Outcome.result, hwrite, hdiscard,
        Bool.false_eq_true, if_false, hkilled]
      rw [restoredOnError_error, restored_swept_iff hundo, World.swept_tree, and_iff_left hleft]
      exact (forall_const _).symm

/-! ### When an operation compensates for its failure -/

/-- The removal of the destination leaves every directory that was there. -/
def World.KeepsBelow (env : Env) (path : Text) (w : World) : Prop :=
  ∀ d ∈ w.tree.dirs, env.locate path <+: d → ∃ k ∈ env.kept, d <+: k

/-- A clone into `path`: if it or the second half fails, the removal of `path` must not hit what
    was there; and the second half must be clean. -/
def World.CloneClean (env : Env) (path : Text) (w : World) : Prop :=
  (env.clone.ok = false ∨ w.attachFails env = true → w.KeepsBelow env path) ∧
    (env.clone.ok = true → w.attachFails env = true → w.AttachClean env)

/-- The path of a copy, chosen once the folder of the copies exists. -/
def clonePath (env : Env) (copyName copiesFolder : Text) (w : World) : Text :=
  buildCloneDestinationPath ((w.createDirAll env copiesFolder).2.presentAt env) copiesFolder copyName

/-- The path a renamed worktree is to have. -/
def renamedPath (env : Env) (entry parent : WorkspaceEntry) (finalBranch : Text) (w : World) :
    Except Text Text :=
  uniqueWorktreePathForRename ((w.createDirAll env (worktreeRoot env parent)).2.presentAt env)
    (worktreeRoot env parent) (sanitizeWorktreeName finalBranch) entry.path

/-- A rename to a branch: once the worktree is moved, the list is written or the worktree moved
    back. -/
def World.RenameClean (env : Env) (entry parent : WorkspaceEntry) (finalBranch : Text)
    (w : World) : Prop :=
  env.createDirAll.ok = true →
    ∀ nextPath, renamedPath env entry parent finalBranch w = .ok nextPath →
      env.renameBranch.ok = true → workspacePathToString nextPath ≠ entry.path →
        env.moveWorktree.ok = true →
          (w.createDirAll env (worktreeRoot env parent)).2.tree.movable
            (env.locate entry.path) (env.locate nextPath) = true →
            w.tree.isDir (env.locate entry.path) = true →
              env.write.ok = true ∨ env.moveBack.ok = true

/-- **When an operation compensates for its failure**, in the world it is called in and for the
    outcomes of what it calls. -/
def Compensated (env : Env) (w : World) : Operation → Prop
  | .addWorkspace path =>
      w.tree.isDir (env.locate (normalizeWorkspacePathInput env.home path)) = true →
        w.attachFails env = true → w.AttachClean env
  | .addClone source copyName copiesFolder =>
      copyName.trim ≠ [] → copiesFolder.trim ≠ [] → env.createDirAll.ok = true →
        w.workspaces.lookup source ≠ none →
          w.CloneClean env (clonePath env copyName.trim copiesFolder.trim w)
  | .addWorkspaceFromGitUrl url destinationPath targetFolderName =>
      url.trim ≠ [] → destinationPath.trim ≠ [] →
        w.tree.isDir (env.locate destinationPath.trim) = true →
          ∀ folderName, cloneFolderName url.trim targetFolderName = .ok folderName →
            inspectDestination env (joinPath destinationPath.trim folderName) w = .ok () →
              w.CloneClean env (joinPath destinationPath.trim folderName)
  | .addWorktree parentId branch _ =>
      branch.trim ≠ [] → ∀ parent, w.workspaces.lookup parentId = some parent →
        parent.isWorktree = false → env.createDirAll.ok = true →
          (uniqueWorktreePath env (w.createDirAll env (worktreeRoot env parent)).2
            (worktreeRoot env parent) (sanitizeWorktreeName branch.trim)).isOk = true →
            (addGitWorktree env w).1.isOk = true →
              if w.hasLive = false ∧ env.spawn.fails = true then
                w.stale = false ∧ env.spawn.leavesChild = false
              else env.write.ok = true
  | .renameWorktree id branch =>
      branch.trim ≠ [] → ∀ entry parent, worktreeWithParent w.workspaces id = .ok (entry, parent) →
        ∀ oldBranch, entry.worktree = some oldBranch → oldBranch ≠ branch.trim →
          env.resolveGitRoot.isOk = true →
            ∀ finalBranch, env.uniqueBranchName = .ok finalBranch → finalBranch ≠ oldBranch →
              w.RenameClean env entry parent finalBranch
  | .updateWorkspaceSettings id settings =>
      ∀ previous, w.workspaces.lookup id = some previous →
        env.write.ok = true ∨ acceptedSettings settings = previous.settings

/-! ### The operations one by one -/

variable {env : Env} {w : World}

theorem createDirAll_ok (h : env.createDirAll.ok = true) (path : Text) :
    ∃ t, w.createDirAll env path = (.ok (), { w with tree := t }) ∧
      (∀ d ∈ w.tree.dirs, d ∈ t.dirs) ∧ env.locate path ∈ t.dirs := by
  refine ⟨_, by simp only [World.createDirAll, h, if_true]; rfl, fun d hd => ?_, ?_⟩
  · exact FileTree.mem_create _ (FileTree.mem_createAll _ hd)
  · exact List.mem_append_left _ ((List.mem_inits _ _).mpr List.prefix_rfl)

theorem createDirAll_failed (h : env.createDirAll.ok = false) (path : Text) :
    ∃ t, w.createDirAll env path = (.error env.createDirAll.error, { w with tree := t }) ∧
      ∀ d ∈ w.tree.dirs, d ∈ t.dirs := by
  refine ⟨_, by simp only [World.createDirAll, h, Bool.false_eq_true, if_false]; rfl, fun d hd => ?_⟩
  exact FileTree.mem_createAll _ hd

theorem clone_ok (h : env.clone.ok = true) (path : Text) :
    ∃ t, w.clone env path = (.ok (), { w with tree := t }) ∧ ∀ d ∈ w.tree.dirs, d ∈ t.dirs := by
  refine ⟨_, by simp only [World.clone, h, if_true]; rfl, fun d hd => ?_⟩
  exact FileTree.mem_create _ (FileTree.mem_createAll _ hd)

theorem clone_failed (h : env.clone.ok = false) (path : Text) :
    ∃ t, w.clone env path = (.error env.clone.error, { w with tree := t }) ∧
      ∀ d ∈ w.tree.dirs, d ∈ t.dirs := by
  refine ⟨_, by simp only [World.clone, h, Bool.false_eq_true, if_false]; rfl, fun d hd => ?_⟩
  exact FileTree.mem_createAll _ hd

/-- The removal of the destination, in a tree that has grown since the operation began. -/
theorem keepsBelow_iff {path : Text} {t : FileTree Text} (hgrown : ∀ d ∈ w.tree.dirs, d ∈ t.dirs) :
    (∀ d ∈ w.tree.dirs, d ∈ (t.removeDirAll (env.locate path) env.kept).dirs) ↔
      w.KeepsBelow env path := by
  constructor
  · intro h d hd
    exact (t.mem_removeDirAll.mp (h d hd)).2
  · intro h d hd
    exact t.mem_removeDirAll.mpr ⟨hgrown d hd, h d hd⟩

/-- A clone and the second half behind it, in a tree that has grown to `t`. -/
theorem clone_restored_iff {path : Text} {entry : WorkspaceEntry} {t : FileTree Text}
    (hgrown : ∀ d ∈ w.tree.dirs, d ∈ t.dirs) (hfresh : w.workspaces.lookup entry.id = none) :
    RestoredOnError w (match World.clone { w with tree := t } env path with
      | (.error error, w) => (.error error, w.removeDirAll env path)
      | (.ok (), w) => attach env entry (·.removeDirAll env path) w) ↔ w.CloneClean env path := by
  cases hclone : env.clone.ok with
  | false =>
    obtain ⟨t', heq, hgrown'⟩ := clone_failed (w := { w with tree := t }) hclone path
    simp only [heq, restoredOnError_error]
    show Restored w { w with tree := _ } ↔ _
    rw [restored_tree_iff, keepsBelow_iff fun d hd => hgrown' d (hgrown d hd)]
    simp [World.CloneClean, hclone]
  | true =>
    obtain ⟨t', heq, hgrown'⟩ := clone_ok (w := { w with tree := t }) hclone path
    simp only [heq]
    let g : FileTree Text → FileTree Text := (·.removeDirAll (env.locate path) env.kept)
    have hdiscard : ∀ v : World, v.removeDirAll env path = { v with tree := g v.tree } :=
      fun _ => rfl
    have hattach := attach_restored_iff (w := { w with tree := t' }) env entry w.tree g hdiscard
      hfresh
    refine hattach.trans ?_
    rw [keepsBelow_iff fun d hd => hgrown' d (hgrown d hd)]
    show (w.attachFails env = true → w.AttachClean env ∧ _) ↔ _
    simp only [World.CloneClean, hclone, Bool.true_eq_false, false_or, forall_const, imp_and]
    exact and_comm

theorem addWorkspace_restored_iff (path : Text) (hfresh : w.workspaces.lookup env.id = none) :
    RestoredOnError w (addWorkspaceCore env path w) ↔ Compensated env w (.addWorkspace path) := by
  unfold addWorkspaceCore
  by_cases hdir : w.tree.isDir (env.locate (normalizeWorkspacePathInput env.home path)) = true
  · rw [if_neg (not_not.mpr hdir)]
    refine (attach_restored_iff env _ w.tree id (fun _ => rfl) hfresh).trans ?_
    simp [Compensated, hdir]
  · rw [if_pos hdir, restoredOnError_error]
    exact iff_of_true (.refl w) fun h => absurd h hdir

theorem addClone_restored_iff (source copyName copiesFolder : Text)
    (hfresh : w.workspaces.lookup env.id = none) :
    RestoredOnError w (addCloneCore env source copyName copiesFolder w) ↔
      Compensated env w (.addClone source copyName copiesFolder) := by
  unfold addCloneCore
  by_cases hname : copyName.trim.isEmpty = true
  · simp only [hname, if_true, restoredOnError_error]
    exact iff_of_true (.refl w) fun h => absurd (List.isEmpty_iff.mp hname) h
  by_cases hfolder : copiesFolder.trim.isEmpty = true
  · simp only [hname, hfolder, if_true, Bool.false_eq_true, if_false, restoredOnError_error]
    exact iff_of_true (.refl w) fun _ h => absurd (List.isEmpty_iff.mp hfolder) h
  have hname' : copyName.trim ≠ [] := fun h => hname (List.isEmpty_iff.mpr h)
  have hfolder' : copiesFolder.trim ≠ [] := fun h => hfolder (List.isEmpty_iff.mpr h)
  simp only [hname, hfolder, Bool.false_eq_true, if_false]
  cases hcreate : env.createDirAll.ok with
  | false =>
    obtain ⟨t, heq, hgrown⟩ := createDirAll_failed (w := w) hcreate copiesFolder.trim
    simp only [heq, restoredOnError_error]
    exact iff_of_true (restored_tree_iff.mpr hgrown) fun _ _ h => by simp [hcreate] at h
  | true =>
    obtain ⟨t, heq, hgrown, hmem⟩ := createDirAll_ok (w := w) hcreate copiesFolder.trim
    have hdir : t.isDir (env.locate copiesFolder.trim) = true := t.isDir_iff.mpr hmem
    simp only [heq, hdir, not_true_eq_false, if_false]
    cases hsource : w.workspaces.lookup source with
    | none =>
      simp only [restoredOnError_error]
      exact iff_of_true (restored_tree_iff.mpr hgrown) fun _ _ _ h => absurd hsource h
    | some found =>
      refine (clone_restored_iff hgrown hfresh).trans ?_
      simp only [Compensated, hcreate, hsource, clonePath, heq, ne_eq, hname', hfolder',
        not_false_eq_true, forall_const, reduceCtorEq]

theorem addWorkspaceFromGitUrl_restored_iff (url destinationPath : Text)
    (targetFolderName : Option Text) (hfresh : w.workspaces.lookup env.id = none) :
    RestoredOnError w (addWorkspaceFromGitUrlCore env url destinationPath targetFolderName w) ↔
      Compensated env w (.addWorkspaceFromGitUrl url destinationPath targetFolderName) := by
  unfold addWorkspaceFromGitUrlCore
  by_cases hurl : url.trim.isEmpty = true
  · simp only [hurl, if_true, restoredOnError_error]
    exact iff_of_true (.refl w) fun h => absurd (List.isEmpty_iff.mp hurl) h
  by_cases hdest : destinationPath.trim.isEmpty = true
  · simp only [hurl, hdest, if_true, Bool.false_eq_true, if_false, restoredOnError_error]
    exact iff_of_true (.refl w) fun _ h => absurd (List.isEmpty_iff.mp hdest) h
  by_cases hdir : w.tree.isDir (env.locate destinationPath.trim) = true
  swap
  · simp only [hurl, hdest, hdir, Bool.false_eq_true, not_false_eq_true, if_true, if_false,
      restoredOnError_error]
    exact iff_of_true (.refl w) fun _ _ h => absurd h hdir
  have hurl' : url.trim ≠ [] := fun h => hurl (List.isEmpty_iff.mpr h)
  have hdest' : destinationPath.trim ≠ [] := fun h => hdest (List.isEmpty_iff.mpr h)
  simp only [hurl, hdest, hdir, Bool.false_eq_true, not_true_eq_false, if_false]
  cases hname : cloneFolderName url.trim targetFolderName with
  | error error =>
    simp only [restoredOnError_error]
    refine iff_of_true (.refl w) fun _ _ _ folderName h => ?_
    rw [hname] at h
    cases h
  | ok folderName =>
    cases hinspect : inspectDestination env (joinPath destinationPath.trim folderName) w with
    | error error =>
      simp only [hinspect, restoredOnError_error]
      refine iff_of_true (.refl w) fun _ _ _ name h hok => ?_
      rw [hname] at h
      cases h
      rw [hinspect] at hok
      cases hok
    | ok =>
      simp only [hinspect]
      refine (clone_restored_iff (t := w.tree) (fun _ hd => hd) hfresh).trans ?_
      constructor
      · intro h _ _ _ name hok _
        rw [hname] at hok
        cases hok
        exact h
      · intro h
        exact h hurl' hdest' hdir folderName hname hinspect

/-- The session of a worktree and the insertion of its entry, which is not taken back. -/
theorem insertWorktree_restored_iff {entry : WorkspaceEntry} {t : FileTree Text}
    (hgrown : ∀ d ∈ t.dirs, d ∈ w.tree.dirs) (hfresh : w.workspaces.lookup entry.id = none) :
    RestoredOnError { w with tree := t } (match w.acquireSession env with
      | (.error error, w) => (.error error, w)
      | (.ok (session, _), w) => match w.insertAndWrite env entry with
        | (.error error, w) => (.error error, w)
        | (.ok (), w) => connectEntry w entry session) ↔
      if w.hasLive = false ∧ env.spawn.fails = true then
        w.stale = false ∧ env.spawn.leavesChild = false
      else env.write.ok = true := by
  -- an inserted entry that stays is not restored
  have hleft : ∀ sessions running t', ¬ Restored { w with tree := t }
      ⟨w.swept.workspaces.insert entry.id entry, sessions, running, t'⟩ := by
    intro sessions running t' h
    have hid := h.workspaces entry.id
    rw [AList.lookup_insert, hfresh] at hid
    cases hid
  by_cases hsession : w.hasLive = false ∧ env.spawn.fails = true
  · obtain ⟨error, running, hacquire, hiff⟩ := World.acquire_failed hsession.1 hsession.2
    rw [if_pos hsession]
    simp only [hacquire]
    rw [restoredOnError_error, restored_swept_iff fun id => by rw [World.swept_workspaces],
      ← World.swept_running, hiff, World.swept_tree]
    exact and_iff_left hgrown
  · obtain ⟨session, spawned, running, hacquire, _⟩ := World.acquire_ok env hsession
    rw [if_neg hsession]
    cases hwrite : env.write.ok with
    | true =>
      simp only [hacquire, World.insertAndWrite, Outcome.result, hwrite, if_true]
      exact iff_of_true restoredOnError_ok trivial
    | false =>
      simp only [hacquire, World.insertAndWrite, Outcome.result, hwrite, Bool.false_eq_true,
        if_false, restoredOnError_error]
      exact iff_of_false (hleft _ _ _) id

/-- What `git worktree add` does to the world does not depend on the tree. -/
theorem addGitWorktree_spec (env : Env) (w : World) (t : FileTree Text) :
    ∃ t', addGitWorktree env { w with tree := t } = ((addGitWorktree env w).1, { w with tree := t' }) ∧
      ∀ d ∈ t.dirs, d ∈ t'.dirs := by
  have hmade : ∀ d ∈ t.dirs, d ∈ (t.createAll env.worktreeAdd.created).dirs :=
    fun d hd => FileTree.mem_createAll _ hd
  unfold addGitWorktree
  split
  · exact ⟨t, rfl, fun _ hd => hd⟩
  · exact ⟨_, rfl, hmade⟩
  · split
    · exact ⟨t, rfl, fun _ hd => hd⟩
    · exact ⟨_, rfl, hmade⟩
    · exact ⟨_, rfl, hmade⟩

theorem addWorktree_restored_iff (parentId branch : Text) (name : Option Text)
    (hfresh : w.workspaces.lookup env.id = none) :
    RestoredOnError w (addWorktreeCore env parentId branch name w) ↔
      Compensated env w (.addWorktree parentId branch name) := by
  unfold addWorktreeCore
  by_cases hbranch : branch.trim.isEmpty = true
  · simp only [hbranch, if_true, restoredOnError_error]
    exact iff_of_true (.refl w) fun h => absurd (List.isEmpty_iff.mp hbranch) h
  have hbranch' : branch.trim ≠ [] := fun h => hbranch (List.isEmpty_iff.mpr h)
  simp only [hbranch, Bool.false_eq_true, if_false]
  cases hparent : w.workspaces.lookup parentId with
  | none =>
    simp only [restoredOnError_error]
    refine iff_of_true (.refl w) fun _ parent h => ?_
    rw [hparent] at h
    cases h
  | some parent =>
    -- the condition speaks of this parent only
    have hcomp : Compensated env w (.addWorktree parentId branch name) ↔
        (parent.isWorktree = false → env.createDirAll.ok = true →
          (uniqueWorktreePath env (w.createDirAll env (worktreeRoot env parent)).2
            (worktreeRoot env parent) (sanitizeWorktreeName branch.trim)).isOk = true →
            (addGitWorktree env w).1.isOk = true →
              if w.hasLive = false ∧ env.spawn.fails = true then
                w.stale = false ∧ env.spawn.leavesChild = false
              else env.write.ok = true) := by
      constructor
      · intro h
        exact h hbranch' parent hparent
      · intro h _ found hfound
        rw [hparent] at hfound
        cases hfound
        exact h
    rw [hcomp]
    cases hkind : parent.isWorktree with
    | true =>
      simp only [hkind, if_true, restoredOnError_error]
      exact iff_of_true (.refl w) nofun
    | false =>
      simp only [hkind, Bool.false_eq_true, if_false, forall_const]
      cases hcreate : env.createDirAll.ok with
      | false =>
        obtain ⟨t, heq, hgrown⟩ := createDirAll_failed (w := w) hcreate (worktreeRoot env parent)
        simp only [heq, restoredOnError_error]
        exact iff_of_true (restored_tree_iff.mpr hgrown) nofun
      | true =>
        obtain ⟨t, heq, hgrown, _⟩ := createDirAll_ok (w := w) hcreate (worktreeRoot env parent)
        simp only [heq, forall_const]
        cases hpath : uniqueWorktreePath env { w with tree := t } (worktreeRoot env parent)
            (sanitizeWorktreeName branch.trim) with
        | error error =>
          simp only [restoredOnError_error]
          exact iff_of_true (restored_tree_iff.mpr hgrown) nofun
        | ok path =>
          obtain ⟨t', hadd, hgrown'⟩ := addGitWorktree_spec env w t
          cases hresult : (addGitWorktree env w).1 with
          | error error =>
            simp only [hadd, hresult, restoredOnError_error]
            exact iff_of_true (restored_tree_iff.mpr fun d hd => hgrown' d (hgrown d hd))
              fun _ h => by cases h
          | ok =>
            simp only [hadd, hresult]
            refine (insertWorktree_restored_iff (w := { w with tree := t' }) (t := w.tree)
              (fun d hd => hgrown' d (hgrown d hd)) hfresh).trans ?_
            exact ⟨fun h _ _ => h, fun h => h rfl rfl⟩

/-! ### Renaming a worktree -/

theorem lookup_modify {workspaces : Workspaces} {id k : Text} {f : WorkspaceEntry → WorkspaceEntry}
    {entry : WorkspaceEntry} (h : workspaces.lookup id = some entry) :
    (modify workspaces id f).lookup k = if k = id then some (f entry) else workspaces.lookup k := by
  unfold modify
  rw [h]
  by_cases hk : k = id
  · rw [if_pos hk, hk, AList.lookup_insert]
  · rw [if_neg hk, AList.lookup_insert_ne hk]

/-- Putting the old entry back. -/
theorem lookup_restore {workspaces : Workspaces} {id : Text} {entry oldSnapshot : WorkspaceEntry}
    (h : workspaces.lookup id = some oldSnapshot) (k : Text) :
    (modify (workspaces.insert id entry) id fun _ => oldSnapshot).lookup k =
      workspaces.lookup k := by
  rw [lookup_modify (AList.lookup_insert _)]
  by_cases hk : k = id
  · rw [if_pos hk, hk, h]
  · rw [if_neg hk, AList.lookup_insert_ne hk]

section Rename

variable {id oldBranch finalBranch oldPath nextPath : Text} {oldSnapshot : WorkspaceEntry}
  {t : FileTree Text}

/-- A worktree that was not moved. -/
theorem renameEntry_unmoved (hlookup : w.workspaces.lookup id = some oldSnapshot)
    (hgrown : ∀ d ∈ t.dirs, d ∈ w.tree.dirs) :
    RestoredOnError { w with tree := t }
      (renameEntry env id oldBranch finalBranch oldPath nextPath false w) := by
  cases hwrite : env.write.ok with
  | true =>
    simp only [renameEntry, hlookup, Outcome.result, hwrite, if_true]
    exact restoredOnError_ok
  | false =>
    simp only [renameEntry, hlookup, Outcome.result, hwrite, Bool.false_eq_true, if_false]
    rw [restoredOnError_error]
    exact ⟨lookup_restore hlookup, fun _ => rfl, fun _ hc => hc, hgrown⟩

/-- A worktree that was moved has to be moved back, if it was there when the operation began. -/
theorem renameEntry_moved (hlookup : w.workspaces.lookup id = some oldSnapshot)
    (hgrown : ∀ d ∈ w.tree.dirs, d ∈ t.dirs)
    (hmovable : t.movable (env.locate oldPath) (env.locate nextPath) = true) :
    RestoredOnError w (renameEntry env id oldBranch finalBranch oldPath nextPath true
      { w with tree := t.move (env.locate oldPath) (env.locate nextPath) }) ↔
      (w.tree.isDir (env.locate oldPath) = true → env.write.ok = true ∨ env.moveBack.ok = true) := by
  cases hwrite : env.write.ok with
  | true =>
    simp only [renameEntry, hlookup, Outcome.result, hwrite, if_true]
    exact iff_of_true restoredOnError_ok fun _ => .inl trivial
  | false =>
    cases hback : env.moveBack.ok with
    | true =>
      simp only [renameEntry, hlookup, Outcome.result, hwrite, World.moveWorktree, hback,
        t.movable_move hmovable, Bool.false_eq_true, Bool.and_self, if_true, if_false]
      rw [restoredOnError_error]
      refine iff_of_true ⟨lookup_restore hlookup, fun _ => rfl, fun _ hc => hc, ?_⟩
        fun _ => .inr trivial
      intro d hd
      exact t.mem_move_move hmovable (hgrown d hd)
    | false =>
      simp only [renameEntry, hlookup, Outcome.result, hwrite, World.moveWorktree, hback,
        Bool.false_eq_true, Bool.false_and, if_true, if_false]
      rw [restoredOnError_error]
      constructor
      · intro h hpath
        exact absurd (h.dirs _ (w.tree.isDir_iff.mp hpath)) (t.not_mem_move hmovable)
      · intro h
        refine ⟨lookup_restore hlookup, fun _ => rfl, fun _ hc => hc, fun d hd => ?_⟩
        -- nothing was below the worktree, which the operation itself made
        refine t.mem_move_of_not (fun hbelow => ?_) (hgrown d hd)
        have hpath := w.tree.isDir_iff.mpr (w.tree.closed d hd _ hbelow)
        rcases h hpath with h | h <;> cases h

/-- The move of the worktree and what follows it. -/
theorem renameMoved_restored_iff (hlookup : w.workspaces.lookup id = some oldSnapshot)
    (hgrown : ∀ d ∈ w.tree.dirs, d ∈ t.dirs) :
    RestoredOnError w (match moveToNextPath env oldPath nextPath { w with tree := t } with
      | (.error error, w) => (.error error, w)
      | (.ok moved, w) => renameEntry env id oldBranch finalBranch oldPath nextPath moved w) ↔
      (workspacePathToString nextPath ≠ oldPath → env.moveWorktree.ok = true →
        t.movable (env.locate oldPath) (env.locate nextPath) = true →
          w.tree.isDir (env.locate oldPath) = true →
            env.write.ok = true ∨ env.moveBack.ok = true) := by
  by_cases hpath : workspacePathToString nextPath ≠ oldPath
  · by_cases hmove : env.moveWorktree.ok = true ∧
        t.movable (env.locate oldPath) (env.locate nextPath) = true
    · obtain ⟨hok, hmovable⟩ := hmove
      simp only [moveToNextPath, if_pos hpath, World.moveWorktree, hok, hmovable, Bool.and_self,
        if_true]
      refine (renameEntry_moved hlookup hgrown hmovable).trans ?_
      exact ⟨fun h _ _ _ => h, fun h => h hpath trivial trivial⟩
    · have hfails : (env.moveWorktree.ok &&
          t.movable (env.locate oldPath) (env.locate nextPath)) = false := by
        rw [← Bool.not_eq_true, Bool.and_eq_true]
        exact hmove
      simp only [moveToNextPath, if_pos hpath, World.moveWorktree, hfails, Bool.false_eq_true,
        if_false, restoredOnError_error]
      exact iff_of_true (restored_tree_iff.mpr hgrown)
        fun _ hok hmovable => absurd ⟨hok, hmovable⟩ hmove
  · simp only [moveToNextPath, if_neg hpath]
    exact iff_of_true (renameEntry_unmoved (w := { w with tree := t }) hlookup hgrown)
      fun h => absurd h hpath

end Rename

theorem renameToBranch_restored_iff {id oldBranch finalBranch : Text}
    {entry parent oldSnapshot : WorkspaceEntry}
    (hlookup : w.workspaces.lookup id = some oldSnapshot) :
    RestoredOnError w
      (renameWorktreeCore.renameToBranch env id entry parent oldBranch finalBranch w) ↔
      w.RenameClean env entry parent finalBranch := by
  unfold renameWorktreeCore.renameToBranch World.RenameClean renamedPath
  cases hcreate : env.createDirAll.ok with
  | false =>
    obtain ⟨t, heq, hgrown⟩ := createDirAll_failed (w := w) hcreate (worktreeRoot env parent)
    simp only [heq, restoredOnError_error]
    exact iff_of_true (restored_tree_iff.mpr hgrown) nofun
  | true =>
    obtain ⟨t, heq, hgrown, _⟩ := createDirAll_ok (w := w) hcreate (worktreeRoot env parent)
    simp only [heq, forall_const]
    cases hpath : uniqueWorktreePathForRename (World.presentAt { w with tree := t } env)
        (worktreeRoot env parent) (sanitizeWorktreeName finalBranch) entry.path with
    | error error =>
      simp only [restoredOnError_error]
      exact iff_of_true (restored_tree_iff.mpr hgrown) nofun
    | ok path =>
      cases hrename : env.renameBranch.ok with
      | false =>
        simp only [Outcome.result, hrename, Bool.false_eq_true, if_false, restoredOnError_error]
        exact iff_of_true (restored_tree_iff.mpr hgrown) fun _ _ h => h.elim
      | true =>
        simp only [Outcome.result, hrename, if_true]
        refine (renameMoved_restored_iff hlookup hgrown).trans ?_
        constructor
        · rintro h nextPath ⟨⟩ _
          exact h
        · intro h
          exact h path rfl trivial

theorem renameWorktree_restored_iff (id branch : Text) :
    RestoredOnError w (renameWorktreeCore env id branch w) ↔
      Compensated env w (.renameWorktree id branch) := by
  unfold renameWorktreeCore
  by_cases hbranch : branch.trim.isEmpty = true
  · simp only [hbranch, if_true, restoredOnError_error]
    exact iff_of_true (.refl w) fun h => absurd (List.isEmpty_iff.mp hbranch) h
  have hbranch' : branch.trim ≠ [] := fun h => hbranch (List.isEmpty_iff.mpr h)
  simp only [hbranch, Bool.false_eq_true, if_false]
  cases hfound : worktreeWithParent w.workspaces id with
  | error error =>
    simp only [restoredOnError_error]
    refine iff_of_true (.refl w) fun _ entry parent h => ?_
    rw [hfound] at h
    cases h
  | ok found =>
    obtain ⟨entry, parent⟩ := found
    have hlookup := (Store.worktreeWithParent_eq_ok hfound).1
    -- the condition speaks of this entry and its parent only
    have hcomp : Compensated env w (.renameWorktree id branch) ↔
        ∀ oldBranch, entry.worktree = some oldBranch → oldBranch ≠ branch.trim →
          env.resolveGitRoot.isOk = true →
            ∀ finalBranch, env.uniqueBranchName = .ok finalBranch → finalBranch ≠ oldBranch →
              w.RenameClean env entry parent finalBranch := by
      constructor
      · intro h
        exact h hbranch' entry parent hfound
      · intro h _ entry' parent' hfound'
        rw [hfound] at hfound'
        cases hfound'
        exact h
    rw [hcomp]
    cases hworktree : entry.worktree with
    | none =>
      simp only [hworktree, restoredOnError_error]
      exact iff_of_true (.refl w) nofun
    | some oldBranch =>
      simp only [hworktree, Option.some.injEq, forall_eq']
      by_cases hsame : oldBranch = branch.trim
      · simp only [if_pos hsame, restoredOnError_error]
        exact iff_of_true (.refl w) fun h => absurd hsame h
      · simp only [if_neg hsame]
        cases hroot : env.resolveGitRoot with
        | error error =>
          simp only [restoredOnError_error]
          exact iff_of_true (.refl w) fun _ h => by cases h
        | ok root =>
          cases hunique : env.uniqueBranchName with
          | error error =>
            simp only [restoredOnError_error]
            exact iff_of_true (.refl w) fun _ _ _ h => by cases h
          | ok finalBranch =>
            by_cases hfinal : finalBranch = oldBranch
            · simp only [if_pos hfinal, restoredOnError_error]
              refine iff_of_true (.refl w) ?_
              rintro _ _ _ ⟨⟩ hne
              exact absurd hfinal hne
            · simp only [if_neg hfinal]
              refine (renameToBranch_restored_iff hlookup).trans ?_
              constructor
              · rintro h _ _ _ ⟨⟩ _
                exact h
              · intro h
                exact h hsame rfl finalBranch rfl hfinal

/-! ### Settings -/

/-- Handing the setup script on to the children does not touch an entry that has it. -/
theorem lookup_updateAll {workspaces : Workspaces} {ids : List Text} {id : Text}
    {entry : WorkspaceEntry} (h : workspaces.lookup id = some entry) :
    (Store.updateAll workspaces ids entry.settings.worktreeSetupScript).lookup id =
      some entry := by
  induction ids generalizing workspaces with
  | nil => exact h
  | cons child ids ih =>
    show (Store.updateAll (modify workspaces child _) ids _).lookup id = some entry
    refine ih ?_
    cases hchild : workspaces.lookup child with
    | none =>
      unfold modify
      rw [hchild]
      exact h
    | some found =>
      rw [lookup_modify hchild]
      by_cases hid : id = child
      · subst hid
        rw [h] at hchild
        cases hchild
        rw [if_pos rfl]
        rfl
      · rw [if_neg hid, h]

theorem updateWorkspaceSettings_restored_iff (id : Text) (settings : WorkspaceSettings) :
    RestoredOnError w (updateWorkspaceSettingsCore env id settings w) ↔
      Compensated env w (.updateWorkspaceSettings id settings) := by
  unfold updateWorkspaceSettingsCore
  cases hlookup : w.workspaces.lookup id with
  | none =>
    simp only [restoredOnError_error]
    refine iff_of_true (.refl w) fun previous h => ?_
    rw [hlookup] at h
    cases h
  | some previous =>
    have hcomp : Compensated env w (.updateWorkspaceSettings id settings) ↔
        (env.write.ok = true ∨ acceptedSettings settings = previous.settings) := by
      constructor
      · intro h
        exact h previous hlookup
      · intro h found hfound
        rw [hlookup] at hfound
        cases hfound
        exact h
    rw [hcomp]
    cases hwrite : env.write.ok with
    | true =>
      simp only [Outcome.result, hwrite, if_true]
      exact iff_of_true restoredOnError_ok (.inl trivial)
    | false =>
      simp only [Outcome.result, hwrite, Bool.false_eq_true, if_false, false_or]
      rw [restoredOnError_error]
      constructor
      · intro h
        -- the workspace has the new settings, whatever is handed on to the children
        have hid := h.workspaces id
        have hnew : some { previous with settings := acceptedSettings settings } = some previous := by
          rw [← hlookup, ← hid]
          split_ifs
          · rw [lookup_updateAll (AList.lookup_insert _)]
          · rw [AList.lookup_insert]
        exact congrArg WorkspaceEntry.settings (Option.some.inj hnew)
      · intro h
        refine ⟨fun k => ?_, fun _ => rfl, fun _ hc => hc, fun _ hd => hd⟩
        rw [if_neg (by simp [h])]
        by_cases hk : k = id
        · subst hk
          rw [AList.lookup_insert, hlookup, h]
        · rw [AList.lookup_insert_ne hk]

/-! ### Every operation -/

/-- **A failing operation restores the world exactly when it is compensated for.** In every
    world and for all outcomes of what the operation calls, with a new id: if it returns an
    error then the two maps are as before, no child process that it spawned runs, and every
    directory that existed exists. -/
theorem restored_iff_compensated (env : Env) (operation : Operation) (w : World)
    (hfresh : w.workspaces.lookup env.id = none) :
    RestoredOnError w (operation.run env w) ↔ Compensated env w operation := by
  cases operation with
  | addWorkspace path => exact addWorkspace_restored_iff path hfresh
  | addClone source copyName copiesFolder =>
    exact addClone_restored_iff source copyName copiesFolder hfresh
  | addWorkspaceFromGitUrl url destinationPath targetFolderName =>
    exact addWorkspaceFromGitUrl_restored_iff url destinationPath targetFolderName hfresh
  | addWorktree parentId branch name => exact addWorktree_restored_iff parentId branch name hfresh
  | renameWorktree id branch => exact renameWorktree_restored_iff id branch
  | updateWorkspaceSettings id settings => exact updateWorkspaceSettings_restored_iff id settings

def repoEntry : WorkspaceEntry where
  id := "w".toList
  name := "repo".toList
  path := "/repo".toList

/-- A world with a workspace in "/repo". -/
def repoWorld : World where
  workspaces := (∅ : Workspaces).insert "w".toList repoEntry
  tree := FileTree.create ⟨[], [], nofun⟩ ["repo".toList]

/-- Everything works but writing the list. -/
def unwritable : Env where
  id := "t".toList
  dataDir := "/data".toList
  write := { ok := false, error := "No space left on device".toList }

/-- Adding a workspace undoes what it did. -/
theorem addWorkspace_unwritable :
    ((Operation.addWorkspace "/repo".toList).run unwritable repoWorld).1 =
        .error "No space left on device".toList ∧
      RestoredOnError repoWorld ((Operation.addWorkspace "/repo".toList).run unwritable repoWorld) := by
  refine ⟨rfl, (restored_iff_compensated unwritable _ repoWorld rfl).mpr ?_⟩
  intro _ _
  exact ⟨rfl, fun _ => rfl⟩

/-- **Adding a worktree does not.** The call fails, its entry stays in the map and the session
    that it spawned runs on. -/
theorem addWorktree_unwritable :
    ∃ w', (Operation.addWorktree "w".toList "feature".toList none).run unwritable repoWorld =
        (.error "No space left on device".toList, w') ∧
      repoWorld.workspaces.lookup "t".toList = none ∧ w'.workspaces.lookup "t".toList ≠ none ∧
      ∃ child ∈ w'.running, child ∉ repoWorld.running :=
  ⟨_, rfl, rfl, nofun, 1, List.mem_cons_self, nofun⟩

end CodexMonitor.WorkspaceStore
