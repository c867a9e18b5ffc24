import CodexMonitor.Workspaces.Store

namespace CodexMonitor.WorkspaceStore

open Text

/-!
# Workspaces — no update of the map is lost

Every operation that changes the map writes the whole list behind its last change, in one
piece with taking the list.  Between two writes the file may be behind the map, but then an
operation is under way that will still write it.

* `Synced` — the file holds the list that is stored for the map.
* `Stage.Unwritten` — the operation has changed the map and has yet to write it.
* `Persisted` — the invariant: the file is in step, or such an operation is under way.
* `stored_when_idle` — the runs.
-/

namespace Store

variable {s s' : Store} {i : Nat} {st : Stage}

/-- The file holds the entries of the map as they are stored, in some order. -/
def Synced (s : Store) : Prop := s.file.Perm (stored s.workspaces)

/-- Every write of the file succeeds. -/
def WritesSucceed (_ : Store) : Action → Prop
  | .op _ (.insert written) | .op _ (.remove written) | .op _ (.rename written)
  | .op _ (.persist written) => written = .ok ()
  | _ => True

end Store

/-- The operation has changed the map and has yet to write it. -/
def Stage.Unwritten : Stage → Prop
  | .updatingChildren .. | .persisting _ => True
  | _ => False

/-- The operation takes back a change that it could not write. -/
def Stage.Rollback : Stage → Prop
  | .undoing .. | .restoring .. => True
  | _ => False

namespace Store

variable {s s' : Store} {i : Nat} {st : Stage}

/-- The invariant of the runs whose writes succeed. -/
structure Persisted (s : Store) : Prop where
  forward : s.ops.Each fun _ st => ¬ st.Rollback
  synced : s.Synced ∨ ∃ i st, s.ops i = some st ∧ st.Unwritten

/-- The operation has just written the list. -/
theorem Persisted.write (h : s.Persisted) {workspaces : Workspaces} (hst : ¬ st.Rollback) :
    Persisted ({ s with workspaces := workspaces }.write.move i st) :=
  ⟨h.forward.set_same hst, .inl (List.Perm.refl _)⟩

/-- The operation moves on without touching the map, and was not about to write it. -/
theorem Persisted.move (h : s.Persisted) (hi : ∀ u, s.ops i = some u → ¬ u.Unwritten)
    (hst : ¬ st.Rollback) : Persisted (s.move i st) := by
  refine ⟨h.forward.set_same hst, ?_⟩
  rcases h.synced with hsync | ⟨j, u, hj, hu⟩
  · exact .inl hsync
  · right
    have hji : j ≠ i := by
      rintro rfl
      exact hi u hj hu
    exact ⟨j, u, (Tasks.set_of_ne hji).trans hj, hu⟩

theorem Persisted.issue (h : s.Persisted) (entry : WorkspaceEntry) : Persisted (s.issue entry) :=
  ⟨h.forward, h.synced⟩

/-- The operation changes the map and will write it. -/
theorem Persisted.change (h : s.Persisted) {workspaces : Workspaces} (hst : ¬ st.Rollback)
    (hunwritten : st.Unwritten) :
    Persisted ({ s with workspaces := workspaces }.move i st) :=
  ⟨h.forward.set_same hst, .inr ⟨i, st, Tasks.set_self, hunwritten⟩⟩

theorem Persisted.firstAccess (h : s.Persisted) {request : Request}
    (hst : s.ops i = some (.requested request)) (haccess : FirstAccess s i s') :
    s'.Persisted := by
  have hi : ∀ u, s.ops i = some u → ¬ u.Unwritten := by
    intro u hu
    obtain rfl : _ = u := Option.some.inj (hst.symm.trans hu)
    exact id
  cases haccess with
  | refused error => exact h.move hi id
  | adding hkind hparent hfresh => exact (h.move hi id).issue _
  | addingWorktree hlookup hmain hkind hparent hfresh => exact (h.move hi id).issue _
  | removingWorktree hlookup hkind => exact h.move hi id
  | removingWorkspace id' flags => exact h.move hi id
  | renamingWorktree id' oldBranch finalBranch nextPath => exact h.move hi id
  | updating hlookup hnext =>
    -- the settings are changed here and written by the last step of the update
    rcases hnext with rfl | ⟨children, rfl⟩
    · exact h.change id trivial
    · exact h.change id trivial

/-- **Steps.** An operation whose write succeeds keeps the invariant. -/
theorem Persisted.step (h : s.Persisted) {step : Step} (hguard : s.WritesSucceed (.op i step))
    (heffect : Effect s i step s') : s'.Persisted := by
  -- the operation that moves is not about to write, unless this step is its write
  have hidle : ∀ {st}, s.ops i = some st → ¬ st.Unwritten → ∀ u, s.ops i = some u →
      ¬ u.Unwritten := by
    intro st hst hnot u hu
    obtain rfl : st = u := Option.some.inj (hst.symm.trans hu)
    exact hnot
  cases heffect with
  | request hnone request =>
    refine h.move ?_ id
    intro u hu
    rw [hnone] at hu
    cases hu
  | lookup hst haccess => exact h.firstAccess hst haccess
  | @refuse st hst hrefusable error =>
    refine h.move (hidle hst ?_) id
    cases st <;> simp_all [Stage.refusable, Stage.Unwritten]
  | insert hst => exact h.write id
  | insertFails hst error => cases hguard
  | undo hst => exact absurd trivial (h.forward i _ hst)
  | insertWorktree hst written =>
    cases hguard
    exact h.write id
  | removeWorktree hst written =>
    cases hguard
    exact h.write id
  | child outcome hst hnext =>
    rcases hnext with ⟨removed, failures, rfl⟩ | ⟨error, rfl⟩
    · exact h.move (hidle hst id) id
    · exact h.move (hidle hst id) id
  | removeWorkspace hst written =>
    cases hguard
    exact h.write id
  | renameMissing written hst => exact h.move (hidle hst id) id
  | rename hst hlookup => exact h.write id
  | renameFails error hst hlookup => cases hguard
  | restore hst => exact absurd trivial (h.forward i _ hst)
  | updateChildren hst => exact h.change id trivial
  | persist hst written =>
    cases hguard
    exact h.write id

/-- Every operation has returned. -/
def AllReturned (s : Store) : Prop := s.ops.Each fun _ st => ∃ result, st = .returned result

end Store

open Store

/-- **No lost update.** From a file that is in step with the map, for every interleaving of
    operations whose writes succeed: once all of them have returned, the file holds exactly
    the entries of the map, with their paths in the form in which they are stored. -/
theorem stored_when_idle (start s : Store) (actions : List Action) (hstart : start.AllReturned)
    (hsynced : start.Synced) (hguard : storeMachine.Guarded WritesSucceed start actions)
    (hrun : storeMachine.run start actions = some s) (hdone : s.AllReturned) :
    s.file.Perm (stored s.workspaces) := by
  have hinit : start.Persisted := by
    refine ⟨hstart.mono ?_, .inl hsynced⟩
    rintro i _ - ⟨result, rfl⟩
    exact id
  have h : s.Persisted := by
    refine Machine.run_invariant ?_ hinit hguard hrun
    rintro s ⟨i, step⟩ s' h hg hstep
    exact h.step hg (stepOp_effect hstep)
  rcases h.synced with hsync | ⟨i, st, hst, hunwritten⟩
  · exact hsync
  · obtain ⟨result, rfl⟩ := hdone i st hst
    exact hunwritten.elim

/-- A workspace is added. -/
def addRun : List Action :=
  [.op 0 (.request (.addWorkspace "/repo".toList)), .op 0 (.lookup { id := "w".toList }),
    .op 0 (.insert (.ok ()))]

/-- A workspace is added, and its worktrees folder set to a path with two prefixes. -/
def nestedFolderRun : List Action :=
  addRun ++ [.op 1 (.request (.updateWorkspaceSettings "w".toList
    { worktreesFolder := some "//?/UNC/?/C:/x".toList })), .op 1 (.lookup {}),
    .op 1 (.persist (.ok ()))]

theorem nestedFolderRun_returns :
    ∃ s, storeMachine.run {} nestedFolderRun = some s ∧ s.AllReturned ∧
      s.file.map (·.settings.worktreesFolder) = [some "C:/x".toList] ∧
      (values s.workspaces).map (·.settings.worktreesFolder) = [some "//?/C:/x".toList] := by
  refine ⟨_, rfl, ?_, rfl, rfl⟩
  show Tasks.Each _ ((((((Tasks.idle.set 0 _).set 0 _).set 0 (Stage.returned _)).set 1 _).set 1
    _).set 1 (Stage.returned _))
  simp only [Tasks.set_set]
  exact (Tasks.Each.idle.set_same ⟨_, rfl⟩).set_same ⟨_, rfl⟩

theorem nestedFolderRun_writes : storeMachine.Guarded WritesSucceed {} nestedFolderRun := by
  refine ⟨trivial, ?_⟩
  rintro _ ⟨⟩
  refine ⟨trivial, ?_⟩
  rintro _ ⟨⟩
  refine ⟨rfl, ?_⟩
  rintro _ ⟨⟩
  refine ⟨trivial, ?_⟩
  rintro _ ⟨⟩
  refine ⟨trivial, ?_⟩
  rintro _ ⟨⟩
  exact ⟨rfl, fun _ _ => trivial⟩

/-- A run of two operations, from an empty map and an empty file. -/
theorem stored_nestedFolderRun :
    ∃ s, storeMachine.run {} nestedFolderRun = some s ∧ s.AllReturned ∧
      s.file.Perm (stored s.workspaces) := by
  obtain ⟨s, hrun, hdone, _⟩ := nestedFolderRun_returns
  exact ⟨s, hrun, hdone, stored_when_idle {} s nestedFolderRun Tasks.Each.idle (List.Perm.refl _)
    nestedFolderRun_writes hrun hdone⟩

/-- **The stored list is not the list of entries.** An update strips one prefix from the
    worktrees folder, and writing strips the next one: with every write successful and every
    operation returned, the file has another folder than the map. -/
theorem nestedFolderRun_differs :
    ∃ s, storeMachine.run {} nestedFolderRun = some s ∧
      storeMachine.Guarded WritesSucceed {} nestedFolderRun ∧ s.AllReturned ∧
      ¬ ∀ entry, entry ∈ s.file ↔ entry ∈ values s.workspaces := by
  obtain ⟨s, hrun, hdone, hfile, hmap⟩ := nestedFolderRun_returns
  refine ⟨s, hrun, nestedFolderRun_writes, hdone, ?_⟩
  intro hsame
  obtain ⟨entry, hentry, hfolder⟩ :
      ∃ entry ∈ s.file, entry.settings.worktreesFolder = some "C:/x".toList := by
    rw [← List.mem_map, hfile]
    exact List.mem_singleton_self _
  have hmem := List.mem_map_of_mem (f := (·.settings.worktreesFolder)) ((hsame entry).mp hentry)
  rw [hmap, hfolder, List.mem_singleton] at hmem
  exact absurd hmem (by decide)

end CodexMonitor.WorkspaceStore
