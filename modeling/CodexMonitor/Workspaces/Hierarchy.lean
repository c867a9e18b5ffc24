import CodexMonitor.Workspaces.Store

namespace CodexMonitor.WorkspaceStore

open Text

/-!
# Workspaces — every worktree has its parent

A worktree's entry names the workspace it belongs to.  The operations look the parent up,
or collect the children, long before they change the map, so a parent may go between; in
the runs in which a worktree is inserted under a parent that is still there, and a parent
goes only with its worktrees, every worktree has its parent in every state.

* `HasParent` — what is wanted of a worktree.
* `SameShape` — maps that differ in names, paths and settings only.
* `Hierarchy` — the invariant; `issued` fixes the kind and the parent of an id for good.
* `worktrees_have_parents` — the runs.
-/

/-- The parent that the entry names is there, and is not a worktree. -/
def HasParent (workspaces : Workspaces) (entry : WorkspaceEntry) : Prop :=
  ∃ parentId parent, entry.parentId = some parentId ∧
    workspaces.lookup parentId = some parent ∧ parent.kind = .main

/-- What an entry keeps for good. -/
def WorkspaceEntry.shape (entry : WorkspaceEntry) : Text × WorkspaceKind × Option Text :=
  (entry.id, entry.kind, entry.parentId)

/-- The maps have the same ids, kinds and parents. -/
def SameShape (ws ws' : Workspaces) : Prop :=
  ∀ id, (ws'.lookup id).map WorkspaceEntry.shape = (ws.lookup id).map WorkspaceEntry.shape

theorem SameShape.trans {ws ws' ws'' : Workspaces} (h : SameShape ws ws')
    (h' : SameShape ws' ws'') : SameShape ws ws'' :=
  fun id => (h' id).trans (h id)

/-- An entry of the one map has its like in the other. -/
theorem SameShape.lookup {ws ws' : Workspaces} (h : SameShape ws ws') {id : Text}
    {entry : WorkspaceEntry} (hlookup : ws'.lookup id = some entry) :
    ∃ old, ws.lookup id = some old ∧ old.shape = entry.shape := by
  have hid := h id
  rw [hlookup, Option.map_some] at hid
  obtain ⟨old, hold, hshape⟩ := Option.map_eq_some_iff.mp hid.symm
  exact ⟨old, hold, hshape⟩

theorem SameShape.symm {ws ws' : Workspaces} (h : SameShape ws ws') : SameShape ws' ws :=
  fun id => (h id).symm

theorem SameShape.hasParent {ws ws' : Workspaces} (h : SameShape ws ws')
    {entry entry' : WorkspaceEntry} (hshape : entry'.shape = entry.shape)
    (hparent : HasParent ws entry) : HasParent ws' entry' := by
  obtain ⟨parentId, parent, hid, hlookup, hkind⟩ := hparent
  obtain ⟨parent', hlookup', hshape'⟩ := h.symm.lookup hlookup
  have hid' : entry'.parentId = entry.parentId := congrArg (·.2.2) hshape
  have hkind' : parent'.kind = parent.kind := congrArg (·.2.1) hshape'
  exact ⟨parentId, parent', hid'.trans hid, hlookup', hkind'.trans hkind⟩

/-- An entry is replaced by one of its shape. -/
theorem sameShape_insert {ws : Workspaces} {id : Text} {old entry : WorkspaceEntry}
    (hlookup : ws.lookup id = some old) (hshape : entry.shape = old.shape) :
    SameShape ws (ws.insert id entry) := by
  intro k
  by_cases hk : k = id
  · subst hk
    rw [AList.lookup_insert, hlookup, Option.map_some, Option.map_some, hshape]
  · rw [AList.lookup_insert_ne hk]

theorem sameShape_modify {ws : Workspaces} {id : Text} {f : WorkspaceEntry → WorkspaceEntry}
    (hf : ∀ entry, ws.lookup id = some entry → (f entry).shape = entry.shape) :
    SameShape ws (modify ws id f) := by
  unfold modify
  split
  next entry hlookup => exact sameShape_insert hlookup (hf entry hlookup)
  next => exact fun _ => rfl

/-- Handing on the setup script changes settings only. -/
theorem sameShape_updateAll (ws : Workspaces) (ids : List Text) (script : Option Text) :
    SameShape ws (Store.updateAll ws ids script) := by
  unfold Store.updateAll
  induction ids generalizing ws with
  | nil => exact fun _ => rfl
  | cons id ids ih =>
    have hstep : SameShape ws (modify ws id (withSetupScript script)) :=
      sameShape_modify fun _ _ => rfl
    exact hstep.trans (ih _)

theorem lookup_removeAll (ws : Workspaces) (ids : List Text) (id : Text) :
    (Store.removeAll ws ids).lookup id = if id ∈ ids then none else ws.lookup id := by
  unfold Store.removeAll
  induction ids generalizing ws with
  | nil => simp
  | cons k ids ih =>
    rw [List.foldl_cons, ih]
    by_cases hk : id = k
    · subst hk
      simp
    · rw [AList.lookup_erase_ne hk]
      simp [hk]

/-- The kind and the parent of the entry are those its id was drawn with. -/
def Agrees (issued : Registry Text (WorkspaceKind × Option Text)) (entry : WorkspaceEntry) :
    Prop :=
  issued.lookup entry.id = some (entry.kind, entry.parentId)

/-- What the operation's stage says about the ids it holds. -/
def Stage.Agrees (issued : Registry Text (WorkspaceKind × Option Text)) : Stage → Prop
  | .adding entry => WorkspaceStore.Agrees issued entry ∧ entry.kind = .main
  | .undoing id _ => ∃ parentId, issued.lookup id = some (.main, parentId)
  | .addingWorktree entry => WorkspaceStore.Agrees issued entry ∧ entry.kind = .worktree
  | .removingWorktree id => ∃ parentId, issued.lookup id = some (.worktree, parentId)
  | .restoring id old _ => old.id = id ∧ WorkspaceStore.Agrees issued old
  | _ => True

/-- Drawing a new id changes nothing for the others. -/
theorem lookup_issue {issued : Registry Text (WorkspaceKind × Option Text)} {id k : Text}
    {v w : WorkspaceKind × Option Text} (hfresh : issued.lookup id = none)
    (hk : issued.lookup k = some v) : (issued.insert id w).lookup k = some v := by
  have hne : k ≠ id := by
    rintro rfl
    rw [hfresh] at hk
    cases hk
  exact (AList.lookup_insert_ne hne).trans hk

theorem Stage.Agrees.issue {issued : Registry Text (WorkspaceKind × Option Text)} {st : Stage}
    {id : Text} {w : WorkspaceKind × Option Text} (hfresh : issued.lookup id = none)
    (h : st.Agrees issued) : st.Agrees (issued.insert id w) := by
  cases st with
  | adding entry => exact ⟨lookup_issue hfresh h.1, h.2⟩
  | undoing id' error =>
    obtain ⟨parentId, hp⟩ := h
    exact ⟨parentId, lookup_issue hfresh hp⟩
  | addingWorktree entry => exact ⟨lookup_issue hfresh h.1, h.2⟩
  | removingWorktree id' =>
    obtain ⟨parentId, hp⟩ := h
    exact ⟨parentId, lookup_issue hfresh hp⟩
  | restoring id' old error => exact ⟨h.1, lookup_issue hfresh h.2⟩
  | requested | removingWorkspace | renamingWorktree | updatingChildren | persisting
  | returned => trivial

namespace Store

variable {s s' : Store} {i : Nat} {st : Stage}

/-- The invariant of the runs that keep the parents. -/
structure Hierarchy (s : Store) : Prop where
  keyed : Registry.Each (fun id entry => entry.id = id ∧ Agrees s.issued entry) s.workspaces
  stages : s.ops.Each fun _ st => st.Agrees s.issued
  parents : Registry.Each (fun _ entry => entry.kind = .worktree → HasParent s.workspaces entry)
    s.workspaces

/-- The map of an operation that only moves on. -/
theorem Hierarchy.move (h : s.Hierarchy) (hst : st.Agrees s.issued) : Hierarchy (s.move i st) :=
  ⟨h.keyed, h.stages.set_same hst, h.parents⟩

theorem Hierarchy.write (h : s.Hierarchy) : Hierarchy s.write :=
  ⟨h.keyed, h.stages, h.parents⟩

/-- An operation ends with the outcome of its write. -/
theorem Hierarchy.finish (h : s.Hierarchy) (written : Except Text Unit)
    (result : Except Text (Option WorkspaceEntry)) : Hierarchy (s.finish i written result) := by
  unfold Store.finish
  split
  · exact h.write.move trivial
  · exact h.move trivial

theorem Hierarchy.issue (h : s.Hierarchy) {entry : WorkspaceEntry}
    (hfresh : s.issued.lookup entry.id = none) : Hierarchy (s.issue entry) where
  keyed := h.keyed.mono fun _ _ _ hk => ⟨hk.1, lookup_issue hfresh hk.2⟩
  stages := h.stages.mono fun _ _ _ hst => hst.issue hfresh
  parents := h.parents

/-- Names, paths and settings change. -/
theorem Hierarchy.reshape (h : s.Hierarchy) {workspaces : Workspaces}
    (hsame : SameShape s.workspaces workspaces) :
    Hierarchy { s with workspaces := workspaces } where
  keyed := by
    intro id entry hlookup
    obtain ⟨old, hold, hshape⟩ := hsame.lookup hlookup
    obtain ⟨hid, hagrees⟩ := h.keyed id old hold
    have hid' : old.id = entry.id := congrArg (·.1) hshape
    have hkind : old.kind = entry.kind := congrArg (·.2.1) hshape
    have hparent : old.parentId = entry.parentId := congrArg (·.2.2) hshape
    refine ⟨hid'.symm.trans hid, ?_⟩
    unfold Agrees at hagrees ⊢
    rw [← hid', ← hkind, ← hparent]
    exact hagrees
  stages := h.stages
  parents := by
    intro id entry hlookup hkind
    obtain ⟨old, hold, hshape⟩ := hsame.lookup hlookup
    have hkind' : old.kind = entry.kind := congrArg (·.2.1) hshape
    exact hsame.hasParent hshape.symm (h.parents id old hold (hkind'.trans hkind))

/-- A drawn entry is inserted, a worktree under a parent that is there. -/
theorem Hierarchy.insert (h : s.Hierarchy) {entry : WorkspaceEntry}
    (hagrees : Agrees s.issued entry)
    (hparent : entry.kind = .worktree → HasParent s.workspaces entry) :
    Hierarchy { s with workspaces := s.workspaces.insert entry.id entry } := by
  -- a parent with the id of the entry keeps its kind
  have hkept : ∀ e, HasParent s.workspaces e →
      HasParent (s.workspaces.insert entry.id entry) e := by
    rintro e ⟨parentId, parent, hid, hlookup, hkind⟩
    by_cases heq : parentId = entry.id
    · subst heq
      refine ⟨entry.id, entry, hid, AList.lookup_insert _, ?_⟩
      obtain ⟨hpid, hpagrees⟩ := h.keyed _ parent hlookup
      unfold Agrees at hpagrees hagrees
      rw [hpid, hagrees] at hpagrees
      injection hpagrees with hpair
      injection hpair with hkinds _
      exact hkinds.trans hkind
    · exact ⟨parentId, parent, hid, (AList.lookup_insert_ne heq).trans hlookup, hkind⟩
  refine ⟨h.keyed.insert ⟨rfl, hagrees⟩, h.stages, ?_⟩
  intro id e hlookup hkind
  rcases Registry.lookup_insert_eq_some hlookup with ⟨rfl, rfl⟩ | ⟨_, hold⟩
  · exact hkept e (hparent hkind)
  · exact hkept e (h.parents id e hold hkind)

/-- Entries are removed, a parent only with its worktrees. -/
theorem Hierarchy.remove (h : s.Hierarchy) (ids : List Text)
    (hids : ∀ id entry parentId, s.workspaces.lookup id = some entry → entry.kind = .worktree →
      entry.parentId = some parentId → parentId ∈ ids → id ∈ ids) :
    Hierarchy { s with workspaces := removeAll s.workspaces ids } := by
  have hlookup : ∀ id entry, (removeAll s.workspaces ids).lookup id = some entry →
      id ∉ ids ∧ s.workspaces.lookup id = some entry := by
    intro id entry hid
    rw [lookup_removeAll] at hid
    split_ifs at hid with hmem
    exact ⟨hmem, hid⟩
  refine ⟨fun id entry hid => h.keyed id entry (hlookup id entry hid).2, h.stages, ?_⟩
  intro id entry hid hkind
  obtain ⟨hstays, hold⟩ := hlookup id entry hid
  obtain ⟨parentId, parent, hpid, hparent, hmain⟩ := h.parents id entry hold hkind
  refine ⟨parentId, parent, hpid, ?_, hmain⟩
  rw [lookup_removeAll, if_neg fun hmem => hstays (hids id entry parentId hold hkind hpid hmem)]
  exact hparent

/-- A worktree is inserted only under a parent that is there, and a workspace goes only with
    its worktrees. -/
def KeepsParents (s : Store) : Action → Prop
  | .op i (.insert _) => ∀ entry, s.ops i = some (.addingWorktree entry) →
      HasParent s.workspaces entry
  | .op i .undo => ∀ id error, s.ops i = some (.undoing id error) →
      ∀ k entry, s.workspaces.lookup k = some entry → entry.kind = .worktree →
        entry.parentId ≠ some id
  | .op i (.remove _) => ∀ id removed failures flags,
      s.ops i = some (.removingWorkspace id [] removed failures flags) →
      ∀ k entry parentId, s.workspaces.lookup k = some entry → entry.kind = .worktree →
        entry.parentId = some parentId → parentId ∈ idsToRemove id removed failures flags →
        k ∈ idsToRemove id removed failures flags
  | _ => True

theorem Hierarchy.firstAccess (h : s.Hierarchy) (haccess : FirstAccess s i s') :
    s'.Hierarchy := by
  cases haccess with
  | refused error => exact h.move trivial
  | adding hkind hparent hfresh =>
    exact (h.issue hfresh).move ⟨AList.lookup_insert _, hkind⟩
  | addingWorktree hlookup hmain hkind hparent hfresh =>
    exact (h.issue hfresh).move ⟨AList.lookup_insert _, hkind⟩
  | @removingWorktree id entry hlookup hkind =>
    obtain ⟨_, hagrees⟩ := h.keyed id entry hlookup
    unfold Agrees at hagrees
    rw [of_decide_eq_true hkind] at hagrees
    exact h.move ⟨entry.parentId, hagrees⟩
  | removingWorkspace id flags => exact h.move trivial
  | renamingWorktree id oldBranch finalBranch nextPath => exact h.move trivial
  | updating hlookup hnext =>
    rcases hnext with rfl | ⟨children, rfl⟩
    · exact (h.reshape (sameShape_insert hlookup (by rfl))).move (by trivial)
    · exact (h.reshape (sameShape_insert hlookup (by rfl))).move (by trivial)

/-- Removing one entry. -/
theorem removeAll_singleton (ws : Workspaces) (id : Text) : removeAll ws [id] = ws.erase id := rfl

/-- **Steps.** A step that keeps the parents keeps the hierarchy. -/
theorem Hierarchy.step (h : s.Hierarchy) {step : Step} (hguard : s.KeepsParents (.op i step))
    (heffect : Effect s i step s') : s'.Hierarchy := by
  cases heffect with
  | request hnone request => exact h.move trivial
  | lookup hst haccess => exact h.firstAccess haccess
  | refuse hst hrefusable error => exact h.move trivial
  | @insert entry hst =>
    obtain ⟨hagrees, hkind⟩ := h.stages i _ hst
    refine (h.insert hagrees ?_).write.move trivial
    rw [hkind]
    nofun
  | @insertFails entry hst error =>
    obtain ⟨hagrees, hkind⟩ := h.stages i _ hst
    refine (h.insert hagrees ?_).move ⟨entry.parentId, ?_⟩
    · rw [hkind]
      nofun
    · unfold Agrees at hagrees
      rw [hkind] at hagrees
      exact hagrees
  | @undo id error hst =>
    refine Hierarchy.move ?_ trivial
    rw [← removeAll_singleton]
    refine h.remove [id] ?_
    intro k entry parentId hlookup hkind hpid hmem
    rw [List.mem_singleton] at hmem
    subst hmem
    exact absurd hpid (hguard parentId error hst k entry hlookup hkind)
  | @insertWorktree entry hst written =>
    obtain ⟨hagrees, _⟩ := h.stages i _ hst
    exact (h.insert hagrees fun _ => hguard entry hst).finish written _
  | @removeWorktree id hst written =>
    refine Hierarchy.finish ?_ written _
    rw [← removeAll_singleton]
    refine h.remove [id] ?_
    intro k entry parentId hlookup hkind hpid hmem
    rw [List.mem_singleton] at hmem
    subst hmem
    -- the removed entry is a worktree, and no worktree is a parent
    obtain ⟨p, hissued⟩ := h.stages i _ hst
    obtain ⟨q, parent, hq, hparent, hmain⟩ := h.parents k entry hlookup hkind
    rw [hpid] at hq
    cases hq
    obtain ⟨hid, hagrees⟩ := h.keyed parentId parent hparent
    unfold Agrees at hagrees
    rw [hid, hissued, hmain] at hagrees
    cases hagrees
  | child outcome hst hnext =>
    rcases hnext with ⟨removed, failures, rfl⟩ | ⟨error, rfl⟩
    · exact h.move trivial
    · exact h.move trivial
  | @removeWorkspace id removed failures flags hst written =>
    exact (h.remove _ (hguard id removed failures flags hst)).finish written _
  | renameMissing written hst => exact h.move trivial
  | rename hst hlookup =>
    exact (h.reshape (sameShape_insert hlookup (by rfl))).write.move (by trivial)
  | @renameFails id oldBranch finalBranch nextPath old error hst hlookup =>
    have hold := h.keyed id old hlookup
    exact (h.reshape (sameShape_insert hlookup (by rfl))).move (by exact hold)
  | @restore id error old hst =>
    obtain ⟨hid, hagrees⟩ := h.stages i _ hst
    refine (h.reshape (sameShape_modify ?_)).move trivial
    intro entry hlookup
    obtain ⟨hid', hagrees'⟩ := h.keyed id entry hlookup
    unfold Agrees at hagrees hagrees'
    rw [hid] at hagrees
    rw [hid', hagrees] at hagrees'
    injection hagrees' with hpair
    unfold WorkspaceEntry.shape
    rw [hid, hid', hpair]
  | updateChildren hst => exact (h.reshape (sameShape_updateAll _ _ _)).move trivial
  | persist hst written => exact h.finish written _

theorem Hierarchy.init : Hierarchy {} :=
  ⟨Registry.Each.empty, Tasks.Each.idle, Registry.Each.empty⟩

end Store

open Store

/-- **Every worktree has its parent.** In every run from an empty map whose steps keep the
    parents, each worktree entry names an entry of the map that is not a worktree, in every
    state. -/
theorem worktrees_have_parents (actions : List Action) (s : Store)
    (hguard : storeMachine.Guarded KeepsParents storeMachine.init actions)
    (hrun : storeMachine.run storeMachine.init actions = some s) (id : Text)
    (entry : WorkspaceEntry) (hlookup : s.workspaces.lookup id = some entry)
    (hkind : entry.kind = .worktree) : HasParent s.workspaces entry := by
  have h : s.Hierarchy := by
    refine Machine.run_invariant ?_ Hierarchy.init hguard hrun
    rintro s ⟨i, step⟩ s' h hg hstep
    exact h.step hg (stepOp_effect hstep)
  exact h.parents id entry hlookup hkind

/-- A workspace with the id "w" is added. -/
def addParent : List Action :=
  [.op 0 (.request (.addWorkspace "/repo".toList)), .op 0 (.lookup { id := "w".toList }),
    .op 0 (.insert (.ok ()))]

/-- A worktree of it, up to its insertion. -/
def prepareWorktree : List Action :=
  [.op 1 (.request (.addWorktree "w".toList "feature".toList none)),
    .op 1 (.lookup { id := "t".toList, path := "/trees/feature".toList })]

def worktreeRun : List Action := addParent ++ prepareWorktree ++ [.op 1 (.insert (.ok ()))]

theorem worktreeRun_keepsParents :
    storeMachine.Guarded KeepsParents storeMachine.init worktreeRun := by
  refine ⟨trivial, ?_⟩
  rintro _ ⟨⟩
  refine ⟨trivial, ?_⟩
  rintro _ ⟨⟩
  refine ⟨?_, ?_⟩
  · intro entry hst
    cases hst
  rintro _ ⟨⟩
  refine ⟨trivial, ?_⟩
  rintro _ ⟨⟩
  refine ⟨trivial, ?_⟩
  rintro _ ⟨⟩
  refine ⟨?_, fun _ _ => trivial⟩
  -- the parent is still there when the worktree is inserted
  rintro _ ⟨⟩
  exact ⟨"w".toList, _, rfl, rfl, rfl⟩

/-- A run that keeps the parents, with a worktree in the end. -/
theorem hasParent_worktreeRun :
    ∃ s entry, storeMachine.run storeMachine.init worktreeRun = some s ∧
      s.workspaces.lookup "t".toList = some entry ∧ entry.kind = .worktree ∧
      HasParent s.workspaces entry := by
  obtain ⟨s, entry, hrun, hlookup, hkind⟩ :
      ∃ s entry, storeMachine.run storeMachine.init worktreeRun = some s ∧
        s.workspaces.lookup "t".toList = some entry ∧ entry.kind = .worktree :=
    ⟨_, _, rfl, rfl, rfl⟩
  exact ⟨s, entry, hrun, hlookup, hkind,
    worktrees_have_parents worktreeRun s worktreeRun_keepsParents hrun _ entry hlookup hkind⟩

/-- The workspace is removed while its first worktree is being made. -/
def orphanRun : List Action :=
  addParent ++ prepareWorktree ++
    [.op 2 (.request (.removeWorkspace "w".toList true true)), .op 2 (.lookup {}),
      .op 2 (.remove (.ok ())), .op 1 (.insert (.ok ()))]

/-- **A worktree without a parent.** With every operation returned, the worktree is in the
    map and its parent is not. -/
theorem orphanRun_orphan :
    ∃ s entry, storeMachine.run storeMachine.init orphanRun = some s ∧
      (∀ i < 3, ∃ result, s.ops i = some (.returned (.ok result))) ∧
      s.workspaces.lookup "t".toList = some entry ∧ entry.kind = .worktree ∧
      entry.parentId = some "w".toList ∧ s.workspaces.lookup "w".toList = none := by
  obtain ⟨s, hrun, hreturned⟩ : ∃ s, storeMachine.run storeMachine.init orphanRun = some s ∧
      ∀ i < 3, ∃ result, s.ops i = some (.returned (.ok result)) := by
    refine ⟨_, rfl, ?_⟩
    intro i hi
    obtain rfl | rfl | rfl : i = 0 ∨ i = 1 ∨ i = 2 := by omega
    · exact ⟨_, rfl⟩
    · exact ⟨_, rfl⟩
    · exact ⟨_, rfl⟩
  have hworktree : (storeMachine.run storeMachine.init orphanRun).map (fun s =>
      (s.workspaces.lookup "t".toList).map fun entry => (entry.kind, entry.parentId)) =
        some (some (.worktree, some "w".toList)) := by decide +kernel
  have hparent : (storeMachine.run storeMachine.init orphanRun).map (fun s =>
      s.workspaces.lookup "w".toList) = some none := by decide +kernel
  rw [hrun] at hworktree hparent
  obtain ⟨entry, hlookup, hentry⟩ := Option.map_eq_some_iff.mp (Option.some.inj hworktree)
  obtain ⟨hkind, hparentId⟩ := Prod.mk.inj hentry
  exact ⟨s, entry, hrun, hreturned, hlookup, hkind, hparentId, Option.some.inj hparent⟩

end CodexMonitor.WorkspaceStore
