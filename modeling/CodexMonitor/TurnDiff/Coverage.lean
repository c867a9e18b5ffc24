import CodexMonitor.TurnDiff.Tracker

namespace CodexMonitor.TurnDiff

/-!
# Turn diff — what the diff covers

The diff of a turn describes the changes of the turn as long as every change finds the tracker
in a state that can follow it.

* `Describes` — what is asked of the diff: one entry for each current path, the two sides of an
  entry, and no change left out.
* `Trackable` — the condition on a change, from the state before it and the patch it is in.
* `Consistent` — the invariant that the three maps of the tracker keep.
* `Shown` — a path whose change the diff can show.
* `describes_run` — in runs whose changes are all trackable the diff describes the turn.
-/

/-! ### What is asked of the diff -/

/-- Moves out of a list, in their order, lead from the first path to the second. -/
inductive Moved : List (Path × Path) → Path → Path → Prop
  | here {moves a b} : Moved (moves ++ [(a, b)]) a b
  | later {moves m a b} : Moved moves a b → Moved (moves ++ [m]) a b
  | join {moves a b c} : Moved moves a b → Moved (moves ++ [(b, c)]) a c

/-- The path is an end of moves that brought a file of the start of the turn somewhere else, with
    the content that it had. -/
def UnchangedMoveEnd (s : TurnState) (x : Path) : Prop :=
  ∃ a b, Moved s.moves a b ∧ (s.start.content a).isSome ∧ s.fs.content b = s.start.content a ∧
    (x = a ∨ x = b)

section Coverage

variable (blobOid : Path → File → Text) (display : Path → Text)

/-- The entries of the diff. -/
def diffEntries (s : TurnState) : List FileEntry :=
  (s.tracker.getUnifiedDiff blobOid display s.fs).getD []

/-- **The diff describes the turn.** -/
structure Describes (s : TurnState) : Prop where
  unique : ((diffEntries blobOid display s).map FileEntry.currentPath).Nodup
  sides : ∀ e ∈ diffEntries blobOid display s,
    e.left = s.start.content e.baselinePath ∧ e.right = s.fs.content e.currentPath
  complete : ∀ x, s.fs.content x ≠ s.start.content x →
    (∃ e ∈ diffEntries blobOid display s, x = e.baselinePath ∨ x = e.currentPath) ∨
      UnchangedMoveEnd s x

/-! ### The condition -/

/-- The path is the baseline path of a tracked file. -/
def TurnDiffTracker.IsBaseline (t : TurnDiffTracker) (x : Path) : Prop :=
  ∃ i info, t.baselineFileInfo.lookup i = some info ∧ info.path = x

/-- **A change that the tracker can follow**: `fs` and `fs'` are the files before and after the
    patch, `later` the changes of the patch that come after this one. -/
structure Trackable (start fs fs' : FileSystem) (t : TurnDiffTracker) (change : Change)
    (later : List Change) : Prop where
  /-- A path that is not the current path of a tracked file is as at the start of the turn. -/
  seen : t.externalToTempName.lookup change.1 = none →
    fs.content change.1 = start.content change.1
  /-- A file is not moved to the current path of another tracked file. -/
  free : ∀ dest, change.2.moveDest = some dest → dest ≠ change.1 →
    t.externalToTempName.lookup dest = none
  /-- A path that a file leaves is as at the start of the turn after the patch, or it existed
      then and is the baseline path of a tracked file. -/
  left : ∀ dest, change.2.moveDest = some dest → dest ≠ change.1 →
    change.1 ∉ later.flatMap Change.names → fs'.content change.1 = start.content change.1 ∨
      (start.content change.1).isSome ∧
        (t.ensureTracked blobOid fs change.1).IsBaseline change.1
  /-- A file that was added in the turn is not gone after the patch from a path that existed at
      the start of the turn, but for the baseline path of a tracked file. -/
  stays : ∀ i info, (t.ensureTracked blobOid fs change.1).externalToTempName.lookup change.1 =
      some i → (t.ensureTracked blobOid fs change.1).baselineFileInfo.lookup i = some info →
    start.content info.path = none →
    change.2.moveDest.getD change.1 ∉ later.flatMap Change.names →
    fs'.content (change.2.moveDest.getD change.1) = none →
    start.content (change.2.moveDest.getD change.1) = none ∨
      (t.ensureTracked blobOid fs change.1).IsBaseline (change.2.moveDest.getD change.1)

/-- Every change of a patch can be followed. -/
def AllTrackable (start fs fs' : FileSystem) : TurnDiffTracker → List Change → Prop
  | _, [] => True
  | t, change :: later =>
      Trackable blobOid start fs fs' t change later ∧
        AllTrackable start fs fs' (t.onChange blobOid fs change) later

def PatchTrackable (s : TurnState) (patch : Patch) : Prop :=
  AllTrackable blobOid s.start s.fs (s.fs.applyPatch patch) s.tracker patch.changes

/-! ### The maps of the tracker -/

/-- What the tracker remembers of the start of the turn. -/
def BaselineFileInfo.left (info : BaselineFileInfo) : Option Bytes :=
  if info.oid != zeroOid then some info.content else none

/-- **The invariant of the maps.** -/
structure Consistent (start : FileSystem) (moves : List (Path × Path)) (t : TurnDiffTracker) :
    Prop where
  external : ∀ p i, t.externalToTempName.lookup p = some i ↔
    t.tempNameToCurrentPath.lookup i = some p
  known : ∀ i p, t.tempNameToCurrentPath.lookup i = some p →
    ∃ info, t.baselineFileInfo.lookup i = some info
  fresh : ∀ i info, t.baselineFileInfo.lookup i = some info → i < t.next
  left : ∀ i info, t.baselineFileInfo.lookup i = some info → info.left = start.content info.path
  moved : ∀ i info, t.baselineFileInfo.lookup i = some info →
    ∃ p, t.tempNameToCurrentPath.lookup i = some p ∧ (info.path = p ∨ Moved moves info.path p)

variable {blobOid display} {start fs fs' : FileSystem} {moves : List (Path × Path)}
  {t : TurnDiffTracker} {path dest x : Path} {i : Nat} {info : BaselineFileInfo}
  {change : Change} {later : List Change}

theorem consistent_empty : Consistent start [] {} := by
  constructor
  · intro p i
    constructor <;> intro h <;> cases h
  · intro i p h
    cases h
  · intro i info h
    cases h
  · intro i info h
    cases h
  · intro i info h
    cases h

/-- What a snapshot keeps is the content of the file. -/
theorem left_snapshot (hoid : ∀ path file, blobOid path file ≠ zeroOid) (fs : FileSystem)
    (path : Path) : (snapshot blobOid fs path).left = fs.content path := by
  unfold snapshot BaselineFileInfo.left FileSystem.content
  cases hfile : fs path with
  | some file => simp [hoid]
  | none => simp [missingBaseline]

theorem path_snapshot (fs : FileSystem) (path : Path) : (snapshot blobOid fs path).path = path := by
  unfold snapshot
  split <;> rfl

theorem ensureTracked_of_some (h : t.externalToTempName.lookup path = some i) :
    t.ensureTracked blobOid fs path = t := by
  unfold TurnDiffTracker.ensureTracked
  rw [h]

theorem ensureTracked_of_none (h : t.externalToTempName.lookup path = none) :
    t.ensureTracked blobOid fs path =
      { externalToTempName := t.externalToTempName.insert path t.next
        baselineFileInfo := t.baselineFileInfo.insert t.next (snapshot blobOid fs path)
        tempNameToCurrentPath := t.tempNameToCurrentPath.insert t.next path
        next := t.next + 1 } := by
  unfold TurnDiffTracker.ensureTracked
  rw [h]

/-- After the first step the path has an internal name. -/
theorem exists_ensureTracked (blobOid : Path → File → Text) (t : TurnDiffTracker)
    (fs : FileSystem) (path : Path) :
    ∃ i, (t.ensureTracked blobOid fs path).externalToTempName.lookup path = some i := by
  cases h : t.externalToTempName.lookup path with
  | some i => exact ⟨i, by rw [ensureTracked_of_some h, h]⟩
  | none => exact ⟨t.next, by rw [ensureTracked_of_none h, AList.lookup_insert]⟩

theorem recordMove_of_some (h : t.externalToTempName.lookup path = some i) :
    t.recordMove path dest =
      { t with
        tempNameToCurrentPath := t.tempNameToCurrentPath.insert i dest
        externalToTempName := (t.externalToTempName.erase path).insert dest i } := by
  unfold TurnDiffTracker.recordMove
  rw [h]

/-- **A path is seen** for the first time. -/
theorem Consistent.ensureTracked (h : Consistent start moves t)
    (hoid : ∀ path file, blobOid path file ≠ zeroOid)
    (hseen : t.externalToTempName.lookup path = none → fs.content path = start.content path) :
    Consistent start moves (t.ensureTracked blobOid fs path) := by
  cases hlookup : t.externalToTempName.lookup path with
  | some i => rwa [ensureTracked_of_some hlookup]
  | none =>
    rw [ensureTracked_of_none hlookup]
    have hnew : ∀ i info, t.baselineFileInfo.lookup i = some info → i ≠ t.next := by
      intro i info hinfo
      have := h.fresh i info hinfo
      omega
    have hcurrent : ∀ i p, t.tempNameToCurrentPath.lookup i = some p → i ≠ t.next := by
      intro i p hp
      obtain ⟨info, hinfo⟩ := h.known i p hp
      exact hnew i info hinfo
    constructor
    · intro p i
      constructor
      · intro hp
        rcases Registry.lookup_insert_eq_some hp with ⟨rfl, rfl⟩ | ⟨hne, hold⟩
        · exact AList.lookup_insert _
        · have hi := (h.external p i).mp hold
          rw [AList.lookup_insert_ne (hcurrent i p hi), hi]
      · intro hi
        rcases Registry.lookup_insert_eq_some hi with ⟨rfl, rfl⟩ | ⟨hne, hold⟩
        · exact AList.lookup_insert _
        · have hp := (h.external p i).mpr hold
          have hpne : p ≠ path := by
            rintro rfl
            rw [hlookup] at hp
            cases hp
          rw [AList.lookup_insert_ne hpne, hp]
    · intro i p hp
      rcases Registry.lookup_insert_eq_some hp with ⟨rfl, rfl⟩ | ⟨hne, hold⟩
      · exact ⟨_, AList.lookup_insert _⟩
      · obtain ⟨info, hinfo⟩ := h.known i p hold
        exact ⟨info, by rw [AList.lookup_insert_ne hne, hinfo]⟩
    · intro i info hinfo
      show i < t.next + 1
      rcases Registry.lookup_insert_eq_some hinfo with ⟨rfl, _⟩ | ⟨_, hold⟩
      · omega
      · have := h.fresh i info hold
        omega
    · intro i info hinfo
      rcases Registry.lookup_insert_eq_some hinfo with ⟨_, rfl⟩ | ⟨_, hold⟩
      · rw [left_snapshot hoid, path_snapshot, hseen hlookup]
      · exact h.left i info hold
    · intro i info hinfo
      rcases Registry.lookup_insert_eq_some hinfo with ⟨rfl, rfl⟩ | ⟨hne, hold⟩
      · exact ⟨path, AList.lookup_insert _, .inl (path_snapshot fs path)⟩
      · obtain ⟨p, hp, hmoved⟩ := h.moved i info hold
        exact ⟨p, by rw [AList.lookup_insert_ne hne, hp], hmoved⟩

/-- **A file is moved** to a path that no other tracked file has. -/
theorem Consistent.recordMove (h : Consistent start moves t)
    (hpath : t.externalToTempName.lookup path = some i)
    (hfree : dest ≠ path → t.externalToTempName.lookup dest = none) :
    Consistent start (moves ++ [(path, dest)]) (t.recordMove path dest) := by
  rw [recordMove_of_some hpath]
  have hcurrent : t.tempNameToCurrentPath.lookup i = some path := (h.external path i).mp hpath
  -- no other file is at the path or at the destination
  have hother : ∀ k p, k ≠ i → t.tempNameToCurrentPath.lookup k = some p → p ≠ path ∧ p ≠ dest := by
    intro k p hk hp
    have hkp := (h.external p k).mpr hp
    have hne : p ≠ path := by
      rintro rfl
      rw [hpath] at hkp
      exact hk (Option.some.inj hkp).symm
    refine ⟨hne, ?_⟩
    rintro rfl
    rw [hfree hne] at hkp
    cases hkp
  constructor
  · intro p k
    constructor
    · intro hp
      rcases Registry.lookup_insert_eq_some hp with ⟨rfl, rfl⟩ | ⟨hne, hold⟩
      · exact AList.lookup_insert _
      · obtain ⟨hpne, hpk⟩ := Registry.lookup_erase_eq_some hold
        have hki : k ≠ i := by
          rintro rfl
          exact hpne (Option.some.inj (((h.external p k).mp hpk).symm.trans hcurrent))
        rw [AList.lookup_insert_ne hki, (h.external p k).mp hpk]
    · intro hk
      rcases Registry.lookup_insert_eq_some hk with ⟨rfl, rfl⟩ | ⟨hne, hold⟩
      · exact AList.lookup_insert _
      · obtain ⟨hpne, hpd⟩ := hother k p hne hold
        rw [AList.lookup_insert_ne hpd, AList.lookup_erase_ne hpne, (h.external p k).mpr hold]
  · intro k p hp
    rcases Registry.lookup_insert_eq_some hp with ⟨rfl, rfl⟩ | ⟨_, hold⟩
    · exact h.known k path hcurrent
    · exact h.known k p hold
  · exact h.fresh
  · exact h.left
  · intro k info hinfo
    obtain ⟨p, hp, hmoved⟩ := h.moved k info hinfo
    by_cases hk : k = i
    · subst hk
      obtain rfl : path = p := Option.some.inj (hcurrent.symm.trans hp)
      refine ⟨dest, AList.lookup_insert _, .inr ?_⟩
      rcases hmoved with heq | hmoved
      · rw [heq]
        exact .here
      · exact .join hmoved
    · exact ⟨p, by rw [AList.lookup_insert_ne hk, hp], hmoved.imp_right .later⟩

theorem onChange_of_none (h : change.2.moveDest = none) :
    t.onChange blobOid fs change = t.ensureTracked blobOid fs change.1 := by
  unfold TurnDiffTracker.onChange
  rw [h]

theorem onChange_of_some (h : change.2.moveDest = some dest) :
    t.onChange blobOid fs change =
      (t.ensureTracked blobOid fs change.1).recordMove change.1 dest := by
  unfold TurnDiffTracker.onChange
  rw [h]

theorem moves_of_none (h : change.2.moveDest = none) : change.moves = [] := by
  rw [Change.moves, h]
  rfl

theorem moves_of_some (h : change.2.moveDest = some dest) :
    change.moves = [(change.1, dest)] := by
  rw [Change.moves, h]
  rfl

/-- **One change** that can be followed keeps the maps consistent. -/
theorem Consistent.onChange (h : Consistent start moves t)
    (hoid : ∀ path file, blobOid path file ≠ zeroOid)
    (hok : Trackable blobOid start fs fs' t change later) :
    Consistent start (moves ++ change.moves) (t.onChange blobOid fs change) := by
  have hseen := h.ensureTracked hoid hok.seen
  cases hdest : change.2.moveDest with
  | none =>
    rw [onChange_of_none hdest, moves_of_none hdest, List.append_nil]
    exact hseen
  | some dest =>
    obtain ⟨i, hi⟩ := exists_ensureTracked blobOid t fs change.1
    rw [onChange_of_some hdest, moves_of_some hdest]
    refine hseen.recordMove hi ?_
    intro hne
    have hfree := hok.free dest hdest hne
    cases hlookup : t.externalToTempName.lookup change.1 with
    | some j => rwa [ensureTracked_of_some hlookup]
    | none =>
      rw [ensureTracked_of_none hlookup, AList.lookup_insert_ne hne]
      exact hfree

/-! ### What a change leaves alone -/

theorem lookup_baseline_ensureTracked (h : Consistent start moves t)
    (hinfo : t.baselineFileInfo.lookup i = some info) :
    (t.ensureTracked blobOid fs path).baselineFileInfo.lookup i = some info := by
  cases hlookup : t.externalToTempName.lookup path with
  | some j => rwa [ensureTracked_of_some hlookup]
  | none =>
    have hlt := h.fresh i info hinfo
    rw [ensureTracked_of_none hlookup, AList.lookup_insert_ne (by omega), hinfo]

theorem baseline_recordMove (h : t.externalToTempName.lookup path = some i) :
    (t.recordMove path dest).baselineFileInfo = t.baselineFileInfo := by
  rw [recordMove_of_some h]

/-- The baselines after a change are those after its path was seen. -/
theorem baseline_onChange (blobOid : Path → File → Text) (t : TurnDiffTracker) (fs : FileSystem)
    (change : Change) : (t.onChange blobOid fs change).baselineFileInfo =
      (t.ensureTracked blobOid fs change.1).baselineFileInfo := by
  cases hdest : change.2.moveDest with
  | none => rw [onChange_of_none hdest]
  | some dest =>
    obtain ⟨i, hi⟩ := exists_ensureTracked blobOid t fs change.1
    rw [onChange_of_some hdest, baseline_recordMove hi]

/-- A path that the change does not name is the current path of the file it was before. -/
theorem lookup_external_onChange (hx : x ∉ change.names) :
    (t.onChange blobOid fs change).externalToTempName.lookup x =
      t.externalToTempName.lookup x := by
  have hne : x ≠ change.1 := fun heq => hx (heq ▸ List.mem_cons_self)
  have hseen : (t.ensureTracked blobOid fs change.1).externalToTempName.lookup x =
      t.externalToTempName.lookup x := by
    cases hlookup : t.externalToTempName.lookup change.1 with
    | some i => rw [ensureTracked_of_some hlookup]
    | none => rw [ensureTracked_of_none hlookup, AList.lookup_insert_ne hne]
  cases hdest : change.2.moveDest with
  | none => rw [onChange_of_none hdest, hseen]
  | some dest =>
    obtain ⟨i, hi⟩ := exists_ensureTracked blobOid t fs change.1
    have hnd : x ≠ dest := by
      rintro rfl
      exact hx (by simp [Change.names, hdest])
    rw [onChange_of_some hdest, recordMove_of_some hi, AList.lookup_insert_ne hnd,
      AList.lookup_erase_ne hne, hseen]

/-! ### Paths whose change is shown -/

/-- **The change of a path is shown** or there is none: the path is the baseline path of a file
    that existed at the start of the turn, or the current path of a file that existed then or
    exists now. -/
def Shown (start fs' : FileSystem) (t : TurnDiffTracker) (x : Path) : Prop :=
  fs'.content x = start.content x ∨ ((start.content x).isSome ∧ t.IsBaseline x) ∨
    ∃ i info, t.externalToTempName.lookup x = some i ∧ t.baselineFileInfo.lookup i = some info ∧
      ((start.content info.path).isSome ∨ (fs'.content x).isSome)

theorem Shown.onChange (h : Shown start fs' t x) (hc : Consistent start moves t)
    (hx : x ∉ change.names) : Shown start fs' (t.onChange blobOid fs change) x := by
  have hkeep : ∀ i info, t.baselineFileInfo.lookup i = some info →
      (t.onChange blobOid fs change).baselineFileInfo.lookup i = some info := by
    intro i info hinfo
    rw [baseline_onChange]
    exact lookup_baseline_ensureTracked hc hinfo
  rcases h with hsame | ⟨hstart, i, info, hinfo, hpath⟩ | ⟨i, info, hi, hinfo, hexists⟩
  · exact .inl hsame
  · exact .inr (.inl ⟨hstart, i, info, hkeep i info hinfo, hpath⟩)
  · exact .inr (.inr ⟨i, info, (lookup_external_onChange hx).trans hi, hkeep i info hinfo,
      hexists⟩)

/-- The path where the file of a change ends up, and the one that it leaves. -/
theorem shown_of_trackable (hc : Consistent start moves t)
    (hoid : ∀ path file, blobOid path file ≠ zeroOid)
    (hok : Trackable blobOid start fs fs' t change later) (hx : x ∈ change.names)
    (hlater : x ∉ later.flatMap Change.names) :
    Shown start fs' (t.onChange blobOid fs change) x := by
  obtain ⟨i, hi⟩ := exists_ensureTracked blobOid t fs change.1
  have hseen := hc.ensureTracked hoid hok.seen
  obtain ⟨info, hinfo⟩ := hseen.known i change.1 ((hseen.external _ _).mp hi)
  have hbase : ∀ y, (t.ensureTracked blobOid fs change.1).IsBaseline y →
      (t.onChange blobOid fs change).IsBaseline y := by
    rintro y ⟨k, info, hk, hy⟩
    exact ⟨k, info, by rw [baseline_onChange, hk], hy⟩
  -- the place where the file is in the end
  have hplace : ∀ y, y = change.2.moveDest.getD change.1 → y ∉ later.flatMap Change.names →
      (t.onChange blobOid fs change).externalToTempName.lookup y = some i →
      Shown start fs' (t.onChange blobOid fs change) y := by
    rintro y rfl hy hexternal
    have hinfo' : (t.onChange blobOid fs change).baselineFileInfo.lookup i = some info := by
      rw [baseline_onChange, hinfo]
    cases hstart : start.content info.path with
    | some c => exact .inr (.inr ⟨i, info, hexternal, hinfo', .inl (by rw [hstart]; rfl)⟩)
    | none =>
      cases hnow : fs'.content (change.2.moveDest.getD change.1) with
      | some c => exact .inr (.inr ⟨i, info, hexternal, hinfo', .inr (by rw [hnow]; rfl)⟩)
      | none =>
        cases hthen : start.content (change.2.moveDest.getD change.1) with
        | none => exact .inl (hnow.trans hthen.symm)
        | some c =>
          rcases hok.stays i info hi hinfo hstart hy hnow with hnone | hbaseline
          · rw [hthen] at hnone
            cases hnone
          · exact .inr (.inl ⟨by rw [hthen]; rfl, hbase _ hbaseline⟩)
  cases hdest : change.2.moveDest with
  | none =>
    obtain rfl : x = change.1 := by simpa [Change.names, hdest] using hx
    refine hplace change.1 (by rw [hdest]; rfl) hlater ?_
    rw [onChange_of_none hdest, hi]
  | some dest =>
    have hmoved : (t.onChange blobOid fs change).externalToTempName.lookup dest = some i := by
      rw [onChange_of_some hdest, recordMove_of_some hi, AList.lookup_insert]
    by_cases hxd : x = dest
    · subst hxd
      exact hplace x (by rw [hdest]; rfl) hlater hmoved
    · obtain rfl : x = change.1 := by
        have hcases : x = change.1 ∨ x = dest := by simpa [Change.names, hdest] using hx
        exact hcases.resolve_right hxd
      rcases hok.left dest hdest (Ne.symm hxd) hlater with hsame | ⟨hstart, hbaseline⟩
      · exact .inl hsame
      · exact .inr (.inl ⟨hstart, hbase _ hbaseline⟩)

/-! ### Patches and turns -/

/-- **The changes of a patch** one after the other. -/
theorem onPatchBegin_spec (hoid : ∀ path file, blobOid path file ≠ zeroOid)
    (changes : List Change) (hc : Consistent start moves t)
    (hok : AllTrackable blobOid start fs fs' t changes)
    (hshown : ∀ x, x ∉ changes.flatMap Change.names → Shown start fs' t x) :
    Consistent start (moves ++ changes.flatMap Change.moves)
        (t.onPatchBegin blobOid fs changes) ∧
      ∀ x, Shown start fs' (t.onPatchBegin blobOid fs changes) x := by
  induction changes generalizing t moves with
  | nil =>
    refine ⟨by rw [List.flatMap_nil, List.append_nil]; exact hc, ?_⟩
    intro x
    exact hshown x (by simp)
  | cons change later ih =>
    obtain ⟨hfirst, hrest⟩ := hok
    rw [List.flatMap_cons, ← List.append_assoc]
    refine ih (hc.onChange hoid hfirst) hrest ?_
    intro x hx
    by_cases hnamed : x ∈ change.names
    · exact shown_of_trackable hc hoid hfirst hnamed hx
    · refine (hshown x ?_).onChange hc hnamed
      rw [List.flatMap_cons, List.mem_append, not_or]
      exact ⟨hnamed, hx⟩

/-- A patch leaves the paths alone that it does not name. -/
theorem content_applyPatch (patch : Patch) (fs : FileSystem)
    (hx : x ∉ patch.changes.flatMap Change.names) :
    (fs.applyPatch patch).content x = fs.content x := by
  have hone : ∀ (fs : FileSystem) (change : Change), x ∉ change.names →
      (fs.applyChange change) x = fs x := by
    intro fs change hchange
    have hne : x ≠ change.1 := fun heq => hchange (heq ▸ List.mem_cons_self)
    obtain ⟨path, change⟩ := change
    cases change with
    | add content => exact Function.update_of_ne hne _ _
    | delete content => exact Function.update_of_ne hne _ _
    | update unifiedDiff newContent movePath =>
      cases movePath with
      | none => exact Function.update_of_ne hne _ _
      | some dest =>
        have hnd : x ≠ dest := by
          rintro rfl
          exact hchange (by simp [Change.names, FileChange.moveDest])
        exact (Function.update_of_ne hne _ _).trans (Function.update_of_ne hnd _ _)
  have hall : ∀ (changes : List Change) (fs : FileSystem),
      (∀ change ∈ changes, x ∉ Change.names change) →
      (changes.foldl FileSystem.applyChange fs) x = fs x := by
    intro changes
    induction changes with
    | nil =>
      intro fs _
      rfl
    | cons change changes ih =>
      intro fs hnames
      rw [List.foldl_cons, ih _ fun c hmem => hnames c (List.mem_cons_of_mem _ hmem)]
      exact hone fs change (hnames change List.mem_cons_self)
  unfold FileSystem.content FileSystem.applyPatch
  rw [hall]
  intro change hmem hname
  exact hx (List.mem_flatMap.mpr ⟨change, patch.perm.mem_iff.mp hmem, hname⟩)

/-- **What a turn keeps.** -/
structure Covered (s : TurnState) : Prop where
  consistent : Consistent s.start s.moves s.tracker
  shown : ∀ x, Shown s.start s.fs s.tracker x

theorem covered_init (start : FileSystem) : Covered (turnMachine blobOid start).init := by
  refine ⟨consistent_empty, ?_⟩
  intro x
  exact .inl rfl

theorem Covered.applyPatch {s : TurnState} {patch : Patch} (h : Covered s)
    (hoid : ∀ path file, blobOid path file ≠ zeroOid) (hok : PatchTrackable blobOid s patch) :
    Covered (s.applyPatch blobOid patch) := by
  obtain ⟨hconsistent, hshown⟩ := onPatchBegin_spec hoid patch.changes h.consistent hok (by
    intro x hx
    rcases h.shown x with hsame | hbaseline | ⟨i, info, hi, hinfo, hexists⟩
    · exact .inl ((content_applyPatch patch s.fs hx).trans hsame)
    · exact .inr (.inl hbaseline)
    · refine .inr (.inr ⟨i, info, hi, hinfo, ?_⟩)
      rwa [content_applyPatch patch s.fs hx])
  exact ⟨hconsistent, hshown⟩

/-! ### From the invariant to the diff -/

theorem getPathForInternal_of_current (h : t.tempNameToCurrentPath.lookup i = some path) :
    t.getPathForInternal i = some path := by
  unfold TurnDiffTracker.getPathForInternal
  rw [h]
  rfl

/-- The entry of a tracked file: its baseline against the file at its current path. -/
theorem getFileDiff_of_tracked (hinfo : t.baselineFileInfo.lookup i = some info)
    (hpath : t.tempNameToCurrentPath.lookup i = some path) :
    t.getFileDiff blobOid fs i = none ∧ info.left = fs.content path ∨
      ∃ e, t.getFileDiff blobOid fs i = some e ∧ info.left ≠ fs.content path ∧
        e.baselinePath = info.path ∧ e.currentPath = path ∧ e.left = info.left ∧
        e.right = fs.content path := by
  unfold TurnDiffTracker.getFileDiff
  rw [getPathForInternal_of_current hpath, hinfo]
  show (if info.left = fs.content path then none else some _) = none ∧ _ ∨
    ∃ e, (if info.left = fs.content path then none else some _) = some e ∧ _
  by_cases hsame : info.left = fs.content path
  · rw [if_pos hsame]
    exact .inl ⟨rfl, hsame⟩
  · rw [if_neg hsame]
    exact .inr ⟨_, rfl, hsame, rfl, rfl, rfl, rfl⟩

/-- An entry is that of a tracked file. -/
theorem exists_of_getFileDiff (hc : Consistent start moves t) {e : FileEntry}
    (he : t.getFileDiff blobOid fs i = some e) :
    ∃ info, t.baselineFileInfo.lookup i = some info ∧
      t.tempNameToCurrentPath.lookup i = some e.currentPath ∧ e.baselinePath = info.path ∧
      e.left = info.left ∧ e.right = fs.content e.currentPath := by
  cases hinfo : t.baselineFileInfo.lookup i with
  | none =>
    have hpath : t.getPathForInternal i = none := by
      unfold TurnDiffTracker.getPathForInternal
      cases hcurrent : t.tempNameToCurrentPath.lookup i with
      | none => rw [hinfo]; rfl
      | some p =>
        obtain ⟨info, hknown⟩ := hc.known i p hcurrent
        rw [hinfo] at hknown
        cases hknown
    unfold TurnDiffTracker.getFileDiff at he
    rw [hpath] at he
    cases he
  | some info =>
    obtain ⟨p, hp, _⟩ := hc.moved i info hinfo
    have hdiff : t.getFileDiff blobOid fs i = none ∧ _ ∨ _ := getFileDiff_of_tracked hinfo hp
    rcases hdiff with
      ⟨hnone, _⟩ | ⟨e', he', _, hbaseline, hcurrent, hleft, hright⟩
    · rw [hnone] at he
      cases he
    · obtain rfl : e' = e := Option.some.inj (he'.symm.trans he)
      exact ⟨info, rfl, by rw [hp, hcurrent], hbaseline, hleft, by rw [hright, hcurrent]⟩

variable {s : TurnState}

theorem diffEntries_eq : diffEntries blobOid display s =
    s.tracker.fileEntries blobOid display s.fs := by
  unfold diffEntries TurnDiffTracker.getUnifiedDiff
  dsimp only
  split
  · next hempty => exact (List.isEmpty_iff.mp hempty).symm
  · rfl

theorem mem_diffEntries {e : FileEntry} : e ∈ diffEntries blobOid display s ↔
    ∃ i, i ∈ s.tracker.baselineFileInfo.keys ∧
      s.tracker.getFileDiff blobOid s.fs i = some e := by
  rw [diffEntries_eq]
  unfold TurnDiffTracker.fileEntries
  rw [List.mem_filterMap]
  simp only [List.mem_mergeSort]

/-- A tracked file that differs from its baseline has an entry. -/
theorem exists_entry (hinfo : s.tracker.baselineFileInfo.lookup i = some info)
    (hpath : s.tracker.tempNameToCurrentPath.lookup i = some path)
    (hdiff : info.left ≠ s.fs.content path) :
    ∃ e ∈ diffEntries blobOid display s, e.baselinePath = info.path ∧ e.currentPath = path := by
  have htracked : s.tracker.getFileDiff blobOid s.fs i = none ∧ _ ∨ _ :=
    getFileDiff_of_tracked hinfo hpath
  rcases htracked with ⟨_, hsame⟩ | ⟨e, he, _, hbaseline, hcurrent, _⟩
  · exact absurd hsame hdiff
  · have hkey : i ∈ s.tracker.baselineFileInfo.keys :=
      AList.mem_keys.mp (AList.lookup_isSome.mp (by rw [hinfo]; rfl))
    exact ⟨e, mem_diffEntries.mpr ⟨i, hkey, he⟩, hbaseline, hcurrent⟩

/-- **The invariant gives the diff.** -/
theorem Covered.describes (h : Covered s) : Describes blobOid display s := by
  have hc := h.consistent
  constructor
  · rw [diffEntries_eq]
    unfold TurnDiffTracker.fileEntries
    rw [List.map_filterMap]
    have hkeys : s.tracker.baselineFileInfo.keys.Nodup := s.tracker.baselineFileInfo.keys_nodup
    refine List.Nodup.filterMap ?_ ((List.mergeSort_perm _ _).nodup_iff.mpr hkeys)
    intro i j path hi hj
    obtain ⟨e, he, rfl⟩ := Option.map_eq_some_iff.mp hi
    obtain ⟨e', he', heq⟩ := Option.map_eq_some_iff.mp hj
    obtain ⟨_, _, hcurrent, _⟩ := exists_of_getFileDiff hc he
    obtain ⟨_, _, hcurrent', _⟩ := exists_of_getFileDiff hc he'
    rw [heq] at hcurrent'
    have hik := (hc.external _ _).mpr hcurrent
    have hjk := (hc.external _ _).mpr hcurrent'
    exact Option.some.inj (hik.symm.trans hjk)
  · intro e he
    obtain ⟨i, _, hdiff⟩ := mem_diffEntries.mp he
    obtain ⟨info, hinfo, _, hbaseline, hleft, hright⟩ := exists_of_getFileDiff hc hdiff
    exact ⟨by rw [hleft, hc.left i info hinfo, hbaseline], hright⟩
  · intro x hx
    rcases h.shown x with hsame | ⟨hstart, i, info, hinfo, rfl⟩ | ⟨i, info, hi, hinfo, hexists⟩
    · exact absurd hsame hx
    · -- a baseline path: the file is elsewhere, changed or not
      obtain ⟨p, hp, hmoved⟩ := hc.moved i info hinfo
      by_cases hdiff : info.left = s.fs.content p
      · have hcontent : s.fs.content p = s.start.content info.path := by
          rw [← hdiff, hc.left i info hinfo]
        rcases hmoved with heq | hmoved
        · exact absurd (heq ▸ hcontent) hx
        · exact .inr ⟨info.path, p, hmoved, hstart, hcontent, .inl rfl⟩
      · obtain ⟨e, he, hbaseline, _⟩ :
            ∃ e ∈ diffEntries blobOid display s, e.baselinePath = info.path ∧ e.currentPath = p :=
          exists_entry hinfo hp hdiff
        exact .inl ⟨e, he, .inl hbaseline.symm⟩
    · have hp := (hc.external x i).mp hi
      by_cases hdiff : info.left = s.fs.content x
      · obtain ⟨p, hp', hmoved⟩ := hc.moved i info hinfo
        obtain rfl : x = p := Option.some.inj (hp.symm.trans hp')
        have hcontent : s.fs.content x = s.start.content info.path := by
          rw [← hdiff, hc.left i info hinfo]
        rcases hmoved with heq | hmoved
        · exact absurd (heq ▸ hcontent) hx
        · have hstart : (s.start.content info.path).isSome := by
            rcases hexists with hstart | hnow
            · exact hstart
            · rwa [hcontent] at hnow
          exact .inr ⟨info.path, x, hmoved, hstart, hcontent, .inr rfl⟩
      · obtain ⟨e, he, _, hcurrent⟩ :
            ∃ e ∈ diffEntries blobOid display s, e.baselinePath = info.path ∧ e.currentPath = x :=
          exists_entry hinfo hp hdiff
        exact .inl ⟨e, he, .inr hcurrent.symm⟩

end Coverage

/-- **When the diff describes the turn.** In every run whose changes are all trackable the diff
    describes the turn after each patch: for every start, every list of patches and every order
    of their changes. -/
theorem describes_run (blobOid : Path → File → Text) (display : Path → Text)
    (hoid : ∀ path file, blobOid path file ≠ zeroOid) (start : FileSystem) (patches : List Patch)
    (hguard : (turnMachine blobOid start).Guarded (PatchTrackable blobOid)
      (turnMachine blobOid start).init patches) (s : TurnState)
    (hrun : (turnMachine blobOid start).run (turnMachine blobOid start).init patches = some s) :
    Describes blobOid display s := by
  have hcovered : Covered s := by
    refine Machine.run_invariant (I := Covered) ?_ (covered_init start) hguard hrun
    intro s patch s' h hok hstep
    obtain rfl := Option.some.inj hstep
    exact h.applyPatch hoid hok
  exact hcovered.describes

/-! ### A move onto a file that was changed before -/

def fooBytes : Bytes := [102, 111, 111, 10]

def barBytes : Bytes := [98, 97, 114, 10]

def bazBytes : Bytes := [98, 97, 122, 10]

/-- The identifiers that git gives to the three contents, and to an empty file. -/
def gitOid (_ : Path) (file : File) : Text :=
  if file.bytes = fooBytes then "257cc5642cb1a054f08cc83f2d943e56fd3ebe99".toList
  else if file.bytes = barBytes then "5716ca5987cbf97d6bb54920bea6adde242d87e6".toList
  else if file.bytes = bazBytes then "76018072e09c5d31c8c6e3113b8aa0fe625195ca".toList
  else "e69de29bb2d1d6434b8b29ae775ad8c2e48c5391".toList

theorem gitOid_ne_zero : ∀ path file, gitOid path file ≠ zeroOid := by
  intro path file
  unfold gitOid
  split_ifs <;> decide

/-- Two files, `a` and `b`, with the same content. -/
def twoFiles : FileSystem := fun path =>
  if path = "a".toList ∨ path = "b".toList then some ⟨.regular, fooBytes⟩ else none

/-- A patch with one change. -/
def singlePatch (path : String) (change : FileChange) : Patch where
  changes := [(path.toList, change)]
  applied := [(path.toList, change)]
  distinct := List.nodup_singleton _
  perm := List.Perm.refl _

def moveToB : Patch := singlePatch "a" (.update [] barBytes (some "b".toList))

theorem describes_run_move :
    Describes gitOid id ((turnMachine gitOid twoFiles).init.applyPatch gitOid moveToB) := by
  refine describes_run gitOid id gitOid_ne_zero twoFiles [moveToB] ⟨⟨?_, trivial⟩, ?_⟩ _ rfl
  · refine ⟨fun _ => rfl, fun _ _ _ => rfl, ?_, ?_⟩
    · intro dest _ _ _
      exact .inr ⟨by decide, 0, snapshot gitOid twoFiles "a".toList, rfl, rfl⟩
    · intro i info hi hinfo hstart
      obtain rfl : 0 = i := Option.some.inj hi
      obtain rfl : snapshot gitOid twoFiles "a".toList = info := Option.some.inj hinfo
      exact absurd hstart (by decide)
  · intro s' _
    trivial

/-- `b` is changed and `a` is moved onto it: both files have `b` as their current path. -/
theorem moved_onto_tracked : ¬ ∀ (blobOid : Path → File → Text) (display : Path → Text),
    (∀ path file, blobOid path file ≠ zeroOid) → ∀ (start : FileSystem) (patches : List Patch)
      (s : TurnState),
      (turnMachine blobOid start).run (turnMachine blobOid start).init patches = some s →
        Describes blobOid display s := by
  intro h
  let changeB := singlePatch "b" (.update [] barBytes none)
  let moveA := singlePatch "a" (.update [] bazBytes (some "b".toList))
  let s := ((turnMachine gitOid twoFiles).init.applyPatch gitOid changeB).applyPatch gitOid moveA
  have hunique := (h gitOid id gitOid_ne_zero twoFiles [changeB, moveA] s rfl).unique
  obtain ⟨e, he, hbaseline, hcurrent⟩ := @exists_entry gitOid id "b".toList 0
    (snapshot gitOid twoFiles "b".toList) s rfl rfl (by decide +kernel)
  obtain ⟨e', he', hbaseline', hcurrent'⟩ := @exists_entry gitOid id "b".toList 1
    (snapshot gitOid twoFiles "a".toList) s rfl rfl (by decide +kernel)
  -- the two entries have the same current path, hence are one, but their baselines differ
  have heq : e = e' := List.inj_on_of_nodup_map hunique he he' (hcurrent.trans hcurrent'.symm)
  rw [heq, hbaseline'] at hbaseline
  exact absurd hbaseline (by decide)

end CodexMonitor.TurnDiff
