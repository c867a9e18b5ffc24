import CodexMonitor.ApplyPatch.Invocation

namespace CodexMonitor.ApplyPatch

/-!
# Apply patch — the preview and the patched files

The preview computes every hunk against the files as they are and keeps one change a path;
applying runs the hunks in order, each on what the ones before it left.  `Describes` says
that a set of changes is what happened to the files, and `Compatible` is a condition on the
hunks under which the preview describes what applying them does:

* `applyHunksFrom_frame` — a file no hunk touches stays as it is.
* `changes_get?_iff` — the change of a path is that of the last hunk about it.
* `preview_describes` — under `Compatible` the preview is right.
-/

/-! ### What a preview promises -/

/-- The changes, as a statement about the files before and after. -/
structure Describes (changes : Changes) (before after : Files) : Prop where
  add : ∀ path content, changes.get? path = some (.add content) → after path = some content
  delete : ∀ path content, changes.get? path = some (.delete content) → after path = none
  update : ∀ path diff newContent,
    changes.get? path = some (.update diff none newContent) → after path = some newContent
  move : ∀ path diff dest newContent,
    changes.get? path = some (.update diff (some dest) newContent) →
      after dest = some newContent ∧ after path = none
  other : ∀ path, changes.get? path = none →
    (∀ source diff newContent,
      changes.get? source ≠ some (.update diff (some path) newContent)) →
    after path = before path

section Compatible

variable (home : Option AbsPath) (cwd : AbsPath)

/-- Where a hunk moves its file, if it does. -/
def Hunk.destination (hunk : Hunk) : Option AbsPath :=
  match hunk with
  | .updateFile _ (some dest) _ => some (UnixPath.resolve home dest cwd)
  | _ => none

def Hunk.isUpdate : Hunk → Bool
  | .updateFile _ _ _ => true
  | _ => false

/-- A hunk touches the file it is about and the one it moves it to. -/
def Hunk.Touches (hunk : Hunk) (path : AbsPath) : Prop :=
  hunk.resolvePath home cwd = path ∨ hunk.destination home cwd = some path

/-- `hunk` is the last one about its file: the preview keeps its change. -/
def Kept (hunk : Hunk) (post : List Hunk) : Prop :=
  ∀ later ∈ post, later.resolvePath home cwd ≠ hunk.resolvePath home cwd

/-- Hunks that do not get in each other's way. -/
structure Compatible (hunks : List Hunk) : Prop where
  /-- Nothing is moved onto the file of a kept hunk, by itself or by a later hunk. -/
  stays : ∀ pre hunk post, hunks = pre ++ hunk :: post → Kept home cwd hunk post →
    ∀ mover ∈ hunk :: post, mover.destination home cwd ≠ some (hunk.resolvePath home cwd)
  /-- A kept update reads a file that no earlier hunk touched. -/
  reads : ∀ pre hunk post, hunks = pre ++ hunk :: post → Kept home cwd hunk post →
    hunk.isUpdate = true → ∀ earlier ∈ pre, ¬ earlier.Touches home cwd (hunk.resolvePath home cwd)
  /-- The destination of a kept move is not touched later. -/
  lands : ∀ pre hunk post dest, hunks = pre ++ hunk :: post → Kept home cwd hunk post →
    hunk.destination home cwd = some dest → ∀ later ∈ post, ¬ later.Touches home cwd dest
  /-- The destination of a move that the preview drops is accounted for by a kept change. -/
  covered : ∀ pre hunk post dest, hunks = pre ++ hunk :: post → ¬ Kept home cwd hunk post →
    hunk.destination home cwd = some dest →
    (∃ about ∈ hunks, about.resolvePath home cwd = dest) ∨
      ∃ pre' mover post', hunks = pre' ++ mover :: post' ∧ Kept home cwd mover post' ∧
        mover.destination home cwd = some dest

end Compatible

variable {ext : Externals} {home : Option AbsPath} {cwd : AbsPath} {files files' : Files}
  {affected affected' : AffectedPaths} {hunk : Hunk} {hunks : List Hunk}

/-! ### Applying -/

/-- **What one hunk does.** If it goes through, it adds, removes, rewrites or moves its file. -/
theorem applyHunk_cases (h : applyHunk home cwd files hunk = (files', .ok ())) :
    (∃ path contents, hunk = .addFile path contents ∧
      files' = files.writeFile (hunk.resolvePath home cwd) contents) ∨
    (∃ path, hunk = .deleteFile path ∧
      files' = Function.update files (hunk.resolvePath home cwd) none) ∨
    ∃ path movePath chunks applied, hunk = .updateFile path movePath chunks ∧
      deriveNewContentsFromChunks (hunk.resolvePath home cwd) chunks files = .ok applied ∧
      files' = match hunk.destination home cwd with
        -- without a destination the new contents go to the file itself
        | none => files.writeFile (hunk.resolvePath home cwd) applied.newContents
        | some dest => Function.update (files.writeFile dest applied.newContents)
            (hunk.resolvePath home cwd) none := by
  cases hunk with
  | addFile path contents =>
    simp only [applyHunk, Prod.mk.injEq, and_true] at h
    exact .inl ⟨path, contents, rfl, h.symm⟩
  | deleteFile path =>
    simp only [applyHunk] at h
    split at h
    · cases h
    · rename_i removed hremoved
      simp only [Prod.mk.injEq, and_true] at h
      rw [← h, Files.removeFile_ok hremoved]
      exact .inr (.inl ⟨path, rfl, rfl⟩)
  | updateFile path movePath chunks =>
    simp only [applyHunk] at h
    split at h
    · cases h
    · rename_i applied happlied
      refine .inr (.inr ⟨path, movePath, chunks, applied, rfl, happlied, ?_⟩)
      cases movePath with
      | none =>
        simp only [Prod.mk.injEq, and_true] at h
        exact h.symm
      -- a move writes the destination first and then removes the source
      | some dest =>
        simp only at h
        split at h
        · cases h
        · rename_i removed hremoved
          simp only [Prod.mk.injEq, and_true] at h
          rw [← h, Files.removeFile_ok hremoved]
          rfl

/-- A hunk leaves the files it does not touch alone. -/
theorem applyHunk_frame (h : applyHunk home cwd files hunk = (files', .ok ())) {path : AbsPath}
    (hpath : ¬ hunk.Touches home cwd path) : files' path = files path := by
  have hsource : path ≠ hunk.resolvePath home cwd := fun he => hpath (.inl he.symm)
  rcases applyHunk_cases h with ⟨_, contents, -, rfl⟩ | ⟨_, -, rfl⟩ | ⟨_, _, _, applied, -, -, rfl⟩
  · exact Function.update_of_ne hsource _ _
  · exact Function.update_of_ne hsource _ _
  · cases hdest : hunk.destination home cwd with
    | none => exact Function.update_of_ne hsource _ _
    | some dest =>
      have hne : path ≠ dest := fun he => hpath (.inr (he ▸ hdest))
      simp only [Function.update_of_ne hsource, Files.writeFile, Function.update_of_ne hne]

/-- **Frame.** A file that no hunk touches stays as it is. -/
theorem applyHunksFrom_frame
    (h : applyHunksFrom home cwd files affected hunks = (files', .ok affected')) {path : AbsPath}
    (hpath : ∀ hunk ∈ hunks, ¬ hunk.Touches home cwd path) : files' path = files path := by
  induction hunks generalizing files affected with
  | nil =>
    cases h
    rfl
  | cons hunk hunks ih =>
    unfold applyHunksFrom at h
    split at h
    · cases h
    · rename_i mid hmid
      rw [ih h fun later hlater => hpath later (List.mem_cons_of_mem _ hlater)]
      exact applyHunk_frame hmid (hpath hunk List.mem_cons_self)

/-- A successful run goes through each of its hunks. -/
theorem applyHunksFrom_append {pre post : List Hunk}
    (h : applyHunksFrom home cwd files affected (pre ++ hunk :: post) = (files', .ok affected')) :
    ∃ mid mid' between between',
      applyHunksFrom home cwd files affected pre = (mid, .ok between) ∧
      applyHunk home cwd mid hunk = (mid', .ok ()) ∧
      applyHunksFrom home cwd mid' between' post = (files', .ok affected') := by
  induction pre generalizing files affected with
  | nil =>
    rw [List.nil_append, applyHunksFrom] at h
    split at h
    · cases h
    · rename_i mid hmid
      exact ⟨files, mid, affected, _, rfl, hmid, h⟩
  -- the hunk lies behind the first one: apply that, and look in the rest
  | cons first pre ih =>
    rw [List.cons_append, applyHunksFrom] at h
    split at h
    · cases h
    · rename_i next hnext
      obtain ⟨mid, mid', between, between', hpre, hhunk, hpost⟩ := ih h
      refine ⟨mid, mid', between, between', ?_, hhunk, hpost⟩
      rw [applyHunksFrom, hnext]
      exact hpre

/-! ### Previewing -/

theorem Changes.get?_cons (path : AbsPath) (change : ApplyPatchFileChange) (changes : Changes)
    (key : AbsPath) :
    Changes.get? ((path, change) :: changes) key =
      (Changes.get? changes key).or (if path = key then some change else none) := by
  simp only [Changes.get?, List.reverse_cons, List.find?_append]
  cases changes.reverse.find? fun entry => entry.1 == key with
  | some entry => rfl
  | none => by_cases h : path = key <;> simp [h]

theorem hunkChanges_cons {changes : Changes}
    (h : hunkChanges ext home cwd files (hunk :: hunks) = .ok changes) :
    ∃ change rest, hunkChange ext home cwd files hunk = .ok change ∧
      hunkChanges ext home cwd files hunks = .ok rest ∧
      changes = (hunk.resolvePath home cwd, change) :: rest := by
  unfold hunkChanges at h
  split at h
  · cases h
  · rename_i change hchange
    split at h
    · cases h
    · rename_i rest hrest
      cases h
      exact ⟨change, rest, hchange, hrest, rfl⟩

theorem hunkChange_ok_of_mem {changes : Changes}
    (h : hunkChanges ext home cwd files hunks = .ok changes) (hmem : hunk ∈ hunks) :
    ∃ change, hunkChange ext home cwd files hunk = .ok change := by
  induction hunks generalizing changes with
  | nil => exact absurd hmem List.not_mem_nil
  | cons first hunks ih =>
    obtain ⟨change, rest, hfirst, hrest, -⟩ := hunkChanges_cons h
    rcases List.mem_cons.mp hmem with rfl | hmem
    · exact ⟨change, hfirst⟩
    · exact ih hrest hmem

/-- The change of a hunk that moves its file names the destination. -/
theorem hunkChange_of_destination {dest : AbsPath} {change : ApplyPatchFileChange}
    (hdest : hunk.destination home cwd = some dest)
    (h : hunkChange ext home cwd files hunk = .ok change) :
    ∃ diff newContent, change = .update diff (some dest) newContent := by
  unfold Hunk.destination at hdest
  split at hdest
  · cases hdest
    simp only [hunkChange] at h
    split at h
    · cases h
    · cases h
      exact ⟨_, _, rfl⟩
  · cases hdest

/-- A path has no change exactly when no hunk is about it. -/
theorem changes_get?_eq_none {changes : Changes}
    (h : hunkChanges ext home cwd files hunks = .ok changes) (path : AbsPath) :
    changes.get? path = none ↔ ∀ hunk ∈ hunks, hunk.resolvePath home cwd ≠ path := by
  induction hunks generalizing changes with
  | nil =>
    cases h
    simp [Changes.get?]
  | cons hunk hunks ih =>
    obtain ⟨change, rest, -, hrest, rfl⟩ := hunkChanges_cons h
    rw [Changes.get?_cons, Option.or_eq_none_iff, ih hrest, List.forall_mem_cons, and_comm]
    simp

/-- **The preview.** The change of a path is that of the last hunk about it. -/
theorem changes_get?_iff {changes : Changes}
    (h : hunkChanges ext home cwd files hunks = .ok changes) (path : AbsPath)
    (change : ApplyPatchFileChange) :
    changes.get? path = some change ↔
      ∃ pre hunk post, hunks = pre ++ hunk :: post ∧ hunk.resolvePath home cwd = path ∧
        Kept home cwd hunk post ∧ hunkChange ext home cwd files hunk = .ok change := by
  induction hunks generalizing changes with
  | nil =>
    cases h
    simp [Changes.get?]
  | cons first hunks ih =>
    obtain ⟨firstChange, rest, hfirst, hrest, rfl⟩ := hunkChanges_cons h
    rw [Changes.get?_cons]
    constructor
    · intro hget
      rcases Option.or_eq_some_iff.mp hget with hget | ⟨hnone, hget⟩
      · obtain ⟨pre, hunk, post, rfl, hpath, hkept, hchange⟩ := (ih hrest).mp hget
        exact ⟨first :: pre, hunk, post, rfl, hpath, hkept, hchange⟩
      · -- no later hunk is about the path, so the first one is kept
        split_ifs at hget with hpath
        cases hget
        refine ⟨[], first, hunks, rfl, hpath, ?_, hfirst⟩
        intro later hlater
        rw [hpath]
        exact (changes_get?_eq_none hrest path).mp hnone later hlater
    · rintro ⟨pre, hunk, post, heq, hpath, hkept, hchange⟩
      cases pre with
      | nil =>
        obtain ⟨rfl, rfl⟩ := List.cons.inj heq
        obtain rfl : firstChange = change := Except.ok.inj (hfirst.symm.trans hchange)
        have hnone : Changes.get? rest path = none :=
          (changes_get?_eq_none hrest path).mpr fun later hlater => hpath ▸ hkept later hlater
        rw [hnone, if_pos hpath, Option.none_or]
      | cons hd pre =>
        obtain ⟨rfl, rfl⟩ := List.cons.inj heq
        rw [(ih hrest).mpr ⟨pre, hunk, post, rfl, hpath, hkept, hchange⟩, Option.some_or]

/-! ### The preview is right -/

section Right

variable {changes : Changes} {pre post : List Hunk}

/-- A file that a kept hunk is about is last written by that hunk. -/
theorem kept_last (hcompat : Compatible home cwd (pre ++ hunk :: post))
    (hkept : Kept home cwd hunk post) :
    ∀ later ∈ post, ¬ later.Touches home cwd (hunk.resolvePath home cwd) := by
  intro later hlater htouch
  rcases htouch with hsource | hdest
  · exact hkept later hlater hsource
  · exact hcompat.stays pre hunk post rfl hkept later (List.mem_cons_of_mem _ hlater) hdest

/-- An update is applied to the very contents the preview computed it from. -/
theorem derive_eq_of_reads (hcompat : Compatible home cwd (pre ++ hunk :: post))
    (hkept : Kept home cwd hunk post) (hupdate : hunk.isUpdate = true) {mid : Files}
    (hpre : applyHunksFrom home cwd files affected pre = (mid, .ok affected'))
    (chunks : List UpdateFileChunk) :
    deriveNewContentsFromChunks (hunk.resolvePath home cwd) chunks mid =
      deriveNewContentsFromChunks (hunk.resolvePath home cwd) chunks files :=
  deriveNewContents_congr
    (applyHunksFrom_frame hpre (hcompat.reads pre hunk post rfl hkept hupdate))

/-- What a kept change says of the path it is recorded for. -/
def ChangeHolds (path : AbsPath) (after : Files) : ApplyPatchFileChange → Prop
  | .add content => after path = some content
  | .delete _ => after path = none
  | .update _ none newContent => after path = some newContent
  | .update _ (some dest) newContent => after dest = some newContent ∧ after path = none

/-- A kept hunk does to its files what the preview says of it. -/
theorem kept_changeHolds (hcompat : Compatible home cwd (pre ++ hunk :: post))
    (hkept : Kept home cwd hunk post)
    (happly : applyHunksFrom home cwd files affected (pre ++ hunk :: post)
      = (files', .ok affected'))
    {change : ApplyPatchFileChange} (hchange : hunkChange ext home cwd files hunk = .ok change) :
    ChangeHolds (hunk.resolvePath home cwd) files' change := by
  obtain ⟨mid, mid', between, between', hpre, hhunk, hpost⟩ := applyHunksFrom_append happly
  have hsource : files' (hunk.resolvePath home cwd) = mid' (hunk.resolvePath home cwd) :=
    applyHunksFrom_frame hpost (kept_last hcompat hkept)
  rcases applyHunk_cases hhunk with ⟨path, contents, heq, rfl⟩ | ⟨path, heq, rfl⟩ |
    ⟨path, movePath, chunks, applied, heq, happlied, hmid'⟩
  · subst heq
    cases hchange
    rw [ChangeHolds, hsource]
    exact Function.update_self _ _ _
  · subst heq
    simp only [hunkChange] at hchange
    split at hchange
    · cases hchange
    · cases hchange
      rw [ChangeHolds, hsource]
      exact Function.update_self _ _ _
  · subst heq
    rw [derive_eq_of_reads hcompat hkept rfl hpre] at happlied
    simp only [hunkChange, happlied, Except.ok.injEq] at hchange
    subst hchange
    cases movePath with
    | none =>
      subst hmid'
      rw [Option.map_none, ChangeHolds, hsource]
      exact Function.update_self _ _ _
    | some dest =>
      -- the destination is another file, and nothing touches it later
      have hne : UnixPath.resolve home dest cwd ≠ (Hunk.updateFile path (some dest) chunks).resolvePath
          home cwd := fun he =>
        hcompat.stays pre _ post rfl hkept _ List.mem_cons_self (congrArg some he)
      have hdest : files' (UnixPath.resolve home dest cwd) =
          mid' (UnixPath.resolve home dest cwd) :=
        applyHunksFrom_frame hpost (hcompat.lands pre _ post _ rfl hkept rfl)
      subst hmid'
      refine ⟨?_, ?_⟩
      · rw [hdest]
        simp only [Hunk.destination, Function.update_of_ne hne, Files.writeFile,
          Function.update_self]
      · rw [hsource]
        exact Function.update_self _ _ _

/-- A file with no change in the preview, not even as a destination, is not touched. -/
theorem untouched_of_not_previewed (hcompat : Compatible home cwd hunks)
    (hchanges : hunkChanges ext home cwd files hunks = .ok changes) {path : AbsPath}
    (hnone : changes.get? path = none)
    (hmove : ∀ source diff newContent,
      changes.get? source ≠ some (.update diff (some path) newContent)) :
    ∀ hunk ∈ hunks, ¬ hunk.Touches home cwd path := by
  have habout := (changes_get?_eq_none hchanges path).mp hnone
  -- a kept move onto the path would be in the preview
  have hkeptMove : ∀ pre mover post, hunks = pre ++ mover :: post → Kept home cwd mover post →
      mover.destination home cwd ≠ some path := by
    intro pre mover post heq hkept hdest
    obtain ⟨change, hchange⟩ := hunkChange_ok_of_mem hchanges (by simp [heq] : mover ∈ hunks)
    obtain ⟨diff, newContent, rfl⟩ := hunkChange_of_destination hdest hchange
    exact hmove _ _ _ ((changes_get?_iff hchanges _ _).mpr
      ⟨pre, mover, post, heq, rfl, hkept, hchange⟩)
  intro hunk hmem htouch
  rcases htouch with hsource | hdest
  · exact habout hunk hmem hsource
  · obtain ⟨pre, post, rfl⟩ := List.append_of_mem hmem
    by_cases hkept : Kept home cwd hunk post
    · exact hkeptMove pre hunk post rfl hkept hdest
    · rcases hcompat.covered pre hunk post path rfl hkept hdest with
        ⟨about, hmemAbout, habs⟩ | ⟨pre', mover, post', heq, hkept', hdest'⟩
      · exact habout about hmemAbout habs
      · exact hkeptMove pre' mover post' heq hkept' hdest'

/-- Compatible hunks do what their preview says. -/
theorem describes_of_compatible (hcompat : Compatible home cwd hunks)
    (hchanges : hunkChanges ext home cwd files hunks = .ok changes)
    (happly : applyHunksFrom home cwd files affected hunks = (files', .ok affected')) :
    Describes changes files files' := by
  have hholds : ∀ path change, changes.get? path = some change →
      ChangeHolds path files' change := by
    intro path change hget
    obtain ⟨pre, hunk, post, rfl, rfl, hkept, hchange⟩ := (changes_get?_iff hchanges _ _).mp hget
    exact kept_changeHolds hcompat hkept happly hchange
  exact
    { add := fun path content hget => hholds path _ hget
      delete := fun path content hget => hholds path _ hget
      update := fun path diff newContent hget => hholds path _ hget
      move := fun path diff dest newContent hget => hholds path _ hget
      other := fun path hnone hmove =>
        applyHunksFrom_frame happly (untouched_of_not_previewed hcompat hchanges hnone hmove) }

end Right

/-! ### Approval and execution -/

/-- What a verified invocation rests on: the parsed patch and the changes of its hunks. -/
theorem verified_body {argv : List Text} {action : ApplyPatchAction}
    (h : maybeParseApplyPatchVerified ext home cwd files argv = .body action) :
    ∃ args, maybeParseApplyPatch ext argv = .body args ∧
      hunkChanges ext home action.cwd files args.hunks = .ok action.changes := by
  unfold maybeParseApplyPatchVerified at h
  split at h
  · cases h
  · split at h
    · rename_i args hargs
      simp only at h
      split at h
      · cases h
      · -- only a patch whose hunks all have changes yields a body
        rename_i changes hchanges
        cases h
        exact ⟨args, hargs, hchanges⟩
    · cases h
    · cases h
    · cases h

/-- **Approval and execution.** If the verified invocation's hunks do not get in each
    other's way, applying them in the same state leaves exactly the files that the approved
    changes describe. -/
theorem preview_describes (ext : Externals) (home : Option AbsPath) (cwd : AbsPath)
    (files files' : Files) (argv : List Text) (action : ApplyPatchAction) (args : ApplyPatchArgs)
    (affected : AffectedPaths)
    (hverified : maybeParseApplyPatchVerified ext home cwd files argv = .body action)
    (hargs : maybeParseApplyPatch ext argv = .body args)
    (hcompat : Compatible home action.cwd args.hunks)
    (happly : applyHunksToFiles home action.cwd files args.hunks = (files', .ok affected)) :
    Describes action.changes files files' := by
  obtain ⟨args', hargs', hchanges⟩ := verified_body hverified
  obtain rfl : args = args' := MaybeApplyPatch.body.inj (hargs.symm.trans hargs')
  unfold applyHunksToFiles at happly
  split at happly
  · cases happly
  · exact describes_of_compatible hcompat hchanges happly

/-! ### Two updates of one file -/

/-- A file `/f` with the lines `a` and `b`. -/
def abFiles : Files := Function.update (fun _ => none) ["f".toList] (some "a\nb\n".toList)

/-- The diffs of the two one-line updates of `abFiles`; no shell script is looked at. -/
def abExternals : Externals :=
  { extractApplyPatchFromBash := fun _ => .error .commandDidNotStartWithApplyPatch
    unifiedDiff := fun _ new =>
      if new = "x\nb\n".toList then "@@ -1,2 +1,2 @@\n-a\n+x\n b\n".toList
      else "@@ -1,2 +1,2 @@\n a\n-b\n+y\n".toList }

/-- Replaces the line `a`. -/
def oneUpdate : Text :=
  "*** Begin Patch\n*** Update File: f\n@@\n-a\n+x\n*** End Patch".toList

/-- Replaces the line `a`, then in a hunk of its own the line `b`. -/
def twoUpdates : Text :=
  ("*** Begin Patch\n*** Update File: f\n@@\n-a\n+x\n" ++
    "*** Update File: f\n@@\n-b\n+y\n*** End Patch").toList

def updateHunk (old new : Text) : Hunk :=
  .updateFile "f".toList none [⟨none, [old], [new], false⟩]

/-- **The last update hides the others.** The preview of `twoUpdates` says that `/f` will
    hold `a` and `y`; applying the patch leaves `x` and `y`. -/
theorem not_describes_of_two_updates :
    ∃ action args, maybeParseApplyPatchVerified abExternals none [] abFiles
        ["apply_patch".toList, twoUpdates] = .body action ∧
      maybeParseApplyPatch abExternals ["apply_patch".toList, twoUpdates] = .body args ∧
      (applyHunksToFiles none action.cwd abFiles args.hunks).2.isOk = true ∧
      ¬ Describes action.changes abFiles
        (applyHunksToFiles none action.cwd abFiles args.hunks).1 := by
  refine ⟨⟨[(["f".toList], .update "@@ -1,2 +1,2 @@\n-a\n+x\n b\n".toList none "x\nb\n".toList),
      (["f".toList], .update "@@ -1,2 +1,2 @@\n a\n-b\n+y\n".toList none "a\ny\n".toList)],
      twoUpdates, []⟩,
    ⟨twoUpdates, [updateHunk "a".toList "x".toList, updateHunk "b".toList "y".toList], none⟩,
    by rfl, by rfl, by rfl, ?_⟩
  intro h
  have hpreview := h.update ["f".toList] _ _ rfl
  exact absurd hpreview (by decide)

/-- `preview_describes` at `oneUpdate`. -/
theorem preview_describes_oneUpdate :
    Describes [(["f".toList], .update "@@ -1,2 +1,2 @@\n-a\n+x\n b\n".toList none
        "x\nb\n".toList)] abFiles
      (applyHunksToFiles none [] abFiles [updateHunk "a".toList "x".toList]).1 := by
  refine preview_describes abExternals none [] abFiles _ ["apply_patch".toList, oneUpdate]
    ⟨_, oneUpdate, []⟩ ⟨oneUpdate, [updateHunk "a".toList "x".toList], none⟩
    { modified := ["f".toList] } (by rfl) (by rfl) ?_ (by rfl)
  -- a single update without a move has nothing to get in the way of
  have hsplit : ∀ pre hunk post, [updateHunk "a".toList "x".toList] = pre ++ hunk :: post →
      pre = [] ∧ hunk = updateHunk "a".toList "x".toList ∧ post = [] := by
    intro pre hunk post h
    cases pre with
    | nil => simpa [eq_comm, and_comm] using h
    | cons hd pre => simp at h
  exact
    { stays := fun pre hunk post h _ mover hmover => by
        obtain ⟨rfl, rfl, rfl⟩ := hsplit pre hunk post h
        obtain rfl := List.mem_singleton.mp hmover
        exact fun habs => by cases habs
      reads := fun pre hunk post h _ _ earlier hearlier => by
        obtain ⟨rfl, rfl, rfl⟩ := hsplit pre hunk post h
        exact absurd hearlier List.not_mem_nil
      lands := fun pre hunk post dest h _ hdest => by
        obtain ⟨rfl, rfl, rfl⟩ := hsplit pre hunk post h
        cases hdest
      covered := fun pre hunk post dest h _ hdest => by
        obtain ⟨rfl, rfl, rfl⟩ := hsplit pre hunk post h
        cases hdest }

end CodexMonitor.ApplyPatch
