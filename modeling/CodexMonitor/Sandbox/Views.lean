import CodexMonitor.Sandbox.Roots

namespace CodexMonitor.Sandbox

open PrefixRules UnixPath

/-!
# Sandbox — the root view and the point view

The tools of the agent ask the point view whether they may write to a path, and the platform
sandboxes are given the root view.

* `FileSystemSandboxPolicy.RootViewWritable` — the root view lets the path be written.
* `resolve_of_shareTarget` — entries for the same target stand for the same path, where `/tmp` is
  a directory.
* `SlashTmpSettled`, `canWriteAt_of_fullDisk` — when full disk write access is what it says.
* `canWriteAt_of_root`, `exists_root_of_canWriteAt` — the returned roots against the point view.
-/

/-! ### Entries for the same target -/

section Target

variable {host : Host} {cwd q : AbsPath} {left right : FileSystemPath}

theorem resolve_of_specialPathsShareTarget {v v' : FileSystemSpecialPath}
    (h : specialPathsShareTarget v v' = true) :
    resolveEntryPath host (.special v) cwd = resolveEntryPath host (.special v') cwd := by
  have hsub : ∀ {a b : Option Text}, specialPathsShareTarget.sameSubpath a b = true →
      resolveEntryPath host (.special (.projectRoots a)) cwd =
        resolveEntryPath host (.special (.projectRoots b)) cwd := by
    intro a b hab
    cases a <;> cases b <;> simp only [specialPathsShareTarget.sameSubpath] at hab
    · rfl
    · exact absurd hab (by decide)
    · exact absurd hab (by decide)
    · simp only [resolveEntryPath, resolveFileSystemPath, resolveFileSystemSpecialPath,
        resolve_congr hab]
  cases v <;> cases v' <;> first | rfl | exact hsub h | simp [specialPathsShareTarget] at h

/-- The special paths with one meaning everywhere are the root and `/tmp`. -/
theorem specialPathMatchesAbsolutePath_iff {v : FileSystemSpecialPath} {path : AbsPath} :
    specialPathMatchesAbsolutePath v path = true ↔
      (v = .root ∧ path = []) ∨ (v = .slashTmp ∧ path = slashTmp) := by
  cases v <;> simp [specialPathMatchesAbsolutePath, UnixPath.parent]

/-- **Entries for the same target stand for the same path**, except that `:slash_tmp` stands for
    none where `/tmp` is not a directory. -/
theorem resolve_of_shareTarget (h : fileSystemPathsShareTarget left right = true)
    (hright : resolveEntryPath host right cwd = some q) :
    resolveEntryPath host left cwd = some q ∨
      (host.isDir slashTmp = false ∧ left = .special .slashTmp ∧ right = .path slashTmp) := by
  cases left with
  | globPattern p =>
    cases right with
    | globPattern p' => simp [resolveEntryPath, resolveFileSystemPath] at hright
    | path r => simp [fileSystemPathsShareTarget] at h
    | special v => simp [fileSystemPathsShareTarget] at h
  | path l =>
    left
    cases right with
    | path r =>
      obtain rfl : l = r := by simpa [fileSystemPathsShareTarget] using h
      exact hright
    | globPattern p => simp [fileSystemPathsShareTarget] at h
    | special v =>
      rcases specialPathMatchesAbsolutePath_iff.mp h with ⟨rfl, rfl⟩ | ⟨rfl, rfl⟩
      · exact hright
      · simp only [resolveEntryPath, resolveFileSystemPath, resolveFileSystemSpecialPath,
          Option.ite_none_right_eq_some] at hright
        exact hright.2
  | special v =>
    cases right with
    | path r =>
      rcases specialPathMatchesAbsolutePath_iff.mp h with ⟨rfl, rfl⟩ | ⟨rfl, rfl⟩
      · exact .inl hright
      · by_cases hdir : host.isDir slashTmp = true
        · left
          simpa [resolveEntryPath, resolveFileSystemPath, resolveFileSystemSpecialPath, hdir]
            using hright
        · exact .inr ⟨by simpa using hdir, rfl, rfl⟩
    | globPattern p => simp [fileSystemPathsShareTarget] at h
    | special v' => exact .inl (resolve_of_specialPathsShareTarget h ▸ hright)

end Target

/-! ### Full disk access -/

namespace FileSystemSandboxPolicy

variable {policy : FileSystemSandboxPolicy} {host : Host} {cwd path q : AbsPath}
  {e : FileSystemSandboxEntry}

theorem hasRootAccess_iff (hkind : policy.kind = .restricted)
    {predicate : FileSystemAccessMode → Bool} :
    policy.hasRootAccess predicate = true ↔
      ∃ e ∈ policy.entries, e.path = .special .root ∧ predicate e.access = true := by
  simp [hasRootAccess, hkind]

/-- An entry of the root applies everywhere. -/
theorem root_rule_mem (he : e ∈ policy.entries) (hroot : e.path = .special .root) :
    (⟨[], e.access⟩ : ResolvedFileSystemEntry) ∈ policy.resolvedEntriesWithCwd host cwd := by
  refine mem_resolvedEntriesWithCwd.mpr ⟨e, he, ?_, rfl⟩
  rw [hroot]
  rfl

/-- **Full disk read access is what it says**: no entry takes anything away. -/
theorem canReadAt_of_fullDisk (hfull : policy.hasFullDiskReadAccess = true) (path : AbsPath) :
    policy.canReadAt host cwd path = true := by
  by_cases hkind : policy.kind = .restricted
  · rw [canReadAt_iff hkind]
    simp only [hasFullDiskReadAccess, hkind, Bool.and_eq_true, Bool.not_eq_true'] at hfull
    obtain ⟨hroot, hdenied⟩ := hfull
    obtain ⟨e, he, hpath, -⟩ := (hasRootAccess_iff hkind).mp hroot
    obtain ⟨w, hw⟩ := exists_decides (root_rule_mem he hpath) (@List.nil_prefix _ path)
    refine ⟨w, hw, ?_⟩
    obtain ⟨e', he', -, haccess⟩ := mem_resolvedEntriesWithCwd.mp hw.mem
    simp only [hasDeniedReadRestrictions, hkind, beq_self_eq_true, Bool.true_and,
      List.any_eq_false, beq_iff_eq] at hdenied
    rw [FileSystemAccessMode.canRead, bne_iff_ne, ← haccess]
    exact hdenied e' he'
  · exact canReadAt_of_unrestricted hkind

/-- An entry that does not narrow the root's grant of writing, and stands for a path, is a grant
    itself, a readable root, or is overridden by a grant for the same target. -/
theorem of_not_narrowsWrite (h : policy.narrowsWrite e = false)
    (hpath : resolveEntryPath host e.path cwd = some q) :
    e.access.canWrite = true ∨ (e.path = .special .root ∧ e.access ≠ .none) ∨
      ∃ candidate ∈ policy.entries, candidate.access = .write ∧ e.access < candidate.access ∧
        fileSystemPathsShareTarget candidate.path e.path = true := by
  have hover : policy.hasSameTargetWriteOverride e = true →
      ∃ candidate ∈ policy.entries, candidate.access = .write ∧ e.access < candidate.access ∧
        fileSystemPathsShareTarget candidate.path e.path = true := by
    intro hany
    obtain ⟨candidate, hmem, hcandidate⟩ := List.any_eq_true.mp hany
    simp only [Bool.and_eq_true, decide_eq_true_eq, FileSystemAccessMode.canWrite,
      beq_iff_eq] at hcandidate
    exact ⟨candidate, hmem, hcandidate.1.1, hcandidate.1.2, hcandidate.2⟩
  unfold narrowsWrite at h
  by_cases hwrite : e.access.canWrite = true
  · exact .inl hwrite
  rw [if_neg hwrite] at h
  split at h
  · exact .inr (.inr (hover (by simpa using h)))
  · exact absurd h (by decide)
  · next hroot => exact .inr (.inl ⟨hroot, by simpa using h⟩)
  · next hminimal => simp [hminimal, resolveEntryPath, resolveFileSystemPath,
      resolveFileSystemSpecialPath] at hpath
  · next hunknown => simp [hunknown, resolveEntryPath, resolveFileSystemPath,
      resolveFileSystemSpecialPath] at hpath
  · exact .inr (.inr (hover (by simpa using h)))

/-- The shortcut for full disk write access takes `:slash_tmp` for `/tmp`.  It is right where
    `/tmp` is a directory, where no entry makes `/tmp` readable only, and where an entry that
    stands for `/tmp` grants writing. -/
def SlashTmpSettled (policy : FileSystemSandboxPolicy) (host : Host) (cwd : AbsPath) : Prop :=
  host.isDir slashTmp = true ∨ (⟨.path slashTmp, .read⟩ : FileSystemSandboxEntry) ∉ policy.entries ∨
    (⟨slashTmp, .write⟩ : ResolvedFileSystemEntry) ∈ policy.resolvedEntriesWithCwd host cwd

/-- **Full disk write access is what it says** where `/tmp` is settled. -/
theorem canWriteAt_of_fullDisk (hkind : policy.kind = .restricted)
    (hfull : policy.hasFullDiskWriteAccess = true) (htmp : policy.SlashTmpSettled host cwd)
    (path : AbsPath) : policy.canWriteAt host cwd path = true := by
  rw [canWriteAt_iff hkind]
  simp only [hasFullDiskWriteAccess, hkind, Bool.and_eq_true, Bool.not_eq_true',
    hasWriteNarrowingEntries, beq_self_eq_true, Bool.true_and, List.any_eq_false,
    Bool.not_eq_true] at hfull
  obtain ⟨hroot, hnarrow⟩ := hfull
  obtain ⟨r, hr, hrpath, hrwrite⟩ := (hasRootAccess_iff hkind).mp hroot
  have hrwrite : r.access = .write := by simpa [FileSystemAccessMode.canWrite] using hrwrite
  have hrule := @root_rule_mem policy host cwd r hr hrpath
  rw [hrwrite] at hrule
  obtain ⟨w, hw⟩ := exists_decides hrule (@List.nil_prefix _ path)
  refine ⟨w, hw, ?_⟩
  -- a grant for the path of the deciding entry does not precede it
  have hgrant : (⟨w.path, .write⟩ : ResolvedFileSystemEntry) ∈
      policy.resolvedEntriesWithCwd host cwd → w.value ≠ .none → w.value.canWrite = true := by
    intro hmem hnone
    have hle : FileSystemAccessMode.write ≤ w.value := hw.value_le hmem rfl
    cases hvalue : w.value with
    | read => exact absurd (hvalue ▸ hle) (by decide)
    | write => rfl
    | none => exact absurd hvalue hnone
  obtain ⟨e, he, hepath, heaccess⟩ := mem_resolvedEntriesWithCwd.mp hw.mem
  rcases of_not_narrowsWrite (hnarrow e he) hepath with hwrite | ⟨heroot, hnone⟩ |
    ⟨candidate, hcandidate, hcwrite, hlt, hshare⟩
  · rwa [heaccess] at hwrite
  · rw [heroot] at hepath
    obtain hwpath : [] = w.path := Option.some.inj hepath
    exact hgrant (hwpath ▸ hrule) (heaccess ▸ hnone)
  · have hnone : w.value ≠ .none := by
      rw [← heaccess]
      intro hnone
      rw [hnone, hcwrite] at hlt
      exact absurd hlt (by decide)
    refine hgrant ?_ hnone
    rcases resolve_of_shareTarget hshare hepath with hcpath | ⟨hdir, -, hetmp⟩
    · exact mem_resolvedEntriesWithCwd.mpr ⟨candidate, hcandidate, hcpath, hcwrite⟩
    · have hwpath : slashTmp = w.path := by
        rw [hetmp] at hepath
        exact Option.some.inj hepath
      have heread : e.access = .read := by
        rw [hcwrite] at hlt
        cases haccess : e.access with
        | read => rfl
        | write => exact absurd (haccess ▸ hlt) (by decide)
        | none => exact absurd (haccess ▸ hlt) (by decide)
      have heeq : e = ⟨.path slashTmp, .read⟩ := by
        rw [← hetmp, ← heread]
      rcases htmp with hisdir | hfree | hmem
      · exact absurd hisdir (by simp [hdir])
      · exact absurd (heeq ▸ he) hfree
      · exact hwpath ▸ hmem

/-! ### The returned roots -/

/-- **The root view** lets the path be written: full disk write access, or a returned root
    without its read only subpaths. -/
def RootViewWritable (policy : FileSystemSandboxPolicy) (host : Host) (cwd path : AbsPath) : Prop :=
  policy.hasFullDiskWriteAccess = true ∨
    ∃ writable ∈ policy.getWritableRootsWithCwd host cwd, writable.isPathWritable path = true

/-- What the entries carve out of a root are carve-outs of the prefix rules. -/
theorem carves_iff (hkind : policy.kind = .restricted) {root : AbsPath}
    {entry : ResolvedFileSystemEntry} :
    Carves (fun access => access.canWrite) (policy.resolvedEntriesWithCwd host cwd) root entry ↔
      entry ∈ policy.resolvedEntriesWithCwd host cwd ∧ entry.value.canWrite = false ∧
        policy.canWriteAt host cwd entry.path = false ∧ root <+: entry.path ∧
        entry.path ≠ root := by
  unfold Carves
  rw [← canWriteAt_iff hkind, Bool.not_eq_true, Bool.not_eq_true]

/-- What a returned root lets be written the point view does. -/
theorem canWriteAt_of_root (hkind : policy.kind = .restricted) (hfree : host.SymlinkFree)
    {writable : WritableRoot} (hmem : writable ∈ policy.getWritableRootsWithCwd host cwd)
    (h : writable.isPathWritable path = true) : policy.canWriteAt host cwd path = true := by
  obtain ⟨-, ⟨entry, hentry, hwrite, hcan, hroot⟩, hsub⟩ :=
    (mem_getWritableRootsWithCwd hfree).mp hmem
  obtain ⟨habove, hout⟩ := WritableRoot.isPathWritable_iff.mp h
  rw [canWriteAt_iff hkind, granted_iff_region]
  refine ⟨entry, hentry, hwrite, (canWriteAt_iff hkind).mp hcan, hroot ▸ habove, ?_⟩
  intro e he happ
  obtain ⟨hemem, hewrite, hecan, hbelow, hne⟩ := (carves_iff hkind).mp he
  refine hout e.path ?_ happ
  show e.path ∈ writable.readOnlySubpaths
  rw [hsub, mem_readOnlySubpaths hfree]
  exact .inr ⟨e, hemem, hewrite, hecan, hroot ▸ hbelow, hroot ▸ hne, rfl⟩

/-- Where the point view allows writing and the access is not to the whole disk, a returned root
    contains the path and no entry is carved out of the root above it. -/
theorem exists_root_of_canWriteAt (hkind : policy.kind = .restricted) (hfree : host.SymlinkFree)
    (hfull : policy.hasFullDiskWriteAccess = false)
    (h : policy.canWriteAt host cwd path = true) :
    ∃ writable ∈ policy.getWritableRootsWithCwd host cwd, writable.root <+: path ∧
      ∀ subpath ∈ writable.readOnlySubpaths, subpath <+: path →
        subpath ∈ defaultSubpaths host cwd writable.root := by
  rw [canWriteAt_iff hkind, granted_iff_region] at h
  obtain ⟨entry, hentry, hwrite, hcan, habove, hcarved⟩ := h
  refine ⟨⟨entry.path, policy.readOnlySubpaths host cwd entry.path⟩,
    (mem_getWritableRootsWithCwd hfree).mpr
      ⟨hfull, ⟨entry, hentry, hwrite, (canWriteAt_iff hkind).mpr hcan, rfl⟩, rfl⟩, habove, ?_⟩
  intro subpath hsub happ
  rcases (mem_readOnlySubpaths hfree).mp hsub with ⟨hdefault, -⟩ |
    ⟨e, hemem, hewrite, hecan, hbelow, hne, rfl⟩
  · exact hdefault
  · exact absurd happ (hcarved e ((carves_iff hkind).mpr ⟨hemem, hewrite, hecan, hbelow, hne⟩))

/-! ### The two views -/

/-- What the root view lets be written the point view does, where `/tmp` is settled. -/
theorem canWriteAt_of_rootView (hkind : policy.kind = .restricted) (hfree : host.SymlinkFree)
    (htmp : policy.hasFullDiskWriteAccess = true → policy.SlashTmpSettled host cwd)
    (h : policy.RootViewWritable host cwd path) : policy.canWriteAt host cwd path = true := by
  rcases h with hfull | ⟨writable, hmem, hwritable⟩
  · exact canWriteAt_of_fullDisk hkind hfull (htmp hfull) path
  · exact canWriteAt_of_root hkind hfree hmem hwritable

/-- What the point view lets be written the root view does, unless a returned root protects it by
    default. -/
theorem rootView_of_canWriteAt (hkind : policy.kind = .restricted) (hfree : host.SymlinkFree)
    (hdefault : ∀ writable ∈ policy.getWritableRootsWithCwd host cwd,
      ∀ subpath ∈ defaultSubpaths host cwd writable.root, ¬ subpath <+: path)
    (h : policy.canWriteAt host cwd path = true) : policy.RootViewWritable host cwd path := by
  by_cases hfull : policy.hasFullDiskWriteAccess = true
  · exact .inl hfull
  · obtain ⟨writable, hmem, habove, hsub⟩ :=
      exists_root_of_canWriteAt hkind hfree (by simpa using hfull) h
    refine .inr ⟨writable, hmem, WritableRoot.isPathWritable_iff.mpr ⟨habove, ?_⟩⟩
    intro subpath hsubpath happ
    exact hdefault writable hmem subpath (hsub subpath hsubpath happ) happ

/-- **The two views agree**, for every policy, machine, working directory and path: what the root
    view lets be written the point view does, what the point view does and no root protects by
    default the root view does, and full disk read access reads every path. -/
theorem views_agree (policy : FileSystemSandboxPolicy) (host : Host) (cwd : AbsPath)
    (hkind : policy.kind = .restricted) (hfree : host.SymlinkFree)
    (htmp : host.isDir slashTmp = true) (path : Text) :
    (policy.RootViewWritable host cwd (resolveCandidatePath host path cwd) →
        policy.canWritePathWithCwd host cwd path = true) ∧
      (policy.canWritePathWithCwd host cwd path = true →
        (∀ writable ∈ policy.getWritableRootsWithCwd host cwd,
          ∀ subpath ∈ defaultSubpaths host cwd writable.root,
            ¬ subpath <+: resolveCandidatePath host path cwd) →
        policy.RootViewWritable host cwd (resolveCandidatePath host path cwd)) ∧
      (policy.hasFullDiskReadAccess = true → policy.canReadPathWithCwd host cwd path = true) := by
  refine ⟨?_, ?_, ?_⟩
  · exact canWriteAt_of_rootView hkind hfree fun _ => .inl htmp
  · intro hwrite hdefault
    exact rootView_of_canWriteAt hkind hfree hdefault hwrite
  · intro hread
    exact canReadAt_of_fullDisk hread _

/-- A workspace in `/w` with a `.git` directory, whose `private` may not be read. -/
def workspacePolicy : FileSystemSandboxPolicy :=
  restricted [⟨.special .root, .read⟩, ⟨.special (.projectRoots none), .write⟩,
    ⟨.special (.projectRoots (some "private".toList)), .none⟩]

def workspaceHost : Host := Host.plain [slashTmp, absPath "/w", absPath "/w/.git"] []

theorem views_agree_workspace :
    workspacePolicy.RootViewWritable workspaceHost (absPath "/w") (absPath "/w/src") ∧
      ¬ workspacePolicy.RootViewWritable workspaceHost (absPath "/w") (absPath "/w/private/key") := by
  have hagree := views_agree workspacePolicy workspaceHost (absPath "/w") rfl
    (Host.plain_symlinkFree _ _) (by decide)
  constructor
  · exact (hagree "/w/src".toList).2.1 (by decide +kernel) (by decide +kernel)
  · intro h
    exact absurd ((hagree "/w/private/key".toList).1 h) (by decide +kernel)

end FileSystemSandboxPolicy

end CodexMonitor.Sandbox
