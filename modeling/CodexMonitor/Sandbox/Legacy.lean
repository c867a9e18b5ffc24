import CodexMonitor.Sandbox.Views

namespace CodexMonitor.Sandbox

open PrefixRules UnixPath

/-!
# Sandbox — falling back to the legacy sandbox

The legacy sandboxes know four policies only.  A policy of entries is enforced by one of them when
the entries that the legacy policy stands for have the same semantic signature; otherwise the
runtime has to enforce the entries directly.

* `toLegacySandboxPolicy` — the scan of the entries for what the legacy policies can say.
* `legacyRuntimeFileSystemPolicyForCwd` — the entries that a legacy policy stands for.
* `semanticSignature`, `needsDirectRuntimeEnforcement` — the guard.
* `FallsBackFaithfully` — nothing else may be read, and nothing more written.
* `fallsBack_iff_settled` — when the guard is right.
-/

/-! ### Legacy policies -/

inductive NetworkAccess
  | restricted
  | enabled
  deriving DecidableEq, Repr

inductive SandboxPolicy
  | dangerFullAccess
  | readOnly (networkAccess : Bool)
  | externalSandbox (networkAccess : NetworkAccess)
  | workspaceWrite (writableRoots : List AbsPath) (networkAccess excludeTmpdirEnvVar
      excludeSlashTmp : Bool)
  deriving DecidableEq, Repr

/-- What the scan of the entries has found so far. -/
structure LegacyScan where
  workspaceRootWritable : Bool
  writableRoots : List AbsPath
  tmpdirWritable : Bool
  slashTmpWritable : Bool
  unbridgeableRootWrite : Bool

namespace LegacyScan

def start : LegacyScan := ⟨false, [], false, false, false⟩

/-- One entry; those that do not grant writing leave the scan as it is. -/
def visit (host : Host) (cwd : AbsPath) (scan : LegacyScan) (entry : FileSystemSandboxEntry) :
    LegacyScan :=
  match entry.path with
  | .globPattern _ => scan
  | .path path =>
      if entry.access.canWrite then
        if cwd = path then { scan with workspaceRootWritable := true }
        else { scan with writableRoots := scan.writableRoots ++ [path] }
      else scan
  | .special value =>
      match value with
      | .root => if entry.access = .write then { scan with unbridgeableRootWrite := true } else scan
      | .minimal => scan
      | .projectRoots subpath =>
          if subpath.isNone && entry.access.canWrite then
            { scan with workspaceRootWritable := true }
          else
            match resolveFileSystemSpecialPath host value cwd with
            | some path =>
                if entry.access.canWrite then
                  { scan with writableRoots := scan.writableRoots ++ [path] }
                else scan
            | none => scan
      | .tmpdir => if entry.access.canWrite then { scan with tmpdirWritable := true } else scan
      | .slashTmp => if entry.access.canWrite then { scan with slashTmpWritable := true } else scan
      | .unknown _ _ => scan

end LegacyScan

def unsupportedWrites : Text :=
  ("permissions profile requests filesystem writes outside the workspace root, which is not " ++
    "supported until the runtime enforces FileSystemSandboxPolicy directly").toList

/-- The legacy policy of full disk write access. -/
def SandboxPolicy.fullAccess (network : NetworkSandboxPolicy) : SandboxPolicy :=
  if network.isEnabled then .dangerFullAccess else .externalSandbox .restricted

namespace FileSystemSandboxPolicy

def toLegacySandboxPolicy (policy : FileSystemSandboxPolicy) (host : Host)
    (network : NetworkSandboxPolicy) (cwd : AbsPath) : Except Text SandboxPolicy :=
  match policy.kind with
  | .externalSandbox =>
      .ok (.externalSandbox (if network.isEnabled then .enabled else .restricted))
  | .unrestricted => .ok (.fullAccess network)
  | .restricted =>
      let scan := policy.entries.foldl (LegacyScan.visit host cwd) .start
      if policy.hasFullDiskWriteAccess then .ok (.fullAccess network)
      else if scan.workspaceRootWritable then
        .ok (.workspaceWrite (dedupAbsolutePaths host scan.writableRoots false) network.isEnabled
          (!scan.tmpdirWritable) (!scan.slashTmpWritable))
      else if scan.unbridgeableRootWrite || !scan.writableRoots.isEmpty || scan.tmpdirWritable ||
          scan.slashTmpWritable then
        .error unsupportedWrites
      else .ok (.readOnly network.isEnabled)

end FileSystemSandboxPolicy

/-! ### The entries of a legacy policy -/

def appendDefaultReadOnlyEntryIfNoExplicitRule (entries : List FileSystemSandboxEntry)
    (path : FileSystemPath) : List FileSystemSandboxEntry :=
  if entries.any fun entry => fileSystemPathsShareTarget entry.path path then entries
  else entries ++ [⟨path, .read⟩]

def appendDefaultReadOnlyPaths (entries : List FileSystemSandboxEntry) (paths : List AbsPath) :
    List FileSystemSandboxEntry :=
  paths.foldl (fun entries path => appendDefaultReadOnlyEntryIfNoExplicitRule entries (.path path))
    entries

/-- The entries before the metadata of the roots is protected. -/
def workspaceWriteEntries (writableRoots : List AbsPath) (excludeTmpdirEnvVar
    excludeSlashTmp : Bool) : List FileSystemSandboxEntry :=
  [⟨.special .root, .read⟩, ⟨.special (.projectRoots none), .write⟩] ++
    (if excludeSlashTmp then [] else [⟨.special .slashTmp, .write⟩]) ++
    (if excludeTmpdirEnvVar then [] else [⟨.special .tmpdir, .write⟩]) ++
    writableRoots.map fun path => ⟨.path path, .write⟩

/-- `FileSystemSandboxPolicy::workspace_write`. -/
def workspaceWrite (host : Host) (writableRoots : List AbsPath) (excludeTmpdirEnvVar
    excludeSlashTmp : Bool) : FileSystemSandboxPolicy :=
  let entries := [dotGit, dotAgents, dotCodex].foldl
    (fun entries name => appendDefaultReadOnlyEntryIfNoExplicitRule entries
      (.special (.projectRoots (some name))))
    (workspaceWriteEntries writableRoots excludeTmpdirEnvVar excludeSlashTmp)
  .restricted <| writableRoots.foldl
    (fun entries root => appendDefaultReadOnlyPaths entries
      (defaultReadOnlySubpathsForWritableRoot host root false))
    entries

/-- `FileSystemSandboxPolicy::from`. -/
def FileSystemSandboxPolicy.ofSandboxPolicy (host : Host) : SandboxPolicy → FileSystemSandboxPolicy
  | .dangerFullAccess => .unrestricted
  | .externalSandbox _ => .externalSandbox
  | .readOnly _ => .restricted [⟨.special .root, .read⟩]
  | .workspaceWrite writableRoots _ excludeTmpdirEnvVar excludeSlashTmp =>
      workspaceWrite host writableRoots excludeTmpdirEnvVar excludeSlashTmp

/-- Without the carve-outs for metadata of the workspace that does not exist. -/
def legacyRuntimeFileSystemPolicyForCwd (host : Host) (legacy : SandboxPolicy) (cwd : AbsPath) :
    FileSystemSandboxPolicy :=
  match legacy with
  | .workspaceWrite writableRoots _ excludeTmpdirEnvVar excludeSlashTmp =>
      let entries := appendDefaultReadOnlyPaths
        (workspaceWriteEntries writableRoots excludeTmpdirEnvVar excludeSlashTmp)
        (defaultReadOnlySubpathsForWritableRoot host cwd true)
      .restricted <| writableRoots.foldl
        (fun entries root => appendDefaultReadOnlyPaths entries
          (defaultReadOnlySubpathsForWritableRoot host root false))
        entries
  | legacy => .ofSandboxPolicy host legacy

/-! ### The guard -/

/-- Paths in the order of their components. -/
def pathLe (a b : AbsPath) : Bool := decide (¬ b < a)

def sortedAbsolutePaths (paths : List AbsPath) : List AbsPath :=
  List.insertionSort (fun a b => pathLe a b) paths

def sortedWritableRoots (roots : List WritableRoot) : List WritableRoot :=
  List.insertionSort (fun a b => pathLe a.root b.root) <|
    roots.map fun writable =>
      { writable with readOnlySubpaths := sortedAbsolutePaths writable.readOnlySubpaths }

structure FileSystemSemanticSignature where
  hasFullDiskReadAccess : Bool
  hasFullDiskWriteAccess : Bool
  includePlatformDefaults : Bool
  readableRoots : List AbsPath
  writableRoots : List WritableRoot
  unreadableRoots : List AbsPath
  unreadableGlobs : List Text
  deriving DecidableEq, Repr

namespace FileSystemSandboxPolicy

def semanticSignature (policy : FileSystemSandboxPolicy) (host : Host) (cwd : AbsPath) :
    FileSystemSemanticSignature where
  hasFullDiskReadAccess := policy.hasFullDiskReadAccess
  hasFullDiskWriteAccess := policy.hasFullDiskWriteAccess
  includePlatformDefaults := policy.includePlatformDefaults
  readableRoots := sortedAbsolutePaths (policy.getReadableRootsWithCwd host cwd)
  writableRoots := sortedWritableRoots (policy.getWritableRootsWithCwd host cwd)
  unreadableRoots := sortedAbsolutePaths (policy.getUnreadableRootsWithCwd host cwd)
  unreadableGlobs := policy.getUnreadableGlobsWithCwd host cwd

def needsDirectRuntimeEnforcement (policy : FileSystemSandboxPolicy) (host : Host)
    (network : NetworkSandboxPolicy) (cwd : AbsPath) : Bool :=
  if policy.kind != .restricted then false
  else
    match policy.toLegacySandboxPolicy host network cwd with
    | .error _ => true
    | .ok legacy =>
        policy.semanticSignature host cwd !=
          (legacyRuntimeFileSystemPolicyForCwd host legacy cwd).semanticSignature host cwd

end FileSystemSandboxPolicy

/-! ### What the entries of a legacy policy grant -/

/-- The root may be read, nothing is denied, and the root is not granted for writing. -/
def ReadsAll (entries : List FileSystemSandboxEntry) : Prop :=
  ⟨.special .root, .read⟩ ∈ entries ∧
    ∀ e ∈ entries, e.access ≠ .none ∧ (e.path = .special .root → e.access = .read)

theorem ReadsAll.append {entries : List FileSystemSandboxEntry} (h : ReadsAll entries)
    (path : FileSystemPath) : ReadsAll (appendDefaultReadOnlyEntryIfNoExplicitRule entries path) := by
  unfold appendDefaultReadOnlyEntryIfNoExplicitRule
  split
  · exact h
  · refine ⟨List.mem_append_left _ h.1, fun e he => ?_⟩
    rcases List.mem_append.mp he with he | he
    · exact h.2 e he
    · obtain rfl := List.mem_singleton.mp he
      exact ⟨by simp, fun _ => rfl⟩

theorem ReadsAll.appendPaths {entries : List FileSystemSandboxEntry} (h : ReadsAll entries)
    (paths : List AbsPath) : ReadsAll (appendDefaultReadOnlyPaths entries paths) := by
  unfold appendDefaultReadOnlyPaths
  induction paths generalizing entries with
  | nil => exact h
  | cons path paths ih => exact ih (h.append _)

theorem ReadsAll.protectRoots {entries : List FileSystemSandboxEntry} (h : ReadsAll entries)
    (host : Host) (roots : List AbsPath) :
    ReadsAll (roots.foldl (fun entries root => appendDefaultReadOnlyPaths entries
      (defaultReadOnlySubpathsForWritableRoot host root false)) entries) := by
  induction roots generalizing entries with
  | nil => exact h
  | cons root roots ih => exact ih (h.appendPaths _)

theorem workspaceWriteEntries_readsAll (writableRoots : List AbsPath)
    (excludeTmpdirEnvVar excludeSlashTmp : Bool) :
    ReadsAll (workspaceWriteEntries writableRoots excludeTmpdirEnvVar excludeSlashTmp) := by
  refine ⟨by simp [workspaceWriteEntries], fun e he => ?_⟩
  simp only [workspaceWriteEntries, List.mem_append, List.mem_map] at he
  rcases he with ((he | he) | he) | ⟨path, -, rfl⟩
  · simp only [List.mem_cons, List.not_mem_nil, or_false] at he
    rcases he with rfl | rfl <;> simp
  · split at he
    · exact absurd he List.not_mem_nil
    · obtain rfl := List.mem_singleton.mp he
      simp
  · split at he
    · exact absurd he List.not_mem_nil
    · obtain rfl := List.mem_singleton.mp he
      simp
  · simp

namespace FileSystemSandboxPolicy

variable {policy : FileSystemSandboxPolicy} {host : Host} {cwd path : AbsPath}
  {network : NetworkSandboxPolicy} {legacy : SandboxPolicy}
  {entries : List FileSystemSandboxEntry}

theorem fullRead_of_readsAll (h : ReadsAll entries) :
    (restricted entries).hasFullDiskReadAccess = true := by
  simp only [hasFullDiskReadAccess, restricted, hasRootAccess, hasDeniedReadRestrictions,
    beq_self_eq_true, Bool.true_and, Bool.and_eq_true, List.any_eq_true, Bool.not_eq_true',
    List.any_eq_false, beq_iff_eq]
  exact ⟨⟨_, h.1, rfl, rfl⟩, fun e he => (h.2 e he).1⟩

theorem notFullWrite_of_readsAll (h : ReadsAll entries) :
    (restricted entries).hasFullDiskWriteAccess = false := by
  have hroot : (restricted entries).hasRootAccess FileSystemAccessMode.canWrite = false := by
    simp only [hasRootAccess, restricted, beq_self_eq_true, Bool.true_and, List.any_eq_false,
      Bool.and_eq_true, beq_iff_eq, not_and]
    intro e he hpath
    rw [(h.2 e he).2 hpath]
    decide
  show ((restricted entries).hasRootAccess FileSystemAccessMode.canWrite && _) = false
  rw [hroot, Bool.false_and]

/-- **What the conversion gives**: full access for full disk write access, and otherwise a policy
    whose entries let everything be read. -/
theorem legacyRuntime_cases (hkind : policy.kind = .restricted)
    (h : policy.toLegacySandboxPolicy host network cwd = .ok legacy) :
    (policy.hasFullDiskWriteAccess = true ∧
        (legacyRuntimeFileSystemPolicyForCwd host legacy cwd).kind ≠ .restricted) ∨
      (policy.hasFullDiskWriteAccess = false ∧ ∃ entries, ReadsAll entries ∧
        legacyRuntimeFileSystemPolicyForCwd host legacy cwd = restricted entries) := by
  simp only [toLegacySandboxPolicy, hkind] at h
  split at h
  · next hfull =>
    left
    obtain rfl := Except.ok.inj h
    refine ⟨hfull, ?_⟩
    unfold SandboxPolicy.fullAccess
    split
    · exact FileSystemSandboxKind.noConfusion
    · exact FileSystemSandboxKind.noConfusion
  · next hfull =>
    refine .inr ⟨by simpa using hfull, ?_⟩
    split at h
    · obtain rfl := Except.ok.inj h
      exact ⟨_, ((workspaceWriteEntries_readsAll _ _ _).appendPaths _).protectRoots host _, rfl⟩
    · split at h
      · exact absurd h (by simp)
      · obtain rfl := Except.ok.inj h
        exact ⟨[⟨.special .root, .read⟩], ⟨List.mem_singleton_self _, by simp⟩, rfl⟩

/-! ### What equal signatures say -/

theorem exists_isPathWritable_sorted {roots : List WritableRoot} :
    (∃ writable ∈ sortedWritableRoots roots, writable.isPathWritable path = true) ↔
      ∃ writable ∈ roots, writable.isPathWritable path = true := by
  have hsorted : ∀ writable : WritableRoot,
      WritableRoot.isPathWritable { writable with
        readOnlySubpaths := sortedAbsolutePaths writable.readOnlySubpaths } path =
        writable.isPathWritable path := by
    intro writable
    unfold WritableRoot.isPathWritable sortedAbsolutePaths
    rw [(List.perm_insertionSort _ _).any_eq]
  unfold sortedWritableRoots
  simp only [(List.perm_insertionSort _ _).mem_iff, List.mem_map]
  constructor
  · rintro ⟨_, ⟨writable, hmem, rfl⟩, h⟩
    exact ⟨writable, hmem, hsorted writable ▸ h⟩
  · rintro ⟨writable, hmem, h⟩
    exact ⟨_, ⟨writable, hmem, rfl⟩, (hsorted writable).trans h⟩

/-- Policies with the same signature have the same root view. -/
theorem rootView_of_signature_eq {other : FileSystemSandboxPolicy}
    (h : policy.semanticSignature host cwd = other.semanticSignature host cwd)
    (hother : other.RootViewWritable host cwd path) : policy.RootViewWritable host cwd path := by
  rcases hother with hfull | hroot
  · left
    rw [show policy.hasFullDiskWriteAccess = other.hasFullDiskWriteAccess from
      congrArg FileSystemSemanticSignature.hasFullDiskWriteAccess h]
    exact hfull
  · right
    rw [← exists_isPathWritable_sorted] at hroot ⊢
    rw [show sortedWritableRoots (policy.getWritableRootsWithCwd host cwd) =
      sortedWritableRoots (other.getWritableRootsWithCwd host cwd) from
        congrArg FileSystemSemanticSignature.writableRoots h]
    exact hroot

/-- With full disk read access there are no unreadable globs. -/
theorem unreadableGlobs_of_fullDisk (hkind : policy.kind = .restricted)
    (hfull : policy.hasFullDiskReadAccess = true) :
    policy.getUnreadableGlobsWithCwd host cwd = [] := by
  simp only [hasFullDiskReadAccess, hkind, Bool.and_eq_true, Bool.not_eq_true',
    hasDeniedReadRestrictions, beq_self_eq_true, Bool.true_and, List.any_eq_false] at hfull
  have hnone : (policy.entries.filter fun entry => entry.access == .none) = [] :=
    List.filter_eq_nil_iff.mpr hfull.2
  simp [getUnreadableGlobsWithCwd, hkind, hnone, dedupNeighbours]

/-! ### When the guard is right -/

/-- Falling back to the legacy policy does not widen access: it lets be read what the policy lets
    be read and no unreadable glob matches, and its root view lets be written only what the policy
    does. -/
def FallsBackFaithfully (policy legacyPolicy : FileSystemSandboxPolicy) (host : Host)
    (cwd : AbsPath) : Prop :=
  ∀ (globMatches : Text → AbsPath → Prop) (path : Text),
    (legacyPolicy.canReadPathWithCwd host cwd path = true ↔
      policy.canReadPathWithCwd host cwd path = true ∧
        ∀ glob ∈ policy.getUnreadableGlobsWithCwd host cwd,
          ¬ globMatches glob (resolveCandidatePath host path cwd)) ∧
    (legacyPolicy.RootViewWritable host cwd (resolveCandidatePath host path cwd) →
      policy.canWritePathWithCwd host cwd path = true)

/-- Where `/tmp` is not settled it may not be written, whatever the shortcut says. -/
theorem canWriteAt_slashTmp_of_not_settled (hkind : policy.kind = .restricted)
    (h : ¬ policy.SlashTmpSettled host cwd) : policy.canWriteAt host cwd slashTmp = false := by
  simp only [SlashTmpSettled, not_or, not_not] at h
  obtain ⟨-, hread, hnowrite⟩ := h
  rw [← Bool.not_eq_true, canWriteAt_iff hkind]
  rintro ⟨w, hw, hwrite⟩
  have hrule : (⟨slashTmp, .read⟩ : ResolvedFileSystemEntry) ∈
      policy.resolvedEntriesWithCwd host cwd :=
    mem_resolvedEntriesWithCwd.mpr ⟨_, hread, rfl, rfl⟩
  -- the entry for `/tmp` is the longest that applies, so one for `/tmp` decides
  have hpath : w.path = slashTmp := by
    have habove := hw.above hrule List.prefix_rfl
    exact hw.applies.eq_of_length (le_antisymm hw.applies.length_le habove.length_le)
  have hvalue : w.value = .write := by simpa [FileSystemAccessMode.canWrite] using hwrite
  have heq : w = ⟨slashTmp, .write⟩ := Rule.ext hpath hvalue
  exact hnowrite (heq ▸ hw.mem)

theorem fullRead_of_unrestricted (hkind : policy.kind ≠ .restricted) :
    policy.hasFullDiskReadAccess = true := by
  unfold hasFullDiskReadAccess
  split
  · rfl
  · rfl
  · exact absurd ‹_› hkind

theorem fullWrite_of_unrestricted (hkind : policy.kind ≠ .restricted) :
    policy.hasFullDiskWriteAccess = true := by
  unfold hasFullDiskWriteAccess
  split
  · rfl
  · rfl
  · exact absurd ‹_› hkind

/-- Where the guard lets the legacy sandbox be used, both signatures are the same. -/
theorem signature_eq_of_guard (hkind : policy.kind = .restricted)
    (hguard : policy.needsDirectRuntimeEnforcement host network cwd = false) :
    ∃ legacy, policy.toLegacySandboxPolicy host network cwd = .ok legacy ∧
      policy.semanticSignature host cwd =
        (legacyRuntimeFileSystemPolicyForCwd host legacy cwd).semanticSignature host cwd := by
  unfold needsDirectRuntimeEnforcement at hguard
  rw [hkind, if_neg (by decide)] at hguard
  split at hguard
  · exact absurd hguard (by decide)
  · next legacy hlegacy => exact ⟨legacy, hlegacy, by simpa using hguard⟩

/-- **When falling back is faithful.** For every policy that the guard does not have enforced
    directly, access is not widened if and only if `/tmp` is settled or the policy does not have
    full disk write access. -/
theorem fallsBack_iff_settled (policy : FileSystemSandboxPolicy) (host : Host)
    (network : NetworkSandboxPolicy) (cwd : AbsPath) (hkind : policy.kind = .restricted)
    (hfree : host.SymlinkFree)
    (hguard : policy.needsDirectRuntimeEnforcement host network cwd = false) :
    ∃ legacy, policy.toLegacySandboxPolicy host network cwd = .ok legacy ∧
      (FallsBackFaithfully policy (legacyRuntimeFileSystemPolicyForCwd host legacy cwd) host cwd ↔
        (policy.hasFullDiskWriteAccess = true → policy.SlashTmpSettled host cwd)) := by
  obtain ⟨legacy, hlegacy, hsignature⟩ := signature_eq_of_guard hkind hguard
  refine ⟨legacy, hlegacy, ?_⟩
  have hcases := legacyRuntime_cases hkind hlegacy
  have hlegacyRead :
      (legacyRuntimeFileSystemPolicyForCwd host legacy cwd).hasFullDiskReadAccess = true := by
    rcases hcases with ⟨-, hunrestricted⟩ | ⟨-, entries, hreads, heq⟩
    · exact fullRead_of_unrestricted hunrestricted
    · rw [heq]
      exact fullRead_of_readsAll hreads
  have hread : policy.hasFullDiskReadAccess = true :=
    (congrArg FileSystemSemanticSignature.hasFullDiskReadAccess hsignature).trans hlegacyRead
  constructor
  · intro hfaithful hfull
    by_contra hsettled
    rcases hcases with ⟨-, hunrestricted⟩ | ⟨hnot, -⟩
    · have hwrite := (hfaithful (fun _ _ => False) "/tmp".toList).2
        (.inl (fullWrite_of_unrestricted hunrestricted))
      rw [canWritePathWithCwd, resolveAccessWithCwd] at hwrite
      have hdenied := canWriteAt_slashTmp_of_not_settled hkind hsettled
      exact absurd (hwrite.symm.trans hdenied) (by decide)
    · exact absurd hfull (by simp [hnot])
  · intro hsettled globMatches path
    refine ⟨?_, fun hroot => ?_⟩
    · rw [unreadableGlobs_of_fullDisk hkind hread]
      constructor
      · intro _
        exact ⟨canReadAt_of_fullDisk hread _, fun _ hglob => absurd hglob List.not_mem_nil⟩
      · intro _
        exact canReadAt_of_fullDisk hlegacyRead _
    · exact canWriteAt_of_rootView hkind hfree hsettled (rootView_of_signature_eq hsignature hroot)

/-- The workspace may be written; its metadata is protected in both ways of saying it. -/
def plainWorkspace : FileSystemSandboxPolicy :=
  restricted [⟨.special .root, .read⟩, ⟨.special (.projectRoots none), .write⟩]

theorem fallsBack_iff_settled_workspace :
    FallsBackFaithfully plainWorkspace
      (legacyRuntimeFileSystemPolicyForCwd workspaceHost (.workspaceWrite [] false true true)
        (absPath "/w")) workspaceHost (absPath "/w") := by
  obtain ⟨legacy, hlegacy, hiff⟩ := fallsBack_iff_settled plainWorkspace workspaceHost .restricted
    (absPath "/w") rfl (Host.plain_symlinkFree _ _) (by decide +kernel)
  obtain rfl : SandboxPolicy.workspaceWrite [] false true true = legacy := Except.ok.inj hlegacy
  exact hiff.mpr fun hfull => absurd hfull (by decide)

/-! ### A machine without `/tmp` -/

/-- Everything may be written, and `/tmp`, which may only be read, by `:slash_tmp` as well. -/
def slashTmpPolicy : FileSystemSandboxPolicy :=
  restricted [⟨.special .root, .write⟩, ⟨.path slashTmp, .read⟩, ⟨.special .slashTmp, .write⟩]

def bareHost : Host := Host.plain [absPath "/", absPath "/w"] []

/-- Without `/tmp` the policy counts as full access, and `/tmp` may only be read. -/
theorem missing_slashTmp_widens : ¬ ∀ (policy : FileSystemSandboxPolicy) (host : Host)
    (network : NetworkSandboxPolicy) (cwd : AbsPath) (legacy : SandboxPolicy),
      policy.kind = .restricted → host.SymlinkFree →
      policy.needsDirectRuntimeEnforcement host network cwd = false →
      policy.toLegacySandboxPolicy host network cwd = .ok legacy →
      FallsBackFaithfully policy (legacyRuntimeFileSystemPolicyForCwd host legacy cwd) host cwd := by
  intro h
  have hfaithful := h slashTmpPolicy bareHost .enabled (absPath "/w") .dangerFullAccess rfl
    (Host.plain_symlinkFree _ _) (by decide +kernel) (by decide +kernel)
  have hwrite := (hfaithful (fun _ _ => False) "/tmp/notes".toList).2 (.inl rfl)
  exact absurd hwrite (by decide +kernel)

end FileSystemSandboxPolicy

end CodexMonitor.Sandbox
