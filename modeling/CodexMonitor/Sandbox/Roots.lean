import CodexMonitor.Sandbox.Policy
import Mathlib.Data.List.Destutter
import Mathlib.Data.List.Infix
import Mathlib.Data.List.Sort

namespace CodexMonitor.Sandbox

open PrefixRules UnixPath

/-!
# Sandbox — the roots that the platform sandboxes enforce

Seatbelt, bubblewrap and the others are not given the entries but roots: directories with all
that lies below them, and for the writable ones the parts that stay read only.

* `normalizeEffectiveAbsolutePath` — a path with its existing part made canonical.
* `defaultReadOnlySubpathsForWritableRoot` — the metadata that is protected by default.
* `getWritableRootsWithCwd`, `WritableRoot.isPathWritable` — **the root view** of writing.
* `getReadableRootsWithCwd`, `getUnreadableRootsWithCwd`, `getUnreadableGlobsWithCwd` — of reading.
* `mem_getWritableRootsWithCwd`, `mem_readOnlySubpaths` — the writable roots where no path involves a symlink.
-/

/-! ### Effective paths -/

section Host

variable (host : Host)

/-- The path and the directories above it, from the path up. -/
def ancestors (path : AbsPath) : List AbsPath := path.inits.reverse

/-- A symlink that is not at the top level keeps the path as it is written. -/
def shouldPreserveLogicalPath (logical : AbsPath) : Bool :=
  (ancestors logical).any fun ancestor =>
    host.symlinkMetadata ancestor == some .symlink &&
      ((UnixPath.parent ancestor).bind UnixPath.parent).isSome

def canonicalizePreservingSymlinks (path : AbsPath) : AbsPath :=
  match host.canonicalize path with
  | some canonical =>
      if shouldPreserveLogicalPath host path && canonical != path then path else canonical
  | none => path

/-- The nearest ancestor that exists is made canonical, and the rest is kept. -/
def normalizeEffectiveAbsolutePath (path : AbsPath) : AbsPath :=
  match (ancestors path).find? fun ancestor => (host.symlinkMetadata ancestor).isSome with
  | some ancestor => canonicalizePreservingSymlinks host ancestor ++ path.drop ancestor.length
  | none => path

def dedupAbsolutePaths (paths : List AbsPath) (normalizeEffectivePaths : Bool) : List AbsPath :=
  (paths.map fun path =>
    if normalizeEffectivePaths then normalizeEffectiveAbsolutePath host path else path).eraseDups

/-! ### The metadata protected by default -/

def dotGit : Text := ".git".toList

def dotAgents : Text := ".agents".toList

def dotCodex : Text := ".codex".toList

def isGitPointerFile (path : AbsPath) : Bool :=
  host.isFile path && UnixPath.fileName path == some dotGit

/-- The text after the first colon, as `split_once(':')`. -/
def afterColon (text : Text) : Option Text :=
  match text.dropWhile (· != ':') with
  | [] => none
  | _ :: rest => some rest

/-- The directory that a `.git` file points to, if it exists. -/
def resolveGitdirFromFile (gitFile : AbsPath) : Option AbsPath := do
  let contents ← host.readToString gitFile
  let gitdirRaw := (← afterColon contents.trim).trim
  if gitdirRaw.isEmpty then none
  else
    let base ← UnixPath.parent gitFile
    let gitdirPath := resolve host.homeDir gitdirRaw base
    if host.pathExists gitdirPath then some gitdirPath else none

def defaultReadOnlySubpathsForWritableRoot (writableRoot : AbsPath)
    (protectMissingDotCodex : Bool) : List AbsPath :=
  let topLevelGit := writableRoot ++ [dotGit]
  let gitSubpaths :=
    if host.isDir topLevelGit || host.isFile topLevelGit then
      (if host.isFile topLevelGit && isGitPointerFile host topLevelGit then
        (resolveGitdirFromFile host topLevelGit).toList
      else []) ++ [topLevelGit]
    else []
  let topLevelAgents := writableRoot ++ [dotAgents]
  let agentsSubpaths := if host.isDir topLevelAgents then [topLevelAgents] else []
  let topLevelCodex := writableRoot ++ [dotCodex]
  let codexSubpaths :=
    if protectMissingDotCodex || host.isDir topLevelCodex then [topLevelCodex] else []
  dedupAbsolutePaths host (gitSubpaths ++ agentsSubpaths ++ codexSubpaths) false

end Host

def hasExplicitResolvedPathEntry (entries : List ResolvedFileSystemEntry) (path : AbsPath) :
    Bool :=
  entries.any fun entry => entry.path == path

/-! ### Writable roots -/

/-- A directory that may be written, and what below it may not. -/
structure WritableRoot where
  root : AbsPath
  readOnlySubpaths : List AbsPath
  deriving DecidableEq, Repr

namespace WritableRoot

def isPathWritable (writable : WritableRoot) (path : AbsPath) : Bool :=
  writable.root.isPrefixOf path &&
    !writable.readOnlySubpaths.any fun subpath => subpath.isPrefixOf path

/-- The region of a writable root. -/
def region (writable : WritableRoot) : Region Text := ⟨writable.root, writable.readOnlySubpaths⟩

theorem isPathWritable_iff {writable : WritableRoot} {path : AbsPath} :
    writable.isPathWritable path = true ↔ writable.region.Covers path := by
  simp only [isPathWritable, region, Region.Covers, Bool.and_eq_true, Bool.not_eq_true',
    List.any_eq_false, List.isPrefixOf_iff_prefix]

end WritableRoot

/-- What an entry without write access carves out of a root.  A path that is written below the
    root, or below a way of writing the root, is kept as it is written. -/
def carveoutPath (host : Host) (root : AbsPath) (rawWritableRoots : List AbsPath)
    (path : AbsPath) : Option AbsPath :=
  let preserveRawCarveoutPaths := (UnixPath.parent root).isSome
  let effectivePath := normalizeEffectiveAbsolutePath host path
  let rawCarveoutPath :=
    if preserveRawCarveoutPaths then
      if path = root then none
      else if root.isPrefixOf path then some path
      else rawWritableRoots.findSome? fun rawRoot =>
        if rawRoot.isPrefixOf path && rawRoot != path then
          let suffix := path.drop rawRoot.length
          some (resolve host.homeDir (Text.joinWith ['/'] suffix) root)
        else none
    else none
  match rawCarveoutPath with
  | some path => some path
  | none =>
      if effectivePath = root || !root.isPrefixOf effectivePath then none else some effectivePath

namespace FileSystemSandboxPolicy

variable (policy : FileSystemSandboxPolicy) (host : Host) (cwd : AbsPath)

def writableEntries : List AbsPath :=
  ((policy.resolvedEntriesWithCwd host cwd).filter fun entry =>
    entry.value.canWrite && policy.canWriteAt host cwd entry.path).map (·.path)

/-- The read only subpaths of a writable root: the protected metadata that has no entry of its
    own, and what the narrower entries without write access carve out. -/
def readOnlySubpaths (root : AbsPath) : List AbsPath :=
  let resolvedEntries := policy.resolvedEntriesWithCwd host cwd
  let rawWritableRoots := (policy.writableEntries host cwd).filter fun path =>
    normalizeEffectiveAbsolutePath host path == root
  let protectMissingDotCodex := normalizeEffectiveAbsolutePath host cwd == root
  let defaults := (defaultReadOnlySubpathsForWritableRoot host root protectMissingDotCodex).filter
    fun path => !hasExplicitResolvedPathEntry resolvedEntries path
  let carveouts := (resolvedEntries.filter fun entry =>
      !entry.value.canWrite && !policy.canWriteAt host cwd entry.path).filterMap fun entry =>
    carveoutPath host root rawWritableRoots entry.path
  dedupAbsolutePaths host (defaults ++ carveouts) false

def getWritableRootsWithCwd : List WritableRoot :=
  if policy.hasFullDiskWriteAccess then []
  else (dedupAbsolutePaths host (policy.writableEntries host cwd) true).map fun root =>
    { root, readOnlySubpaths := policy.readOnlySubpaths host cwd root }

/-! ### Readable and unreadable roots -/

def getReadableRootsWithCwd : List AbsPath :=
  if policy.hasFullDiskReadAccess then []
  else
    dedupAbsolutePaths host
      (((policy.resolvedEntriesWithCwd host cwd).filter fun entry =>
        entry.value.canRead && policy.canReadAt host cwd entry.path).map (·.path)) true

/-- The root of the file system is left out: what no entry allows is denied anyway. -/
def getUnreadableRootsWithCwd : List AbsPath :=
  if policy.kind != .restricted then []
  else
    dedupAbsolutePaths host
      (((policy.resolvedEntriesWithCwd host cwd).filter fun entry =>
        entry.value == .none && !policy.canReadAt host cwd entry.path &&
          !entry.path.isEmpty).map (·.path)) true

/-- Texts in the order of their characters. -/
def textLe (a b : Text) : Bool := decide (¬ b < a)

/-- `Vec::dedup`: of equal neighbours the first is kept. -/
def dedupNeighbours (texts : List Text) : List Text := texts.destutter (· ≠ ·)

def getUnreadableGlobsWithCwd : List Text :=
  if policy.kind != .restricted then []
  else
    dedupNeighbours <| List.insertionSort (fun a b => textLe a b) <|
      (policy.entries.filter fun entry => entry.access == .none).filterMap fun entry =>
        match entry.path with
        | .globPattern pattern => some (display (resolve host.homeDir pattern cwd))
        | .path _ | .special _ => none

end FileSystemSandboxPolicy

/-! ### Where no path involves a symlink -/

section SymlinkFree

variable {host : Host} {path root : AbsPath} {paths : List AbsPath}

theorem canonicalizePreservingSymlinks_eq_self (hfree : host.SymlinkFree) (path : AbsPath) :
    canonicalizePreservingSymlinks host path = path := by
  unfold canonicalizePreservingSymlinks
  cases hcanonical : host.canonicalize path with
  | none => rfl
  | some target =>
    obtain rfl := hfree.canonical path target hcanonical
    simp

/-- **Without symlinks a path is its own effective path.** -/
theorem normalizeEffectiveAbsolutePath_eq_self (hfree : host.SymlinkFree) (path : AbsPath) :
    normalizeEffectiveAbsolutePath host path = path := by
  unfold normalizeEffectiveAbsolutePath
  cases hfind : (ancestors path).find? fun ancestor =>
      (host.symlinkMetadata ancestor).isSome with
  | none => rfl
  | some ancestor =>
    have hmem : ancestor ∈ path.inits := List.mem_reverse.mp (List.mem_of_find?_eq_some hfind)
    have habove : ancestor <+: path := (List.mem_inits _ _).mp hmem
    show canonicalizePreservingSymlinks host ancestor ++ path.drop ancestor.length = path
    rw [canonicalizePreservingSymlinks_eq_self hfree]
    exact (List.prefix_iff_eq_append.mp habove)

theorem mem_dedupAbsolutePaths_raw :
    path ∈ dedupAbsolutePaths host paths false ↔ path ∈ paths := by
  simp [dedupAbsolutePaths]

theorem mem_dedupAbsolutePaths (hfree : host.SymlinkFree) (normalize : Bool) :
    path ∈ dedupAbsolutePaths host paths normalize ↔ path ∈ paths := by
  unfold dedupAbsolutePaths
  simp only [normalizeEffectiveAbsolutePath_eq_self hfree, ite_self, List.map_id_fun', id_eq,
    List.mem_eraseDups]

theorem carveoutPath_eq (hfree : host.SymlinkFree) {rawWritableRoots : List AbsPath}
    (hraw : ∀ rawRoot ∈ rawWritableRoots, rawRoot = root) :
    carveoutPath host root rawWritableRoots path =
      if root <+: path ∧ path ≠ root then some path else none := by
  have hfind : ¬ root <+: path →
      (rawWritableRoots.findSome? fun rawRoot =>
        if rawRoot.isPrefixOf path && rawRoot != path then
          some (resolve host.homeDir (Text.joinWith ['/'] (path.drop rawRoot.length)) root)
        else none) = none := by
    intro hnot
    refine List.findSome?_eq_none_iff.mpr fun rawRoot hmem => ?_
    rw [hraw rawRoot hmem, if_neg]
    rw [Bool.and_eq_true, List.isPrefixOf_iff_prefix]
    exact fun h => hnot h.1
  unfold carveoutPath
  rw [normalizeEffectiveAbsolutePath_eq_self hfree]
  by_cases habove : root <+: path
  · by_cases heq : path = root
    · simp [heq]
    · by_cases hparent : (UnixPath.parent root).isSome <;> simp [habove, heq, hparent]
  · have hne : path ≠ root := fun h => habove (h ▸ List.prefix_rfl)
    have hbool : root.isPrefixOf path = false := by
      rw [← Bool.not_eq_true, List.isPrefixOf_iff_prefix]
      exact habove
    simp only [hne, hbool, habove, hfind habove, if_false, ite_self, false_and,
      Bool.false_eq_true, Bool.not_false, decide_false, Bool.or_true, if_true]

end SymlinkFree

namespace FileSystemSandboxPolicy

variable {policy : FileSystemSandboxPolicy} {host : Host} {cwd root path : AbsPath}

/-- The default read only subpaths of a root, with a missing `.codex` for the working directory. -/
def defaultSubpaths (host : Host) (cwd root : AbsPath) : List AbsPath :=
  defaultReadOnlySubpathsForWritableRoot host root (cwd == root)

/-- What a writable root keeps read only: its protected metadata without an entry, and the
    entries below it at which the policy does not allow writing. -/
theorem mem_readOnlySubpaths (hfree : host.SymlinkFree) :
    path ∈ policy.readOnlySubpaths host cwd root ↔
      (path ∈ defaultSubpaths host cwd root ∧
          ∀ entry ∈ policy.resolvedEntriesWithCwd host cwd, entry.path ≠ path) ∨
        ∃ entry ∈ policy.resolvedEntriesWithCwd host cwd, entry.value.canWrite = false ∧
          policy.canWriteAt host cwd entry.path = false ∧ root <+: entry.path ∧
          entry.path ≠ root ∧ entry.path = path := by
  have hraw : ∀ rawRoot ∈ (policy.writableEntries host cwd).filter fun path =>
      normalizeEffectiveAbsolutePath host path == root, rawRoot = root := by
    intro rawRoot hmem
    have heq := (List.mem_filter.mp hmem).2
    rwa [normalizeEffectiveAbsolutePath_eq_self hfree, beq_iff_eq] at heq
  unfold readOnlySubpaths
  simp only [mem_dedupAbsolutePaths_raw, List.mem_append, List.mem_filter, List.mem_filterMap,
    carveoutPath_eq hfree hraw]
  simp only [normalizeEffectiveAbsolutePath_eq_self hfree, defaultSubpaths]
  refine or_congr (and_congr_right fun _ => ?_) (exists_congr fun entry => ?_)
  · simp [hasExplicitResolvedPathEntry]
  · simp only [Bool.and_eq_true, Bool.not_eq_true', Option.ite_none_right_eq_some,
      Option.some.injEq]
    tauto

/-- **The writable roots without symlinks**: the writable entries at which the policy allows
    writing. -/
theorem mem_getWritableRootsWithCwd (hfree : host.SymlinkFree) {writable : WritableRoot} :
    writable ∈ policy.getWritableRootsWithCwd host cwd ↔
      policy.hasFullDiskWriteAccess = false ∧
        (∃ entry ∈ policy.resolvedEntriesWithCwd host cwd, entry.value.canWrite = true ∧
          policy.canWriteAt host cwd entry.path = true ∧ entry.path = writable.root) ∧
        writable.readOnlySubpaths = policy.readOnlySubpaths host cwd writable.root := by
  unfold getWritableRootsWithCwd
  by_cases hfull : policy.hasFullDiskWriteAccess = true
  · simp [hfull]
  · rw [if_neg hfull]
    simp only [Bool.not_eq_true] at hfull
    simp only [List.mem_map, mem_dedupAbsolutePaths hfree, writableEntries, List.mem_filter,
      Bool.and_eq_true, hfull, true_and]
    constructor
    · rintro ⟨_, ⟨entry, ⟨hmem, hwrite, hcan⟩, rfl⟩, rfl⟩
      exact ⟨⟨entry, hmem, hwrite, hcan, rfl⟩, rfl⟩
    · rintro ⟨⟨entry, hmem, hwrite, hcan, heq⟩, hsub⟩
      refine ⟨writable.root, ⟨entry, ⟨hmem, hwrite, hcan⟩, heq⟩, ?_⟩
      rw [← hsub]

end FileSystemSandboxPolicy

end CodexMonitor.Sandbox
