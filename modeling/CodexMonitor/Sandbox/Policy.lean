import CodexMonitor.Lib.UnixPath
import CodexMonitor.Lib.PrefixRules

namespace CodexMonitor.Sandbox

open PrefixRules UnixPath

/-!
# Sandbox — the access a policy gives to a path

`permissions.rs` says by a list of entries what a sandboxed command may read and write: each gives
an access mode to a path, to the matches of a glob, or to a special path that is known only on
the machine and for a working directory.

* `FileSystemSandboxPolicy`, `Host` — the policy, and what the code asks of the machine.
* `resolveEntryPath`, `resolvedEntriesWithCwd` — the entries with the paths they stand for.
* `accessAt`, `resolveAccessWithCwd` — **the point view**: the most specific entry decides.
* `hasFullDiskReadAccess`, `hasFullDiskWriteAccess` — the shortcuts on the unresolved entries.
* `canWriteAt_iff`, `canReadAt_iff` — the point view in terms of the prefix rules.
-/

/-! ### Policies -/

inductive NetworkSandboxPolicy
  | restricted
  | enabled
  deriving DecidableEq, Repr

def NetworkSandboxPolicy.isEnabled (network : NetworkSandboxPolicy) : Bool := network == .enabled

/-- Access modes, in the order of their precedence. -/
inductive FileSystemAccessMode
  | read
  | write
  | none
  deriving DecidableEq, Repr

namespace FileSystemAccessMode

def rank : FileSystemAccessMode → Nat
  | read => 0
  | write => 1
  | none => 2

theorem rank_injective {a b : FileSystemAccessMode} (h : a.rank = b.rank) : a = b := by
  cases a <;> cases b <;> simp_all [rank]

instance : LinearOrder FileSystemAccessMode where
  le a b := a.rank ≤ b.rank
  le_refl a := Nat.le_refl a.rank
  le_trans _ _ _ := Nat.le_trans
  le_antisymm _ _ h h' := rank_injective (Nat.le_antisymm h h')
  le_total a b := Nat.le_total a.rank b.rank
  toDecidableLE a b := inferInstanceAs (Decidable (a.rank ≤ b.rank))
  toDecidableEq := inferInstance

def canRead (access : FileSystemAccessMode) : Bool := access != none

def canWrite (access : FileSystemAccessMode) : Bool := access == write

end FileSystemAccessMode

/-- Paths that are known only on the machine; unknown ones come from newer versions. -/
inductive FileSystemSpecialPath
  | root
  | minimal
  | projectRoots (subpath : Option Text)
  | tmpdir
  | slashTmp
  | unknown (path : Text) (subpath : Option Text)
  deriving DecidableEq, Repr

inductive FileSystemPath
  | path (path : AbsPath)
  | globPattern (pattern : Text)
  | special (value : FileSystemSpecialPath)
  deriving DecidableEq, Repr

structure FileSystemSandboxEntry where
  path : FileSystemPath
  access : FileSystemAccessMode
  deriving DecidableEq, Repr

inductive FileSystemSandboxKind
  | restricted
  | unrestricted
  | externalSandbox
  deriving DecidableEq, Repr

structure FileSystemSandboxPolicy where
  kind : FileSystemSandboxKind
  entries : List FileSystemSandboxEntry
  deriving DecidableEq, Repr

namespace FileSystemSandboxPolicy

def unrestricted : FileSystemSandboxPolicy := ⟨.unrestricted, []⟩

def externalSandbox : FileSystemSandboxPolicy := ⟨.externalSandbox, []⟩

def restricted (entries : List FileSystemSandboxEntry) : FileSystemSandboxPolicy :=
  ⟨.restricted, entries⟩

end FileSystemSandboxPolicy

/-! ### The machine -/

inductive FileType
  | file
  | dir
  | symlink
  deriving DecidableEq, Repr

/-- What the code asks of the machine: the home directory, the variable `TMPDIR`, the current
    directory of the process, and the file system as it is now. -/
structure Host where
  homeDir : Option AbsPath
  tmpdirVar : Option Text
  currentDir : Option AbsPath
  /-- The type of what is at the path itself. -/
  symlinkMetadata : AbsPath → Option FileType
  /-- The type of what the path leads to. -/
  metadata : AbsPath → Option FileType
  canonicalize : AbsPath → Option AbsPath
  readToString : AbsPath → Option Text

namespace Host

variable (host : Host)

def isDir (path : AbsPath) : Bool := host.metadata path == some .dir

def isFile (path : AbsPath) : Bool := host.metadata path == some .file

def pathExists (path : AbsPath) : Bool := (host.metadata path).isSome

/-- `AbsolutePathBuf::from_absolute_path`: a relative path is resolved against the current
    directory of the process. -/
def fromAbsolutePath (path : Text) : Option AbsPath :=
  match start? host.homeDir path with
  | some (dir, rest) => some (follow dir rest)
  | none => host.currentDir.map fun dir => follow dir (components path)

/-- No path involves a symlink. -/
structure SymlinkFree : Prop where
  noSymlink : ∀ path, host.symlinkMetadata path ≠ some .symlink
  canonical : ∀ path target, host.canonicalize path = some target → target = path

/-- A machine with these directories and files, without symlinks. -/
def plain (dirs : List AbsPath) (files : List (AbsPath × Text)) : Host where
  homeDir := none
  tmpdirVar := none
  currentDir := none
  symlinkMetadata path := fileType path
  metadata path := fileType path
  canonicalize path := if (fileType path).isSome then some path else none
  readToString path := (files.find? (·.1 == path)).map (·.2)
where
  fileType (path : AbsPath) : Option FileType :=
    if dirs.contains path then some .dir
    else if (files.map (·.1)).contains path then some .file
    else none

theorem plain_symlinkFree (dirs : List AbsPath) (files : List (AbsPath × Text)) :
    (plain dirs files).SymlinkFree := by
  constructor
  · intro path
    show plain.fileType dirs files path ≠ some .symlink
    unfold plain.fileType
    split_ifs <;> simp
  · intro path target h
    simp only [plain, Option.ite_none_right_eq_some, Option.some.injEq] at h
    exact h.2.symm

end Host

/-- The absolute path with this text. -/
def absPath (text : String) : AbsPath := follow [] (components text.toList)

def slashTmp : AbsPath := absPath "/tmp"

/-! ### Entries and the paths they stand for -/

section Resolution

variable (host : Host)

def resolveFileSystemSpecialPath (value : FileSystemSpecialPath) (cwd : AbsPath) :
    Option AbsPath :=
  match value with
  | .root | .minimal | .unknown _ _ => none
  | .projectRoots subpath =>
      match subpath with
      | some subpath => some (resolve host.homeDir subpath cwd)
      | none => some cwd
  | .tmpdir =>
      match host.tmpdirVar with
      | none => none
      | some tmpdir => if tmpdir.isEmpty then none else host.fromAbsolutePath tmpdir
  | .slashTmp => if host.isDir slashTmp then some slashTmp else none

def resolveFileSystemPath (path : FileSystemPath) (cwd : AbsPath) : Option AbsPath :=
  match path with
  | .path path => some path
  | .globPattern _ => none
  | .special value => resolveFileSystemSpecialPath host value cwd

/-- The working directory is absolute, and its root is the empty path. -/
def resolveEntryPath (path : FileSystemPath) (cwd : AbsPath) : Option AbsPath :=
  match path with
  | .special .root => some []
  | path => resolveFileSystemPath host path cwd

/-- The path of a request, relative ones from the working directory. -/
def resolveCandidatePath (path : Text) (cwd : AbsPath) : AbsPath :=
  if isAbsolute path then follow [] (components path) else resolve host.homeDir path cwd

end Resolution

/-- An entry with the path it stands for; the value of the rule is the access mode. -/
abbrev ResolvedFileSystemEntry := Rule Text FileSystemAccessMode

/-- `components().count()` counts the root as well. -/
def resolvedEntryPrecedence (entry : ResolvedFileSystemEntry) : ℕ ×ₗ FileSystemAccessMode :=
  toLex (entry.path.length + 1, entry.value)

/-- The deciding entry's access; `max_by_key` takes the last of the greatest. -/
def decidingAccess (entries : List ResolvedFileSystemEntry) (path : AbsPath) :
    FileSystemAccessMode :=
  match (entries.filter fun entry => entry.path.isPrefixOf path).reverse.argmax
      resolvedEntryPrecedence with
  | some entry => entry.value
  | none => .none

namespace FileSystemSandboxPolicy

variable (policy : FileSystemSandboxPolicy) (host : Host) (cwd : AbsPath)

def resolvedEntriesWithCwd : List ResolvedFileSystemEntry :=
  policy.entries.filterMap fun entry =>
    (resolveEntryPath host entry.path cwd).map fun path => ⟨path, entry.access⟩

/-- The access at an absolute normalized path. -/
def accessAt (path : AbsPath) : FileSystemAccessMode :=
  match policy.kind with
  | .unrestricted | .externalSandbox => .write
  | .restricted => decidingAccess (policy.resolvedEntriesWithCwd host cwd) path

def resolveAccessWithCwd (path : Text) : FileSystemAccessMode :=
  policy.accessAt host cwd (resolveCandidatePath host path cwd)

def canReadAt (path : AbsPath) : Bool := (policy.accessAt host cwd path).canRead

def canWriteAt (path : AbsPath) : Bool := (policy.accessAt host cwd path).canWrite

def canReadPathWithCwd (path : Text) : Bool := (policy.resolveAccessWithCwd host cwd path).canRead

def canWritePathWithCwd (path : Text) : Bool :=
  (policy.resolveAccessWithCwd host cwd path).canWrite

end FileSystemSandboxPolicy

/-! ### The shortcuts on the unresolved entries -/

/-- Special paths that are the same on every machine and for every working directory. -/
def specialPathsShareTarget (left right : FileSystemSpecialPath) : Bool :=
  match left, right with
  | .root, .root | .minimal, .minimal | .tmpdir, .tmpdir | .slashTmp, .slashTmp => true
  | .projectRoots left, .projectRoots right => sameSubpath left right
  | .unknown left leftSubpath, .unknown right rightSubpath =>
      left == right && sameSubpath leftSubpath rightSubpath
  | _, _ => false
where
  /-- `Option<PathBuf>` compares by components. -/
  sameSubpath (left right : Option Text) : Bool :=
    match left, right with
    | some left, some right => UnixPath.same left right
    | none, none => true
    | _, _ => false

def specialPathMatchesAbsolutePath (value : FileSystemSpecialPath) (path : AbsPath) : Bool :=
  match value with
  | .root => (UnixPath.parent path).isNone
  | .slashTmp => path == slashTmp
  | _ => false

def fileSystemPathsShareTarget (left right : FileSystemPath) : Bool :=
  match left, right with
  | .path left, .path right => left == right
  | .special left, .special right => specialPathsShareTarget left right
  | .path path, .special value | .special value, .path path =>
      specialPathMatchesAbsolutePath value path
  | .globPattern left, .globPattern right => left == right
  | .globPattern _, _ | _, .globPattern _ => false

namespace FileSystemSandboxPolicy

variable (policy : FileSystemSandboxPolicy)

def hasRootAccess (predicate : FileSystemAccessMode → Bool) : Bool :=
  policy.kind == .restricted &&
    policy.entries.any fun entry => entry.path == .special .root && predicate entry.access

def hasDeniedReadRestrictions : Bool :=
  policy.kind == .restricted && policy.entries.any fun entry => entry.access == .none

def hasSameTargetWriteOverride (entry : FileSystemSandboxEntry) : Bool :=
  policy.entries.any fun candidate =>
    candidate.access.canWrite && decide (candidate.access > entry.access) &&
      fileSystemPathsShareTarget candidate.path entry.path

/-- The entry reduces a broader grant of `:root`. -/
def narrowsWrite (entry : FileSystemSandboxEntry) : Bool :=
  if entry.access.canWrite then false
  else match entry.path with
    | .path _ => !policy.hasSameTargetWriteOverride entry
    | .globPattern _ => true
    | .special .root => entry.access == .none
    | .special .minimal | .special (.unknown _ _) => false
    | .special _ => !policy.hasSameTargetWriteOverride entry

def hasWriteNarrowingEntries : Bool :=
  policy.kind == .restricted && policy.entries.any policy.narrowsWrite

def hasFullDiskReadAccess : Bool :=
  match policy.kind with
  | .unrestricted | .externalSandbox => true
  | .restricted =>
      policy.hasRootAccess FileSystemAccessMode.canRead && !policy.hasDeniedReadRestrictions

def hasFullDiskWriteAccess : Bool :=
  match policy.kind with
  | .unrestricted | .externalSandbox => true
  | .restricted =>
      policy.hasRootAccess FileSystemAccessMode.canWrite && !policy.hasWriteNarrowingEntries

def includePlatformDefaults : Bool :=
  !policy.hasFullDiskReadAccess && policy.kind == .restricted &&
    policy.entries.any fun entry =>
      entry.path == .special .minimal && entry.access.canRead

end FileSystemSandboxPolicy

/-! ### The deciding entry -/

theorem resolvedEntryPrecedence_le {entry entry' : ResolvedFileSystemEntry} :
    resolvedEntryPrecedence entry ≤ resolvedEntryPrecedence entry' ↔
      entry.precedence ≤ entry'.precedence := by
  simp only [resolvedEntryPrecedence, Rule.precedence, Prod.Lex.toLex_le_toLex,
    Nat.add_lt_add_iff_right, Nat.add_right_cancel_iff]

variable {entries : List ResolvedFileSystemEntry} {path : AbsPath}
  {entry : ResolvedFileSystemEntry}

theorem mem_applying :
    entry ∈ (entries.filter fun entry => entry.path.isPrefixOf path).reverse ↔
      entry ∈ entries ∧ entry.path <+: path := by
  rw [List.mem_reverse, List.mem_filter, List.isPrefixOf_iff_prefix]

/-- **The deciding access is that of the entry which decides**, and none where no entry applies. -/
theorem decidingAccess_spec (entries : List ResolvedFileSystemEntry) (path : AbsPath) :
    (∃ entry, Decides entries path entry ∧ decidingAccess entries path = entry.value) ∨
      ((∀ entry ∈ entries, ¬ entry.path <+: path) ∧ decidingAccess entries path = .none) := by
  unfold decidingAccess
  cases hmax : (entries.filter fun entry => entry.path.isPrefixOf path).reverse.argmax
      resolvedEntryPrecedence with
  | none =>
    have hnil := List.argmax_eq_none.mp hmax
    refine .inr ⟨fun entry hentry happ => ?_, rfl⟩
    have hmem := mem_applying.mpr ⟨hentry, happ⟩
    rw [hnil] at hmem
    exact absurd hmem List.not_mem_nil
  | some entry =>
    obtain ⟨hentry, happ⟩ := mem_applying.mp (List.argmax_mem hmax)
    refine .inl ⟨entry, ⟨hentry, happ, fun entry' hentry' happ' => ?_⟩, rfl⟩
    have hle := List.le_of_mem_argmax (mem_applying.mpr ⟨hentry', happ'⟩) hmax
    exact resolvedEntryPrecedence_le.mp hle

/-- A mode other than none is the deciding access only where an entry with it decides. -/
theorem decidingAccess_iff_granted {good : FileSystemAccessMode → Bool} (hnone : good .none = false) :
    good (decidingAccess entries path) = true ↔ Granted (fun access => good access) entries path := by
  rcases decidingAccess_spec entries path with ⟨entry, hdecides, heq⟩ | ⟨hfree, heq⟩
  · rw [heq, hdecides.granted_iff]
  · rw [heq, hnone]
    constructor
    · intro h
      exact absurd h (by decide)
    · rintro ⟨entry, hdecides, _⟩
      exact absurd hdecides.applies (hfree entry hdecides.mem)

namespace FileSystemSandboxPolicy

variable {policy : FileSystemSandboxPolicy} {host : Host} {cwd : AbsPath}

theorem canWriteAt_iff (hkind : policy.kind = .restricted) :
    policy.canWriteAt host cwd path = true ↔
      Granted (fun access => access.canWrite) (policy.resolvedEntriesWithCwd host cwd) path := by
  rw [canWriteAt, accessAt, hkind]
  exact decidingAccess_iff_granted rfl

theorem canReadAt_iff (hkind : policy.kind = .restricted) :
    policy.canReadAt host cwd path = true ↔
      Granted (fun access => access.canRead) (policy.resolvedEntriesWithCwd host cwd) path := by
  rw [canReadAt, accessAt, hkind]
  exact decidingAccess_iff_granted rfl

theorem canWriteAt_of_unrestricted (hkind : policy.kind ≠ .restricted) :
    policy.canWriteAt host cwd path = true := by
  unfold canWriteAt accessAt
  split
  · rfl
  · rfl
  · exact absurd ‹_› hkind

theorem canReadAt_of_unrestricted (hkind : policy.kind ≠ .restricted) :
    policy.canReadAt host cwd path = true := by
  unfold canReadAt accessAt
  split
  · rfl
  · rfl
  · exact absurd ‹_› hkind

/-- The resolved entries are the entries that stand for a path here. -/
theorem mem_resolvedEntriesWithCwd :
    entry ∈ policy.resolvedEntriesWithCwd host cwd ↔
      ∃ e ∈ policy.entries, resolveEntryPath host e.path cwd = some entry.path ∧
        e.access = entry.value := by
  unfold resolvedEntriesWithCwd
  simp only [List.mem_filterMap, Option.map_eq_some_iff, Rule.ext_iff]
  constructor
  · rintro ⟨e, he, path, hpath, rfl, hvalue⟩
    exact ⟨e, he, hpath, hvalue⟩
  · rintro ⟨e, he, hpath, hvalue⟩
    exact ⟨e, he, entry.path, hpath, rfl, hvalue⟩

end FileSystemSandboxPolicy

end CodexMonitor.Sandbox
