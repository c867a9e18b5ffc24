import CodexMonitor.Sandbox.Roots

namespace CodexMonitor.Sandbox

open PrefixRules UnixPath

/-!
# Sandbox — metadata that is protected by default

A writable root keeps its existing `.git`, `.agents` and `.codex` read only, and the directory that
its `.git` file points to.  Each root does so for its own metadata only, and the platform
sandboxes let a path be written when one of the roots does.

* `DefaultProtected` — a protected path of a returned root, of which the entries say nothing.
* `Shielded` — every other directory above it that may be written keeps it, too.
* `protected_iff_shielded` — exactly then no returned root lets it be written.
* `nested_root_exposes` — one root in another, the shortest way to lose the protection.
-/

namespace FileSystemSandboxPolicy

variable {policy : FileSystemSandboxPolicy} {host : Host} {cwd r d : AbsPath}

/-- `d` is protected by default in the returned root `r`, and no entry stands for `d` or for a path
    below it. -/
structure DefaultProtected (policy : FileSystemSandboxPolicy) (host : Host) (cwd r d : AbsPath) :
    Prop where
  returned : ∃ writable ∈ policy.getWritableRootsWithCwd host cwd, writable.root = r
  default : d ∈ defaultSubpaths host cwd r
  noEntry : ∀ entry ∈ policy.resolvedEntriesWithCwd host cwd, ¬ d <+: entry.path

/-- No writable entry deeper than the root lies above the path. -/
def NoDeeperWritable (policy : FileSystemSandboxPolicy) (host : Host) (cwd r d : AbsPath) : Prop :=
  ∀ entry ∈ policy.resolvedEntriesWithCwd host cwd, entry.value.canWrite = true →
    entry.path <+: d → entry.path.length ≤ r.length

/-- No returned root lets a path at or below `d` be written. -/
def Protected (policy : FileSystemSandboxPolicy) (host : Host) (cwd d : AbsPath) : Prop :=
  ∀ writable ∈ policy.getWritableRootsWithCwd host cwd, ∀ path, d <+: path →
    writable.isPathWritable path = false

/-- **Every other directory above the path that the policy lets be written shields it**: at or
    above the path there is metadata of that directory without an entry, or an entry below the
    directory at which the policy does not allow writing. -/
def Shielded (policy : FileSystemSandboxPolicy) (host : Host) (cwd r d : AbsPath) : Prop :=
  ∀ entry ∈ policy.resolvedEntriesWithCwd host cwd, entry.value.canWrite = true →
    policy.canWriteAt host cwd entry.path = true → entry.path <+: d → entry.path ≠ r →
    (∃ metadata ∈ defaultSubpaths host cwd entry.path, metadata <+: d ∧
        ∀ e ∈ policy.resolvedEntriesWithCwd host cwd, e.path ≠ metadata) ∨
      ∃ e ∈ policy.resolvedEntriesWithCwd host cwd, e.value.canWrite = false ∧
        policy.canWriteAt host cwd e.path = false ∧ entry.path <+: e.path ∧ e.path ≠ entry.path ∧
        e.path <+: d

/-- A returned root above `d` keeps `d` read only when a read only subpath lies at or above it. -/
theorem exists_readOnly_iff (hfree : host.SymlinkFree) {root : AbsPath} :
    (∃ subpath ∈ policy.readOnlySubpaths host cwd root, subpath <+: d) ↔
      (∃ metadata ∈ defaultSubpaths host cwd root, metadata <+: d ∧
          ∀ e ∈ policy.resolvedEntriesWithCwd host cwd, e.path ≠ metadata) ∨
        ∃ e ∈ policy.resolvedEntriesWithCwd host cwd, e.value.canWrite = false ∧
          policy.canWriteAt host cwd e.path = false ∧ root <+: e.path ∧ e.path ≠ root ∧
          e.path <+: d := by
  constructor
  · rintro ⟨subpath, hmem, habove⟩
    rcases (mem_readOnlySubpaths hfree).mp hmem with ⟨hdefault, hfresh⟩ |
      ⟨e, he, hwrite, hcan, hbelow, hne, rfl⟩
    · exact .inl ⟨subpath, hdefault, habove, hfresh⟩
    · exact .inr ⟨e, he, hwrite, hcan, hbelow, hne, habove⟩
  · rintro (⟨metadata, hdefault, habove, hfresh⟩ | ⟨e, he, hwrite, hcan, hbelow, hne, habove⟩)
    · exact ⟨metadata, (mem_readOnlySubpaths hfree).mpr (.inl ⟨hdefault, hfresh⟩), habove⟩
    · exact ⟨e.path, (mem_readOnlySubpaths hfree).mpr
        (.inr ⟨e, he, hwrite, hcan, hbelow, hne, rfl⟩), habove⟩

/-- What a root lets be written below `d` it lets be written at `d`, as no root begins there. -/
theorem protected_iff_covers (h : DefaultProtected policy host cwd r d)
    (hfree : host.SymlinkFree) :
    Protected policy host cwd d ↔ ∀ writable ∈ policy.getWritableRootsWithCwd host cwd,
      ¬ writable.region.Covers d := by
  unfold Protected
  refine forall₂_congr fun writable hmem => ?_
  obtain ⟨-, ⟨entry, hentry, -, -, hroot⟩, -⟩ := (mem_getWritableRootsWithCwd hfree).mp hmem
  have hbegins : ¬ d <+: writable.region.root := by
    show ¬ d <+: writable.root
    rw [← hroot]
    exact h.noEntry entry hentry
  rw [← Region.exists_covers_below hbegins]
  simp only [← Bool.not_eq_true, WritableRoot.isPathWritable_iff]
  push Not
  rfl

/-- **When protected metadata is protected.** For every policy without full disk write access, no
    returned root lets anything at or below a protected path be written if and only if every
    other writable directory above it shields it. -/
theorem protected_iff_shielded (policy : FileSystemSandboxPolicy) (host : Host)
    (cwd r d : AbsPath) (hfree : host.SymlinkFree) (hfull : policy.hasFullDiskWriteAccess = false)
    (h : DefaultProtected policy host cwd r d) :
    Protected policy host cwd d ↔ Shielded policy host cwd r d := by
  rw [protected_iff_covers h hfree]
  constructor
  · intro hprotected entry hentry hwrite hcan habove _
    rw [← exists_readOnly_iff hfree]
    by_contra hnone
    push Not at hnone
    refine hprotected ⟨entry.path, policy.readOnlySubpaths host cwd entry.path⟩ ?_
      ⟨habove, hnone⟩
    exact (mem_getWritableRootsWithCwd hfree).mpr ⟨hfull, ⟨entry, hentry, hwrite, hcan, rfl⟩, rfl⟩
  · rintro hshielded writable hmem ⟨habove, hout⟩
    obtain ⟨-, ⟨entry, hentry, hwrite, hcan, hroot⟩, hsub⟩ :=
      (mem_getWritableRootsWithCwd hfree).mp hmem
    have hkeeps : ∃ subpath ∈ policy.readOnlySubpaths host cwd writable.root, subpath <+: d := by
      by_cases heq : writable.root = r
      · -- the root itself keeps `d`, for which there is no entry
        rw [heq]
        refine ⟨d, (mem_readOnlySubpaths hfree).mpr (.inl ⟨h.default, ?_⟩), List.prefix_rfl⟩
        intro e he hd
        exact h.noEntry e he (hd ▸ List.prefix_rfl)
      · rw [exists_readOnly_iff hfree, ← hroot]
        exact hshielded entry hentry hwrite hcan (hroot ▸ habove) (hroot ▸ heq)
    obtain ⟨subpath, hmem, habove⟩ := hkeeps
    refine hout subpath ?_ habove
    show subpath ∈ writable.readOnlySubpaths
    rw [hsub]
    exact hmem

/-! ### A root in a root -/

/-- The workspace `/w` may be written, and so may a directory in it. -/
def nestedPolicy (inner : String) : FileSystemSandboxPolicy :=
  restricted [⟨.special .root, .read⟩, ⟨.special (.projectRoots none), .write⟩,
    ⟨.path (absPath inner), .write⟩]

/-- The inner directory is a tool among the `.agents` of the workspace, which shield it. -/
def shieldedHost : Host :=
  Host.plain (["/w", "/w/.agents", "/w/.agents/tool", "/w/.agents/tool/.git"].map absPath) []

theorem protected_iff_shielded_agents :
    Protected (nestedPolicy "/w/.agents/tool") shieldedHost (absPath "/w")
      (absPath "/w/.agents/tool/.git") := by
  refine (protected_iff_shielded (nestedPolicy "/w/.agents/tool") shieldedHost (absPath "/w")
    (absPath "/w/.agents/tool") (absPath "/w/.agents/tool/.git") (Host.plain_symlinkFree _ _)
    (by decide +kernel) ⟨?_, ?_, ?_⟩).mpr ?_
  · exact ⟨⟨absPath "/w/.agents/tool", [absPath "/w/.agents/tool/.git"]⟩, by decide +kernel, rfl⟩
  · decide +kernel
  · decide +kernel
  · unfold Shielded
    decide +kernel

/-- The inner directory is a repository of its own. -/
def nestedHost : Host := Host.plain (["/w", "/w/lib", "/w/lib/.git"].map absPath) []

/-- The root `/w` lets the hooks in `/w/lib/.git` be written. -/
theorem nested_root_exposes : ¬ ∀ (policy : FileSystemSandboxPolicy) (host : Host)
    (cwd r d : AbsPath), policy.kind = .restricted → host.SymlinkFree →
      policy.hasFullDiskWriteAccess = false → DefaultProtected policy host cwd r d →
      NoDeeperWritable policy host cwd r d → Protected policy host cwd d := by
  intro h
  have hprotected := h (nestedPolicy "/w/lib") nestedHost (absPath "/w") (absPath "/w/lib")
    (absPath "/w/lib/.git") rfl (Host.plain_symlinkFree _ _) (by decide +kernel)
    ⟨⟨⟨absPath "/w/lib", [absPath "/w/lib/.git"]⟩, by decide +kernel, rfl⟩,
      by decide +kernel, by decide +kernel⟩
    (by unfold NoDeeperWritable; decide +kernel)
  have hexposed := hprotected ⟨absPath "/w", [absPath "/w/.codex"]⟩ (by decide +kernel)
    (absPath "/w/lib/.git/hooks/pre-commit") (by decide +kernel)
  exact absurd hexposed (by decide +kernel)

end FileSystemSandboxPolicy

end CodexMonitor.Sandbox
