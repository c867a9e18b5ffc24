import CodexMonitor.NetworkProxy.Policy

namespace CodexMonitor.NetworkProxy

open Text

/-!
# Network proxy — the configuration

The settings of the proxy.  Domain permissions are a list of entries in which a pattern may
occur more than once; the strongest permission of a pattern is the one in effect.

* `effectiveEntries` — one entry for each pattern, in the order of first occurrence.
* `allowedDomains` / `deniedDomains` — the patterns with a permission, if there are any.
* `upsertDomainPermission` — the change that a runtime decision makes.
* `validateUnixSocketAllowlistPaths` — the socket paths are absolute.
-/

inductive NetworkMode
  | limited
  | full
  deriving DecidableEq, Repr

/-- The mode in Rust's debug format. -/
def NetworkMode.debug : NetworkMode → Text
  | .limited => "Limited".toList
  | .full => "Full".toList

/-! ### Domain permissions -/

/-- What an entry says about its pattern; the order of the variants is their precedence. -/
inductive NetworkDomainPermission
  | none
  | allow
  | deny
  deriving DecidableEq, Repr

def NetworkDomainPermission.rank : NetworkDomainPermission → Nat
  | .none => 0
  | .allow => 1
  | .deny => 2

structure NetworkDomainPermissionEntry where
  pattern : Text
  permission : NetworkDomainPermission
  deriving DecidableEq, Repr

/-- One more entry: it joins the entry of its pattern, whose permission it may raise. -/
def joinEntry (entry : NetworkDomainPermissionEntry) :
    List NetworkDomainPermissionEntry → List NetworkDomainPermissionEntry
  | [] => [entry]
  | first :: rest =>
      if first.pattern = entry.pattern then
        (if first.permission.rank < entry.permission.rank then entry else first) :: rest
      else first :: joinEntry entry rest

/-- One entry for each pattern, with its strongest permission. -/
def effectiveEntries (entries : List NetworkDomainPermissionEntry) :
    List NetworkDomainPermissionEntry :=
  entries.foldl (fun effective entry => joinEntry entry effective) []

section JoinEntry

variable {entry first : NetworkDomainPermissionEntry}

theorem joinEntry_same (h : first.pattern = entry.pattern)
    (rest : List NetworkDomainPermissionEntry) : joinEntry entry (first :: rest) =
      (if first.permission.rank < entry.permission.rank then entry else first) :: rest := by
  rw [joinEntry, if_pos h]

theorem joinEntry_other (h : first.pattern ≠ entry.pattern)
    (rest : List NetworkDomainPermissionEntry) :
    joinEntry entry (first :: rest) = first :: joinEntry entry rest := by
  rw [joinEntry, if_neg h]

theorem filter_joinEntry (pattern : Text) (entries : List NetworkDomainPermissionEntry) :
    (joinEntry entry entries).filter (·.pattern = pattern) =
      if entry.pattern = pattern then joinEntry entry (entries.filter (·.pattern = pattern))
      else entries.filter (·.pattern = pattern) := by
  induction entries with
  | nil =>
    by_cases h : entry.pattern = pattern
    · simp [joinEntry, h]
    · simp [joinEntry, h]
  | cons first rest ih =>
    by_cases hfirst : first.pattern = entry.pattern
    · have hjoined : (if first.permission.rank < entry.permission.rank then entry
          else first).pattern = entry.pattern := by
        split
        · rfl
        · exact hfirst
      rw [joinEntry_same hfirst]
      by_cases h : entry.pattern = pattern
      · rw [if_pos h, List.filter_cons_of_pos (by rw [hjoined]; simpa using h),
          List.filter_cons_of_pos (by simpa using hfirst.trans h), joinEntry_same hfirst]
      · have hne : first.pattern ≠ pattern := fun heq => h (hfirst.symm.trans heq)
        rw [if_neg h, List.filter_cons_of_neg (by rw [hjoined]; simpa using h),
          List.filter_cons_of_neg (by simpa using hne)]
    · rw [joinEntry_other hfirst]
      by_cases hpattern : first.pattern = pattern
      · rw [List.filter_cons_of_pos (by simpa using hpattern),
          List.filter_cons_of_pos (by simpa using hpattern), ih]
        split
        · rw [joinEntry_other hfirst]
        · rfl
      · rw [List.filter_cons_of_neg (by simpa using hpattern),
          List.filter_cons_of_neg (by simpa using hpattern), ih]

end JoinEntry

/-- **The entry of a pattern** comes from the entries of that pattern alone. -/
theorem filter_effectiveEntries (pattern : Text) (entries : List NetworkDomainPermissionEntry) :
    (effectiveEntries entries).filter (·.pattern = pattern) =
      effectiveEntries (entries.filter (·.pattern = pattern)) := by
  induction entries using List.reverseRecOn with
  | nil => rfl
  | append_singleton entries entry ih =>
    unfold effectiveEntries at ih ⊢
    rw [List.foldl_append, List.foldl_cons, List.foldl_nil, filter_joinEntry, ih,
      List.filter_append]
    by_cases h : entry.pattern = pattern
    · rw [if_pos h, List.filter_cons_of_pos (by simpa using h), List.filter_nil,
        List.foldl_append]
      rfl
    · rw [if_neg h, List.filter_cons_of_neg (by simpa using h), List.filter_nil, List.append_nil]

/-! ### Settings -/

inductive NetworkUnixSocketPermission
  | allow
  | none
  deriving DecidableEq, Repr

/-- `config.network`; `domains` holds the entries of `NetworkDomainPermissions`, `unixSockets`
    those of the sorted map of `NetworkUnixSocketPermissions`. -/
structure NetworkProxySettings where
  enabled : Bool := false
  proxyUrl : Text := "http://127.0.0.1:3128".toList
  enableSocks5 : Bool := true
  socksUrl : Text := "http://127.0.0.1:8081".toList
  enableSocks5Udp : Bool := true
  allowUpstreamProxy : Bool := true
  dangerouslyAllowNonLoopbackProxy : Bool := false
  dangerouslyAllowAllUnixSockets : Bool := false
  mode : NetworkMode := .full
  domains : Option (List NetworkDomainPermissionEntry) := none
  unixSockets : Option (List (Text × NetworkUnixSocketPermission)) := none
  allowLocalBinding : Bool := false
  mitm : Bool := false
  deriving DecidableEq, Repr

structure NetworkProxyConfig where
  network : NetworkProxySettings := {}
  deriving DecidableEq, Repr

namespace NetworkProxySettings

variable (settings : NetworkProxySettings)

/-- The patterns whose effective permission is the given one; `none` for an empty list. -/
def domainEntries (permission : NetworkDomainPermission) : Option (List Text) :=
  (settings.domains.map fun entries =>
    ((effectiveEntries entries).filter (·.permission = permission)).map
      NetworkDomainPermissionEntry.pattern).filter fun patterns => !patterns.isEmpty

def allowedDomains : Option (List Text) := settings.domainEntries .allow

def deniedDomains : Option (List Text) := settings.domainEntries .deny

def allowUnixSockets : List Text :=
  ((settings.unixSockets.getD []).filter (·.2 = .allow)).map Prod.fst

/-- The entry of a host replaces those whose patterns normalize alike. -/
def upsertDomainPermission (host : Text) (permission : NetworkDomainPermission)
    (normalize : Text → Text) : NetworkProxySettings :=
  { settings with
    domains := some (((settings.domains.getD []).filter fun entry =>
      normalize entry.pattern ≠ normalize host) ++ [⟨host, permission⟩]) }

/-- The patterns with a permission, one by one. -/
theorem mem_domainEntries {pattern : Text} {permission : NetworkDomainPermission} :
    pattern ∈ (settings.domainEntries permission).getD [] ↔
      ⟨pattern, permission⟩ ∈ effectiveEntries
        ((settings.domains.getD []).filter (·.pattern = pattern)) := by
  have hlist : (settings.domainEntries permission).getD [] =
      ((effectiveEntries (settings.domains.getD [])).filter (·.permission = permission)).map
        NetworkDomainPermissionEntry.pattern := by
    unfold domainEntries
    cases settings.domains with
    | none => rfl
    | some entries =>
      rw [Option.map_some, Option.filter_some, Option.getD_some]
      split
      · rfl
      next hempty => simpa using hempty
  rw [hlist, ← filter_effectiveEntries, List.mem_map, List.mem_filter]
  constructor
  · rintro ⟨entry, hentry, rfl⟩
    obtain ⟨hmem, hpermission⟩ := List.mem_filter.mp hentry
    rw [decide_eq_true_eq] at hpermission
    subst hpermission
    exact ⟨hmem, by simp⟩
  · rintro ⟨hmem, -⟩
    exact ⟨_, List.mem_filter.mpr ⟨hmem, by simp⟩, rfl⟩

/-- **After a decision about a host** its pattern is the host, with the new permission; the
    patterns of other hosts are as before. -/
theorem mem_domainEntries_upsert {host pattern : Text} {permission other : NetworkDomainPermission}
    {normalize : Text → Text} (hhost : normalize host = host) :
    pattern ∈ ((settings.upsertDomainPermission host permission normalize).domainEntries
        other).getD [] ↔
      if normalize pattern = host then pattern = host ∧ other = permission
      else pattern ∈ (settings.domainEntries other).getD [] := by
  have hentries : (((settings.upsertDomainPermission host permission normalize).domains).getD
      []).filter (·.pattern = pattern) =
      ((settings.domains.getD []).filter (·.pattern = pattern)).filter
          (fun entry => normalize entry.pattern ≠ host) ++
        [(⟨host, permission⟩ : NetworkDomainPermissionEntry)].filter (·.pattern = pattern) := by
    unfold upsertDomainPermission
    rw [Option.getD_some, List.filter_append, hhost, List.filter_comm]
  rw [mem_domainEntries, hentries]
  by_cases hpattern : normalize pattern = host
  · have hnone : ((settings.domains.getD []).filter (·.pattern = pattern)).filter
        (fun entry => normalize entry.pattern ≠ host) = [] := by
      rw [List.filter_eq_nil_iff]
      intro entry hentry
      have heq : entry.pattern = pattern := by simpa using (List.mem_filter.mp hentry).2
      simp [heq, hpattern]
    rw [if_pos hpattern, hnone, List.nil_append]
    by_cases hsame : host = pattern
    · rw [List.filter_cons_of_pos (by simpa using hsame), List.filter_nil]
      simp [effectiveEntries, joinEntry, hsame]
    · rw [List.filter_cons_of_neg (by simpa using hsame), List.filter_nil]
      simp [effectiveEntries, Ne.symm hsame]
  · have hall : ((settings.domains.getD []).filter (·.pattern = pattern)).filter
        (fun entry => normalize entry.pattern ≠ host) =
          (settings.domains.getD []).filter (·.pattern = pattern) := by
      rw [List.filter_eq_self]
      intro entry hentry
      have heq : entry.pattern = pattern := by simpa using (List.mem_filter.mp hentry).2
      simpa [heq] using hpattern
    have hne : host ≠ pattern := by
      rintro rfl
      exact hpattern hhost
    rw [if_neg hpattern, hall, List.filter_cons_of_neg (by simpa using hne), List.filter_nil,
      List.append_nil, mem_domainEntries]

end NetworkProxySettings

/-! ### Socket paths -/

/-- `ValidatedUnixSocketPath::parse` succeeds: the path is absolute. -/
def validatedUnixSocketPath (socketPath : Text) : Bool := startsWith socketPath ['/']

/-- The index is that of the first path in "invalid network.allow_unix_sockets[…]". -/
def validateUnixSocketAllowlistPaths (config : NetworkProxyConfig) : Except Nat Unit :=
  match config.network.allowUnixSockets.findIdx? fun path => !validatedUnixSocketPath path with
  | some index => .error index
  | none => .ok ()

end CodexMonitor.NetworkProxy
