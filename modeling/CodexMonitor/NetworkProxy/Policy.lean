import CodexMonitor.Lib.AsciiCase
import CodexMonitor.Lib.Wildcards

namespace CodexMonitor.NetworkProxy

open Text

/-!
# Network proxy — hosts and domain patterns

What a request's host and a pattern of the configuration are turned into before they meet.
Enforcement and the managed constraints read the same pattern in two ways: enforcement
normalizes it as it does a host and expands it to globs, the constraints decode its wildcard
and hand the name to a URL parser.

* `normalizeHost` / `Host.parse` — the host of a request.
* `normalizePattern` / `expandDomainPattern` — the globs a pattern is enforced by.
* `compileAllowlistGlobset` / `compileDenylistGlobset` — the sets of globs, and their errors.
* `DomainPattern.parseForConstraints` / `DomainPattern.allows` — the pattern as the managed
  constraints compare it.
* `isMatch_compiled_iff` — what a compiled set matches, in terms of the patterns.
-/

/-- The crates behind the patterns: `globset` and `url`. -/
structure Externals where
  /-- `GlobBuilder::new(pattern).case_insensitive(true).build()`, and what the glob matches. -/
  glob : Text → Option (Text → Bool)
  /-- Whether `GlobSetBuilder::build` succeeds on the globs of these patterns. -/
  globSetBuilds : List Text → Bool
  /-- `url::Host::parse`, printed. -/
  urlHost : Text → Option Text

/-! ### Hosts -/

/-- `trim_end_matches('.')`. -/
def trimDots (t : Text) : Text := t.trimEndBy (· == '.')

def normalizeDnsHost (host : Text) : Text := trimDots (host.map asciiLower)

/-- What stands between a leading `[` and the first `]`. -/
def bracketed : Text → Option Text
  | '[' :: rest => if ']' ∈ rest then some (rest.takeWhile (· != ']')) else none
  | _ => none

/-- Trim whitespace, strip brackets or a port, lower-case, drop trailing dots. -/
def normalizeHost (host : Text) : Text :=
  match bracketed host.trim with
  | some inner => normalizeDnsHost inner
  | none =>
      -- only a single colon is taken for the one before a port
      if host.trim.count ':' = 1 then normalizeDnsHost (host.trim.takeWhile (· != ':'))
      else normalizeDnsHost host.trim

/-- A normalized host; it is not empty. -/
structure Host where
  asStr : Text
  nonempty : asStr ≠ []
  deriving DecidableEq

/-- The error is "host is empty". -/
def Host.parse (input : Text) : Option Host :=
  if h : normalizeHost input ≠ [] then some ⟨normalizeHost input, h⟩ else none

/-! ### Patterns, as they are enforced -/

/-- The wildcard before a pattern's name, and the name. -/
def splitWildcard (pattern : Text) : Text × Text :=
  match stripStart pattern "**.".toList with
  | some domain => ("**.".toList, domain)
  | none =>
      match stripStart pattern "*.".toList with
      | some domain => ("*.".toList, domain)
      | none => ([], pattern)

def normalizePattern (pattern : Text) : Text :=
  if pattern.trim = "*".toList then "*".toList
  else (splitWildcard pattern.trim).1 ++ normalizeHost (splitWildcard pattern.trim).2

inductive DomainPattern
  | apexAndSubdomains (domain : Text)
  | subdomainsOnly (domain : Text)
  | exact (domain : Text)
  deriving DecidableEq, Repr

namespace DomainPattern

def parseDomain (domain : Text) (build : Text → DomainPattern) : DomainPattern :=
  if domain.trim.isEmpty then .exact [] else build domain.trim

/-- Decode the wildcard of a normalized pattern. -/
def parse (input : Text) : DomainPattern :=
  if input.trim.isEmpty then .exact []
  else
    match stripStart input.trim "**.".toList with
    | some domain => parseDomain domain .apexAndSubdomains
    | none =>
        match stripStart input.trim "*.".toList with
        | some domain => parseDomain domain .subdomainsOnly
        | none => .exact input.trim

end DomainPattern

/-- The glob of all subdomains, without the apex. -/
def subdomainGlob (domain : Text) : Text := "?*.".toList ++ domain

/-- The globs of a decoded pattern. -/
def DomainPattern.globs : DomainPattern → List Text
  | .exact domain => [domain]
  | .subdomainsOnly domain => [subdomainGlob domain]
  | .apexAndSubdomains domain => [domain, subdomainGlob domain]

def expandDomainPattern (pattern : Text) : List Text := (DomainPattern.parse pattern).globs

def isGlobalWildcardDomainPattern (pattern : Text) : Bool :=
  (expandDomainPattern (normalizePattern pattern)).any (· == "*".toList)

/-! ### Letter case plays no part -/

section LetterCase

variable (t : Text)

theorem bracketed_map_asciiLower :
    bracketed (t.map asciiLower) = (bracketed t).map fun inner => inner.map asciiLower := by
  have hclose : ∀ rest : Text, ']' ∈ rest.map asciiLower ↔ ']' ∈ rest := by
    intro rest
    rw [← List.count_pos_iff, ← List.count_pos_iff, count_map_asciiLower rest (by decide)]
  cases t with
  | nil => rfl
  | cons c rest =>
    have hopen := asciiLower_eq_iff (d := '[') (by decide) c
    by_cases hc : c = '['
    · subst hc
      rw [List.map_cons, hopen.mpr rfl]
      simp only [bracketed, hclose]
      by_cases hmem : ']' ∈ rest
      · rw [if_pos hmem, if_pos hmem, takeWhile_map_asciiLower rest (by decide)]
        rfl
      · rw [if_neg hmem, if_neg hmem]
        rfl
    · have hnot : asciiLower c ≠ '[' := fun h => hc (hopen.mp h)
      rw [List.map_cons]
      unfold bracketed
      split
      · next heq => exact absurd (List.cons.inj heq).1 hnot
      · split
        · next heq => exact absurd (List.cons.inj heq).1 hc
        · rfl

theorem normalizeDnsHost_map_asciiLower :
    normalizeDnsHost (t.map asciiLower) = normalizeDnsHost t := by
  unfold normalizeDnsHost
  rw [map_asciiLower_idem]

theorem normalizeHost_map_asciiLower : normalizeHost (t.map asciiLower) = normalizeHost t := by
  unfold normalizeHost
  rw [trim_map_asciiLower, bracketed_map_asciiLower]
  cases bracketed t.trim with
  | some inner => exact normalizeDnsHost_map_asciiLower inner
  | none =>
    simp only [Option.map_none]
    rw [count_map_asciiLower _ (by decide), takeWhile_map_asciiLower _ (by decide),
      normalizeDnsHost_map_asciiLower, normalizeDnsHost_map_asciiLower]

theorem splitWildcard_map_asciiLower :
    splitWildcard (t.map asciiLower) =
      ((splitWildcard t).1, (splitWildcard t).2.map asciiLower) := by
  unfold splitWildcard
  rw [stripStart_map_asciiLower t (u := "**.".toList) (by simp),
    stripStart_map_asciiLower t (u := "*.".toList) (by simp)]
  cases stripStart t "**.".toList with
  | some domain => rfl
  | none =>
    cases stripStart t "*.".toList with
    | some domain => rfl
    | none => rfl

/-- **Letter case plays no part** in how a pattern is enforced. -/
theorem normalizePattern_map_asciiLower :
    normalizePattern (t.map asciiLower) = normalizePattern t := by
  have hstar := map_asciiLower_eq_iff t.trim (u := "*".toList) (by simp)
  unfold normalizePattern
  rw [trim_map_asciiLower, splitWildcard_map_asciiLower]
  simp only [hstar, normalizeHost_map_asciiLower]

end LetterCase

/-! ### Sets of globs -/

inductive GlobalWildcard
  | allow
  | reject
  deriving DecidableEq, Repr

/-- Why a list of patterns does not compile. -/
inductive CompileError
  /-- "unsupported global wildcard domain pattern" -/
  | globalWildcard
  /-- "invalid glob pattern: …" -/
  | invalidGlob (candidate : Text)
  | set
  deriving DecidableEq, Repr

/-- A compiled set, as the patterns of its globs. -/
structure GlobSet where
  patterns : List Text
  deriving DecidableEq, Repr

namespace Externals

variable (ext : Externals)

/-- The glob of the pattern builds and matches the text. -/
def globMatches (pattern text : Text) : Bool :=
  (ext.glob pattern).any fun glob => glob text

def isMatch (set : GlobSet) (host : Text) : Bool :=
  set.patterns.any fun pattern => ext.globMatches pattern host

/-- Add a glob, unless it was seen. -/
def addCandidate (built : List Text) (candidate : Text) : Except CompileError (List Text) :=
  if candidate ∈ built then .ok built
  else if (ext.glob candidate).isSome then .ok (built ++ [candidate])
  else .error (.invalidGlob candidate)

def addPattern (globalWildcard : GlobalWildcard) (built : List Text) (pattern : Text) :
    Except CompileError (List Text) :=
  if globalWildcard = .reject ∧ isGlobalWildcardDomainPattern pattern then .error .globalWildcard
  else (expandDomainPattern (normalizePattern pattern)).foldlM ext.addCandidate built

def compileGlobsetWithPolicy (patterns : List Text) (globalWildcard : GlobalWildcard) :
    Except CompileError GlobSet := do
  let built ← patterns.foldlM (ext.addPattern globalWildcard) []
  if ext.globSetBuilds built then .ok ⟨built⟩ else .error .set

def compileAllowlistGlobset (patterns : List Text) : Except CompileError GlobSet :=
  ext.compileGlobsetWithPolicy patterns .allow

def compileDenylistGlobset (patterns : List Text) : Except CompileError GlobSet :=
  ext.compileGlobsetWithPolicy patterns .reject

/-- The host is matched by a glob that the pattern expands to. -/
def enforces (pattern host : Text) : Bool :=
  (expandDomainPattern (normalizePattern pattern)).any fun glob => ext.globMatches glob host

section Compiled

variable {ext} {patterns built built' : List Text} {globalWildcard : GlobalWildcard}
  {set : GlobSet} {host : Text}

/-- A fold whose steps add the patterns `f x` adds those of all elements. -/
theorem mem_foldlM {step : List Text → Text → Except CompileError (List Text)}
    (f : Text → List Text)
    (hstep : ∀ built x built', step built x = .ok built' →
      ∀ c, c ∈ built' ↔ c ∈ built ∨ c ∈ f x)
    {xs : List Text} (h : xs.foldlM step built = .ok built') (c : Text) :
    c ∈ built' ↔ c ∈ built ∨ ∃ x ∈ xs, c ∈ f x := by
  induction xs generalizing built with
  | nil =>
    obtain rfl := Except.ok.inj h
    simp
  | cons x xs ih =>
    rw [List.foldlM_cons] at h
    cases hx : step built x with
    | error e =>
      rw [hx] at h
      cases h
    | ok next =>
      rw [hx] at h
      rw [ih h, hstep built x next hx, List.exists_mem_cons_iff, or_assoc]

theorem mem_addCandidate (built : List Text) (candidate : Text) (built' : List Text)
    (h : ext.addCandidate built candidate = .ok built') (c : Text) :
    c ∈ built' ↔ c ∈ built ∨ c ∈ [candidate] := by
  unfold addCandidate at h
  by_cases hseen : candidate ∈ built
  · rw [if_pos hseen] at h
    obtain rfl := Except.ok.inj h
    refine ⟨.inl, ?_⟩
    rintro (hmem | hnew)
    · exact hmem
    · exact List.mem_singleton.mp hnew ▸ hseen
  · rw [if_neg hseen] at h
    by_cases hbuilds : (ext.glob candidate).isSome
    · rw [if_pos hbuilds] at h
      obtain rfl := Except.ok.inj h
      exact List.mem_append
    · rw [if_neg hbuilds] at h
      cases h

theorem mem_addPattern (built : List Text) (pattern : Text) (built' : List Text)
    (h : ext.addPattern globalWildcard built pattern = .ok built') (c : Text) :
    c ∈ built' ↔ c ∈ built ∨ c ∈ expandDomainPattern (normalizePattern pattern) := by
  unfold addPattern at h
  split at h
  · cases h
  · have hmem := mem_foldlM (fun candidate => [candidate]) mem_addCandidate h c
    rw [hmem]
    simp only [List.mem_singleton, exists_eq_right']

/-- **A compiled set** holds the globs of its patterns. -/
theorem mem_compiled (h : ext.compileGlobsetWithPolicy patterns globalWildcard = .ok set)
    (glob : Text) : glob ∈ set.patterns ↔
      ∃ pattern ∈ patterns, glob ∈ expandDomainPattern (normalizePattern pattern) := by
  unfold compileGlobsetWithPolicy at h
  cases hbuilt : patterns.foldlM (ext.addPattern globalWildcard) [] with
  | error e =>
    rw [hbuilt] at h
    cases h
  | ok built =>
    rw [hbuilt] at h
    have hmem := mem_foldlM (fun pattern => expandDomainPattern (normalizePattern pattern))
      mem_addPattern hbuilt glob
    have hset : set.patterns = built := by
      simp only [Bind.bind, Except.bind] at h
      split at h
      · obtain rfl := Except.ok.inj h
        rfl
      · cases h
    rw [hset, hmem]
    simp

/-- **What a compiled set matches**: the hosts that one of its patterns matches. -/
theorem isMatch_compiled_iff
    (h : ext.compileGlobsetWithPolicy patterns globalWildcard = .ok set) :
    ext.isMatch set host = true ↔ ∃ pattern ∈ patterns, ext.enforces pattern host = true := by
  simp only [isMatch, enforces, List.any_eq_true]
  constructor
  · rintro ⟨glob, hglob, hmatch⟩
    obtain ⟨pattern, hpattern, hexpanded⟩ := (mem_compiled h glob).mp hglob
    exact ⟨pattern, hpattern, glob, hexpanded, hmatch⟩
  · rintro ⟨pattern, hpattern, glob, hexpanded, hmatch⟩
    exact ⟨glob, (mem_compiled h glob).mpr ⟨pattern, hpattern, hexpanded⟩, hmatch⟩

end Compiled

/-! ### Patterns, as the constraints compare them -/

/-- The name of a pattern, checked by the URL parser; empty where that one rejects it. -/
def parseDomainForConstraints (domain : Text) : Text :=
  let domain := trimDots domain.trim
  if domain.isEmpty then []
  else
    let host :=
      if startsWith domain ['['] && endsWith domain [']'] then domain.tail.dropLast else domain
    if '*' ∈ host ∨ '?' ∈ host ∨ '%' ∈ host then domain
    else (ext.urlHost host).getD []

end Externals

namespace DomainPattern

def parseForConstraints (ext : Externals) (input : Text) : DomainPattern :=
  if input.trim.isEmpty then .exact []
  else
    match stripStart input.trim "**.".toList with
    | some domain => .apexAndSubdomains (ext.parseDomainForConstraints domain)
    | none =>
        match stripStart input.trim "*.".toList with
        | some domain => .subdomainsOnly (ext.parseDomainForConstraints domain)
        | none => .exact (ext.parseDomainForConstraints input.trim)

end DomainPattern

def normalizeDomain (domain : Text) : Text := (trimDots domain).map asciiLower

def domainEq (left right : Text) : Bool := normalizeDomain left == normalizeDomain right

def isSubdomainOrEqual (child parent : Text) : Bool :=
  normalizeDomain child == normalizeDomain parent ||
    endsWith (normalizeDomain child) ('.' :: normalizeDomain parent)

def isStrictSubdomain (child parent : Text) : Bool :=
  normalizeDomain child != normalizeDomain parent &&
    endsWith (normalizeDomain child) ('.' :: normalizeDomain parent)

/-- A managed pattern allows a pattern of the configuration. -/
def DomainPattern.allows : DomainPattern → DomainPattern → Bool
  | .exact domain, .exact candidate => domainEq candidate domain
  | .exact _, _ => false
  | .subdomainsOnly domain, .exact candidate => isStrictSubdomain candidate domain
  | .subdomainsOnly domain, .subdomainsOnly candidate => isSubdomainOrEqual candidate domain
  | .subdomainsOnly domain, .apexAndSubdomains candidate => isStrictSubdomain candidate domain
  | .apexAndSubdomains domain, .exact candidate => isSubdomainOrEqual candidate domain
  | .apexAndSubdomains domain, .subdomainsOnly candidate => isSubdomainOrEqual candidate domain
  | .apexAndSubdomains domain, .apexAndSubdomains candidate => isSubdomainOrEqual candidate domain

end CodexMonitor.NetworkProxy
