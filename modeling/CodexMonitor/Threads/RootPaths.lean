import CodexMonitor.Lib.CaseMapping
import CodexMonitor.Lib.TextLength
import CodexMonitor.Lib.Tasks

namespace CodexMonitor.Threads

open Text

/-!
# Threads — the workspace of a path

Backend and frontend each find the workspace in which a thread works, from the directory of
the thread and the roots of the workspaces.  Both normalise the paths and look for the longest
root that the directory lies in.

* `Backend.normalizeRootPath`, `Backend.resolveWorkspaceForCwd` — `app_server.rs`.
* `Frontend.normalizeRootPath`, `Frontend.buildWorkspacePathLookup`,
  `Frontend.resolveWorkspaceIdForThreadPath` — `threadNormalize.ts`, `threadActionHelpers.ts`.

The paths that are looked up in a record of the frontend are not among the names that every
object has.
-/

/-- `value.replace('\\', "/")`, without the slashes at the end. -/
def withForwardSlashes (value : Text) : Text :=
  trimEndBy (· = '/') (value.map fun c => if c = '\\' then '/' else c)

/-- A letter, a colon and a slash. -/
def isDrivePath : Text → Bool
  | c :: ':' :: '/' :: _ => c.isAlpha
  | _ => false

/-- The paths whose case does not matter: those with a drive, and those of a network. -/
def foldsCase (path : Text) : Bool := isDrivePath path || startsWith path "//".toList

/-! ### The backend -/

namespace Backend

def withoutNamespace (normalized : Text) : Text :=
  let lower := normalized.map asciiLower
  if startsWith lower "//?/unc/".toList then "//".toList ++ normalized.drop 8
  else if startsWith lower "//?/".toList || startsWith lower "//./".toList then normalized.drop 4
  else normalized

def normalizeRootPath (value : Text) : Text :=
  let normalized := withForwardSlashes value
  if normalized.isEmpty then []
  else
    let normalized := withoutNamespace normalized
    if normalized.isEmpty then []
    else if foldsCase normalized then normalized.map asciiLower
    else normalized

def isMatch (normalizedCwd root : Text) : Bool :=
  let isExactMatch := root = normalizedCwd
  let isNestedMatch := byteLen normalizedCwd > byteLen root && startsWith normalizedCwd root &&
    (normalizedCwd.drop root.length).head? = some '/'
  isExactMatch || isNestedMatch

/-- `Iterator::max_by_key`: of several elements with the largest key the last. -/
def maxByKey {α : Type} (key : α → Nat) (items : List α) : Option α :=
  items.foldl (fun best item => match best with
    | none => some item
    | some b => if key b ≤ key item then some item else some b) none

/-- The workspaces whose root the directory lies in, with the length of the root. -/
def candidates (normalizedCwd : Text) (workspaceRoots : List (Text × Text)) : List (Text × Nat) :=
  workspaceRoots.filterMap fun entry =>
    if entry.2.isEmpty then none
    else if isMatch normalizedCwd entry.2 then some (entry.1, byteLen entry.2)
    else none

/-- The map of roots is given in the order in which it is iterated. -/
def resolveWorkspaceForCwd (cwd : Text) (workspaceRoots : List (Text × Text)) : Option Text :=
  let normalizedCwd := normalizeRootPath cwd
  if normalizedCwd.isEmpty then none
  else (maxByKey Prod.snd (candidates normalizedCwd workspaceRoots)).map Prod.fst

end Backend

/-! ### The frontend -/

structure WorkspaceInfo where
  id : Text
  path : Text
  deriving DecidableEq, Repr

structure WorkspacePathLookup where
  workspaceIdsByPath : Registry Text (List Text) := ∅
  workspacePathsSorted : List Text := []

namespace Frontend

/-- The tests `/^\/\/\?\/unc\//i` and `/^\/\/[?.]\//`. -/
def withoutNamespace (normalized : Text) : Text :=
  if eqIgnoreAsciiCase (normalized.take 8) "//?/unc/".toList then
    "//".toList ++ normalized.drop 8
  else match normalized with
    | '/' :: '/' :: c :: '/' :: rest => if c = '?' || c = '.' then rest else normalized
    | _ => normalized

variable (m : CaseMapping)

def normalizeRootPath (value : Text) : Text :=
  let normalized := withForwardSlashes value
  if normalized.isEmpty then []
  else
    let withoutNamespace := withoutNamespace normalized
    if withoutNamespace.isEmpty then []
    else if foldsCase withoutNamespace then m.toLowerCase withoutNamespace
    else withoutNamespace

def isWithinWorkspaceRoot (path workspaceRoot : Text) : Bool :=
  !path.isEmpty && !workspaceRoot.isEmpty &&
    (path = workspaceRoot ||
      (utf16Len path > utf16Len workspaceRoot && startsWith path workspaceRoot &&
        (path.drop workspaceRoot.length).head? = some '/'))

/-- The body of the loop over the workspaces. -/
def addWorkspace (lookup : WorkspacePathLookup) (workspace : WorkspaceInfo) :
    WorkspacePathLookup :=
  let workspacePath := normalizeRootPath m workspace.path
  if workspacePath.isEmpty then lookup
  else match lookup.workspaceIdsByPath.lookup workspacePath with
    | some ids =>
        { lookup with
          workspaceIdsByPath :=
            lookup.workspaceIdsByPath.insert workspacePath (ids ++ [workspace.id]) }
    | none =>
        { workspaceIdsByPath := lookup.workspaceIdsByPath.insert workspacePath [workspace.id]
          workspacePathsSorted := lookup.workspacePathsSorted ++ [workspacePath] }

def buildWorkspacePathLookup (workspaces : List WorkspaceInfo) : WorkspacePathLookup :=
  let lookup := workspaces.foldl (addWorkspace m) {}
  { lookup with
    workspacePathsSorted :=
      lookup.workspacePathsSorted.mergeSort fun a b => decide (utf16Len b ≤ utf16Len a) }

def resolveWorkspaceIdForThreadPath (path : Text) (lookup : WorkspacePathLookup)
    (allowedWorkspaceIds : Option (List Text)) : Option Text :=
  let normalizedPath := normalizeRootPath m path
  if normalizedPath.isEmpty then none
  else match lookup.workspacePathsSorted.find? (isWithinWorkspaceRoot normalizedPath) with
    | none => none
    | some matchedWorkspacePath =>
        let workspaceIds := (lookup.workspaceIdsByPath.lookup matchedWorkspacePath).getD []
        match allowedWorkspaceIds with
        | none => workspaceIds.head?
        | some allowed => workspaceIds.find? fun workspaceId => allowed.contains workspaceId

end Frontend

/-! ### Lying in a root -/

/-- The path is the root, or goes on behind it with a slash. -/
def Within (path root : Text) : Prop :=
  root ≠ [] ∧ (path = root ∨ ∃ rest, path = root ++ '/' :: rest)

section Within

variable {path root other : Text}

/-- What the tests of both sides say, whatever they measure lengths in. -/
theorem within_iff_below (hroot : root ≠ []) : Within path root ↔
    path = root ∨ startsWith path root = true ∧ (path.drop root.length).head? = some '/' := by
  unfold Within startsWith
  rw [List.isPrefixOf_iff_prefix]
  constructor
  · rintro ⟨_, rfl | ⟨rest, rfl⟩⟩
    · exact .inl rfl
    · exact .inr ⟨List.prefix_append root _, by simp⟩
  · rintro (heq | ⟨⟨rest, rfl⟩, hhead⟩)
    · exact ⟨hroot, .inl heq⟩
    · rw [List.drop_left] at hhead
      cases rest with
      | nil => cases hhead
      | cons c rest =>
        obtain rfl := Option.some.inj hhead
        exact ⟨hroot, .inr ⟨rest, rfl⟩⟩

theorem Within.prefix (h : Within path root) : root <+: path := by
  rcases h.2 with rfl | ⟨rest, rfl⟩
  · exact List.prefix_refl _
  · exact List.prefix_append _ _

/-- Of two roots of a path one lies in the other. -/
theorem Within.within_of_prefix (h : Within path root) (ho : Within path other)
    (hbelow : root <+: other) : Within other root := by
  obtain ⟨d, rfl⟩ := hbelow
  refine ⟨h.1, ?_⟩
  cases d with
  | nil => exact .inl (List.append_nil root)
  | cons c d =>
    have hother := ho.prefix
    rcases h.2 with rfl | ⟨rest, rfl⟩
    · have hlen := hother.length_le
      rw [List.length_append, List.length_cons] at hlen
      omega
    · obtain ⟨rfl, _⟩ := List.cons_prefix_cons.mp ((List.prefix_append_right_inj root).mp hother)
      exact .inr ⟨d, rfl⟩

/-- Of two roots of a path one lies in the other. -/
theorem Within.total (h : Within path root) (ho : Within path other) :
    Within other root ∨ Within root other := by
  rcases List.prefix_or_prefix_of_prefix h.prefix ho.prefix with hp | hp
  · exact .inl (h.within_of_prefix ho hp)
  · exact .inr (ho.within_of_prefix h hp)

theorem Within.refl (hroot : root ≠ []) : Within root root := ⟨hroot, .inl rfl⟩

section Measures

variable {len : Text → Nat} (hlen : ∀ t u, len (t ++ u) = len t + len u)
  (hpos : ∀ c t, 0 < len (c :: t))

include hlen hpos

/-- A path is longer than the roots it lies in, but for itself. -/
theorem Within.eq_or_len_lt (h : Within path root) : path = root ∨ len root < len path := by
  rcases h.2 with rfl | ⟨rest, rfl⟩
  · exact .inl rfl
  · have := hpos '/' rest
    rw [hlen]
    exact .inr (by omega)

/-- **The roots of a path are told apart by their lengths**, and the longer lies in the
    shorter. -/
theorem Within.within_of_len_le (h : Within path root) (ho : Within path other)
    (hle : len root ≤ len other) : Within other root := by
  rcases h.total ho with hin | hin
  · exact hin
  · rcases hin.eq_or_len_lt hlen hpos with rfl | hlt
    · exact Within.refl h.1
    · omega

end Measures

theorem isMatch_iff (hroot : root ≠ []) : Backend.isMatch path root = true ↔ Within path root := by
  rw [within_iff_below hroot]
  unfold Backend.isMatch
  simp only [Bool.or_eq_true, decide_eq_true_eq, Bool.and_eq_true, eq_comm (a := root)]
  refine or_congr_right ⟨fun h => ⟨h.1.2, h.2⟩, fun h => ⟨⟨?_, h.1⟩, h.2⟩⟩
  rcases ((within_iff_below hroot).mpr (.inr h)).eq_or_len_lt byteLen_append byteLen_cons_pos with
    rfl | hlt
  · simp at h
  · exact hlt

theorem isWithinWorkspaceRoot_iff :
    Frontend.isWithinWorkspaceRoot path root = true ↔ Within path root := by
  by_cases hroot : root = []
  · simp [Frontend.isWithinWorkspaceRoot, Within, hroot]
  · rw [within_iff_below hroot]
    unfold Frontend.isWithinWorkspaceRoot
    simp only [Bool.or_eq_true, decide_eq_true_eq, Bool.and_eq_true, Bool.not_eq_true',
      List.isEmpty_eq_false_iff]
    constructor
    · rintro ⟨_, heq | ⟨⟨_, hstart⟩, hhead⟩⟩
      · exact .inl heq
      · exact .inr ⟨hstart, hhead⟩
    · intro h
      have hwithin := (within_iff_below hroot).mpr h
      have hpath : path ≠ [] := by
        rintro rfl
        exact hroot (List.prefix_nil.mp hwithin.prefix)
      refine ⟨⟨hpath, hroot⟩, ?_⟩
      rcases h with heq | ⟨hstart, hhead⟩
      · exact .inl heq
      · rcases hwithin.eq_or_len_lt utf16Len_append utf16Len_cons_pos with rfl | hlt
        · simp at hhead
        · exact .inr ⟨⟨hlt, hstart⟩, hhead⟩

end Within

/-! ### The two normal forms -/

section NormalForms

variable (m : CaseMapping) {value path root t : Text}

theorem isAlpha_asciiLower (c : Char) : (asciiLower c).isAlpha = c.isAlpha := by
  by_cases hc : c.toNat < 128
  · exact (CaseMapping.asciiLower_ascii c hc).2.2.1
  · rw [CaseMapping.asciiLower_of_ge (by omega)]

theorem isDrivePath_iff : isDrivePath t = true ↔
    ∃ c rest, t = c :: ':' :: '/' :: rest ∧ c.isAlpha = true := by
  unfold isDrivePath
  split
  · next c rest =>
    constructor
    · intro h
      exact ⟨c, rest, rfl, h⟩
    · rintro ⟨c', rest', heq, h⟩
      cases heq
      exact h
  · next hno =>
    constructor
    · intro h
      cases h
    · rintro ⟨c, rest, rfl, _⟩
      exact absurd rfl (hno c rest)

theorem foldsCase_iff : foldsCase t = true ↔
    (∃ c rest, t = c :: ':' :: '/' :: rest ∧ c.isAlpha = true) ∨ ∃ rest, t = '/' :: '/' :: rest := by
  unfold foldsCase startsWith
  rw [Bool.or_eq_true, isDrivePath_iff, List.isPrefixOf_iff_prefix]
  refine or_congr_right ?_
  constructor
  · rintro ⟨rest, rfl⟩
    exact ⟨rest, rfl⟩
  · rintro ⟨rest, rfl⟩
    exact ⟨rest, rfl⟩

/-- Whether the case is folded does not depend on the case. -/
theorem foldsCase_map (t : Text) : foldsCase (t.map asciiLower) = foldsCase t := by
  rw [Bool.eq_iff_iff, foldsCase_iff, foldsCase_iff]
  have hslash := asciiLower_eq_iff (d := '/') (by decide)
  have hcolon := asciiLower_eq_iff (d := ':') (by decide)
  constructor
  · rintro (⟨c, rest, heq, hc⟩ | ⟨rest, heq⟩)
    · obtain ⟨c, t1, rfl, rfl, h1⟩ := List.map_eq_cons_iff.mp heq
      obtain ⟨c2, t2, rfl, h2, h3⟩ := List.map_eq_cons_iff.mp h1
      obtain ⟨c3, t3, rfl, h4, _⟩ := List.map_eq_cons_iff.mp h3
      obtain rfl := (hcolon c2).mp h2
      obtain rfl := (hslash c3).mp h4
      exact .inl ⟨c, t3, rfl, by rwa [isAlpha_asciiLower] at hc⟩
    · obtain ⟨c, t1, rfl, h0, h1⟩ := List.map_eq_cons_iff.mp heq
      obtain ⟨c2, t2, rfl, h2, _⟩ := List.map_eq_cons_iff.mp h1
      obtain rfl := (hslash c).mp h0
      obtain rfl := (hslash c2).mp h2
      exact .inr ⟨t2, rfl⟩
  · rintro (⟨c, rest, rfl, hc⟩ | ⟨rest, rfl⟩)
    · refine .inl ⟨asciiLower c, rest.map asciiLower, ?_, by rwa [isAlpha_asciiLower]⟩
      rw [List.map_cons, List.map_cons, List.map_cons, (hcolon ':').mpr rfl, (hslash '/').mpr rfl]
    · refine .inr ⟨rest.map asciiLower, ?_⟩
      rw [List.map_cons, List.map_cons, (hslash '/').mpr rfl]

/-- A test on the lower-cased text is a test up to case. -/
theorem startsWith_map_iff {p : Text} (hp : p.map asciiLower = p) :
    startsWith (t.map asciiLower) p = eqIgnoreAsciiCase (t.take p.length) p := by
  unfold startsWith eqIgnoreAsciiCase
  rw [Bool.eq_iff_iff, List.isPrefixOf_iff_prefix, List.prefix_iff_eq_take, beq_iff_eq, hp,
    List.map_take, eq_comm]

/-- The namespace of the device, whose two forms differ in one character. -/
theorem startsWith_device_iff {d : Char} (hd : d = '?' ∨ d = '.') :
    startsWith (t.map asciiLower) ['/', '/', d, '/'] = true ↔
      ∃ rest, t = '/' :: '/' :: d :: '/' :: rest := by
  have hslash := asciiLower_eq_iff (d := '/') (by decide)
  have hdevice := asciiLower_eq_iff (d := d) (by rcases hd with rfl | rfl <;> decide)
  unfold startsWith
  rw [List.isPrefixOf_iff_prefix]
  constructor
  · rintro ⟨r, heq⟩
    obtain ⟨c1, t1, rfl, h1, hr1⟩ := List.map_eq_cons_iff.mp heq.symm
    obtain ⟨c2, t2, rfl, h2, hr2⟩ := List.map_eq_cons_iff.mp hr1
    obtain ⟨c3, t3, rfl, h3, hr3⟩ := List.map_eq_cons_iff.mp hr2
    obtain ⟨c4, t4, rfl, h4, _⟩ := List.map_eq_cons_iff.mp hr3
    rw [hslash] at h1 h2 h4
    rw [hdevice] at h3
    exact ⟨t4, by rw [h1, h2, h3, h4]⟩
  · rintro ⟨rest, rfl⟩
    refine ⟨rest.map asciiLower, ?_⟩
    simp only [List.map_cons, (hslash '/').mpr rfl, (hdevice d).mpr rfl]
    rfl

/-- The two ways to drop a namespace are the same. -/
theorem withoutNamespace_eq (t : Text) :
    Backend.withoutNamespace t = Frontend.withoutNamespace t := by
  unfold Backend.withoutNamespace Frontend.withoutNamespace
  have hunc : startsWith (t.map asciiLower) "//?/unc/".toList =
      eqIgnoreAsciiCase (t.take 8) "//?/unc/".toList := startsWith_map_iff (by decide)
  simp only [hunc]
  by_cases huncb : eqIgnoreAsciiCase (t.take 8) "//?/unc/".toList = true
  · rw [if_pos huncb, if_pos huncb]
  · rw [if_neg huncb, if_neg huncb]
    have hquestion := startsWith_device_iff (t := t) (d := '?') (.inl rfl)
    have hdot := startsWith_device_iff (t := t) (d := '.') (.inr rfl)
    by_cases hdevice : ∃ d rest, (d = '?' ∨ d = '.') ∧ t = '/' :: '/' :: d :: '/' :: rest
    · obtain ⟨d, rest, hd, rfl⟩ := hdevice
      have htest : (startsWith (('/' :: '/' :: d :: '/' :: rest).map asciiLower) "//?/".toList ||
          startsWith (('/' :: '/' :: d :: '/' :: rest).map asciiLower) "//./".toList) = true := by
        rw [Bool.or_eq_true]
        rcases hd with rfl | rfl
        · exact .inl (hquestion.mpr ⟨rest, rfl⟩)
        · exact .inr (hdot.mpr ⟨rest, rfl⟩)
      rw [if_pos htest]
      have hdb : (d = '?' || d = '.') = true := by simpa using hd
      show rest = if (d = '?' || d = '.') = true then rest else _
      rw [if_pos hdb]
    · have htest : ¬ (startsWith (t.map asciiLower) "//?/".toList ||
          startsWith (t.map asciiLower) "//./".toList) = true := by
        rw [Bool.or_eq_true]
        rintro (h | h)
        · obtain ⟨rest, hrest⟩ := hquestion.mp h
          exact hdevice ⟨'?', rest, .inl rfl, hrest⟩
        · obtain ⟨rest, hrest⟩ := hdot.mp h
          exact hdevice ⟨'.', rest, .inr rfl, hrest⟩
      rw [if_neg htest]
      split
      · next c rest =>
        have hc : ¬ (c = '?' || c = '.') = true := by
          intro h
          exact hdevice ⟨c, rest, by simpa using h, rfl⟩
        rw [if_neg hc]
      · rfl

/-- The lower case of the frontend on a path of the backend. -/
def recase (path : Text) : Text := if foldsCase path then m.toLowerCase path else path

/-- **The frontend folds more.** Its normal form is a function of that of the backend. -/
theorem normalizeRootPath_eq (value : Text) :
    Frontend.normalizeRootPath m value = recase m (Backend.normalizeRootPath value) := by
  unfold Frontend.normalizeRootPath Backend.normalizeRootPath recase
  simp only [withoutNamespace_eq]
  split
  · rfl
  · split
    · rfl
    · by_cases hfolds : foldsCase (Frontend.withoutNamespace (withForwardSlashes value)) = true
      · rw [if_pos hfolds, if_pos hfolds, if_pos (by rw [foldsCase_map]; exact hfolds),
          m.toLowerCase_asciiLower]
      · rw [if_neg hfolds, if_neg hfolds, if_neg hfolds]

/-- The normal form of the backend folds the case of some path, or leaves it as it is. -/
theorem exists_backend_eq (value : Text) : ∃ t, Backend.normalizeRootPath value =
    if foldsCase t = true then t.map asciiLower else t := by
  unfold Backend.normalizeRootPath
  by_cases hempty : (withForwardSlashes value).isEmpty = true
  · exact ⟨[], by simp [hempty]⟩
  · by_cases hbare : (Backend.withoutNamespace (withForwardSlashes value)).isEmpty = true
    · exact ⟨[], by simp [hempty, hbare]⟩
    · exact ⟨Backend.withoutNamespace (withForwardSlashes value), by simp [hempty, hbare]⟩

/-- A folded path of the backend has no capital ASCII letter. -/
theorem map_asciiLower_normalizeRootPath
    (h : foldsCase (Backend.normalizeRootPath value) = true) :
    (Backend.normalizeRootPath value).map asciiLower = Backend.normalizeRootPath value := by
  obtain ⟨t, ht⟩ := exists_backend_eq value
  rw [ht] at h ⊢
  by_cases hfolds : foldsCase t = true
  · rw [if_pos hfolds, List.map_map]
    apply List.map_congr_left
    intro c _
    exact asciiLower_idem c
  · rw [if_neg hfolds] at h
    exact absurd h hfolds

theorem recase_ne_nil (h : path ≠ []) : recase m path ≠ [] := by
  unfold recase
  split
  · exact m.toLowerCase_ne_nil h
  · exact h

/-- A root of a folded path is folded, or it is an ASCII text without capital letters. -/
theorem recase_root (hpath : path = root ++ '/' :: t) (hfolds : foldsCase path = true)
    (hfixed : path.map asciiLower = path) (hroot : root ≠ []) :
    recase m root = m.toLowerCase root := by
  unfold recase
  split
  · rfl
  · next hnot =>
    have hshort : root = ['/'] ∨ ∃ c, root = [c, ':'] ∧ c.isAlpha = true := by
      subst hpath
      rcases foldsCase_iff.mp hfolds with ⟨c, rest, heq, hc⟩ | ⟨rest, heq⟩
      · match root, hroot, heq, hnot with
        | [c'], _, heq, _ => simp at heq
        | [c', c2], _, heq, _ =>
          simp only [List.cons_append, List.nil_append, List.cons.injEq] at heq
          obtain ⟨rfl, rfl, _⟩ := heq
          exact .inr ⟨c', rfl, hc⟩
        | c' :: c2 :: c3 :: root, _, heq, hnot =>
          simp only [List.cons_append, List.cons.injEq] at heq
          obtain ⟨rfl, rfl, rfl, _⟩ := heq
          exact absurd (foldsCase_iff.mpr (.inl ⟨c', root, rfl, hc⟩)) hnot
      · match root, hroot, heq, hnot with
        | [c'], _, heq, _ =>
          simp only [List.cons_append, List.nil_append, List.cons.injEq] at heq
          obtain ⟨rfl, _⟩ := heq
          exact .inl rfl
        | c' :: c2 :: root, _, heq, hnot =>
          simp only [List.cons_append, List.cons.injEq] at heq
          obtain ⟨rfl, rfl, _⟩ := heq
          exact absurd (foldsCase_iff.mpr (.inr ⟨root, rfl⟩)) hnot
    have hfixedRoot : root.map asciiLower = root := by
      rw [hpath, List.map_append] at hfixed
      exact (List.append_inj hfixed (by simp)).1
    have hascii : ∀ c ∈ root, c.toNat < 128 := by
      have halpha : ∀ c : Char, c.isAlpha = true → c.toNat < 128 := by
        intro c hc
        apply CaseMapping.ascii_of_isAlphanum
        show (c.isAlpha || c.isDigit) = true
        simp [hc]
      rcases hshort with rfl | ⟨c, rfl, hc⟩
      · intro c hc
        obtain rfl := List.mem_singleton.mp hc
        decide
      · intro c' hc'
        rcases List.mem_cons.mp hc' with rfl | hmem
        · exact halpha c' hc
        · obtain rfl := List.mem_singleton.mp hmem
          decide
    rw [m.toLowerCase_ascii hascii, hfixedRoot]

/-- What lies deeper than a root for the backend lies deeper than it for the frontend. -/
theorem exists_recase_nested {value rootValue rest : Text}
    (heq : Backend.normalizeRootPath value = Backend.normalizeRootPath rootValue ++ '/' :: rest)
    (hroot : Backend.normalizeRootPath rootValue ≠ []) :
    ∃ rest', recase m (Backend.normalizeRootPath value) =
      recase m (Backend.normalizeRootPath rootValue) ++ '/' :: rest' := by
  by_cases hfolds : foldsCase (Backend.normalizeRootPath value) = true
  · have hrecase := recase_root m heq hfolds (map_asciiLower_normalizeRootPath hfolds) hroot
    refine ⟨m.toLowerCase rest, ?_⟩
    rw [hrecase, ← m.toLowerCase_append_slash, ← heq, recase, if_pos hfolds]
  · -- a root that is folded makes the path one that is folded
    have hnot : ¬ foldsCase (Backend.normalizeRootPath rootValue) = true := by
      intro hf
      apply hfolds
      rw [heq, foldsCase_iff]
      rcases foldsCase_iff.mp hf with ⟨c, r, hr, hc⟩ | ⟨r, hr⟩
      · exact .inl ⟨c, r ++ '/' :: rest, by rw [hr]; rfl, hc⟩
      · exact .inr ⟨r ++ '/' :: rest, by rw [hr]; rfl⟩
    rw [recase, recase, if_neg hfolds, if_neg hnot]
    exact ⟨rest, heq⟩

/-- **What lies in a root for the backend** lies in it for the frontend. -/
theorem Within.recase {value rootValue : Text}
    (h : Within (Backend.normalizeRootPath value) (Backend.normalizeRootPath rootValue)) :
    Within (recase m (Backend.normalizeRootPath value))
      (recase m (Backend.normalizeRootPath rootValue)) := by
  refine ⟨recase_ne_nil m h.1, ?_⟩
  rcases h.2 with heq | ⟨rest, heq⟩
  · rw [heq]
    exact .inl rfl
  · exact .inr (exists_recase_nested m heq h.1)

end NormalForms

end CodexMonitor.Threads
