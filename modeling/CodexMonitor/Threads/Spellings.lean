import CodexMonitor.Threads.Attribution

namespace CodexMonitor.Threads

open Text

/-!
# Threads — the spellings of a path

One path is written in many ways: with slashes of either kind, with some of them at its end, and
behind the prefixes of the Windows namespaces.  The backend knows a workspace by the normal form
of one spelling of its root, and looks up the normal form of one spelling of a directory.

* `Spells` — a text is a spelling of a path.
* `normalizeRootPath_spells` — the normal form depends on the path only.
* `Below` — a directory is a root, or lies under it, however the two are written.
* `Found` — the roots, and the directories under them, that the normal forms keep together.
* `resolve_below_iff` — exactly these directories are attributed.
-/

/-! ### Paths and their spellings -/

/-- `value.replace('\\', "/")` -/
def slashed (value : Text) : Text := value.map fun c => if c = '\\' then '/' else c

/-- A path in one of the namespaces `//?/` and `//./`. -/
def Namespaced (path : Text) : Prop :=
  ∃ d rest, (d = '?' ∨ d = '.') ∧ path = '/' :: '/' :: d :: '/' :: rest

/-- A drive, and what lies on it. -/
def OnDrive (path : Text) : Prop :=
  ∃ c rest, path = c :: ':' :: rest ∧ c.isAlpha = true ∧ (rest = [] ∨ rest.head? = some '/')

/-- The paths for which case does not matter: those on a drive and those of a network. -/
def IgnoresCase (path : Text) : Prop :=
  OnDrive path ∨ (∃ rest, path = '/' :: '/' :: rest) ∧ ¬ Namespaced path

def Absolute (path : Text) : Prop := OnDrive path ∨ path.head? = some '/'

/-- **A spelling of a path**, the slashes aside: the path itself, or the path in a namespace, each
    with any number of slashes behind it. -/
inductive Spelling (path : Text) : Text → Prop
  | plain {slashes : Text} (h : ∀ c ∈ slashes, c = '/') : Spelling path (path ++ slashes)
  | device {d : Char} {slashes : Text} (hd : d = '?' ∨ d = '.') (habsolute : Absolute path)
      (hplain : ¬ Namespaced path) (h : ∀ c ∈ slashes, c = '/') :
      Spelling path ('/' :: '/' :: d :: '/' :: (path ++ slashes))
  | unc {unc rest slashes : Text} (hunc : unc.map asciiLower = "unc".toList)
      (hpath : path = '/' :: '/' :: rest) (hplain : ¬ Namespaced path) (h : ∀ c ∈ slashes, c = '/') :
      Spelling path ("//?/".toList ++ unc ++ '/' :: (rest ++ slashes))

/-- The value is a spelling of the path, which has no slash at its end. -/
def Spells (value path : Text) : Prop :=
  Spelling path (slashed value) ∧ path.getLast? ≠ some '/'

/-- The same path but for its case, if that does not matter. -/
def SamePath (path same : Text) : Prop :=
  same = path ∨ IgnoresCase path ∧ same.map asciiLower = path.map asciiLower

/-- **The directory is the root or lies under it**: `path` is the root, `same` the same path in the
    directory, where case may differ if it does not matter, and `tail` is what follows. -/
structure Below (root cwd path same tail : Text) : Prop where
  root : Spells root path
  cwd : Spells cwd (same ++ tail)
  same : SamePath path same
  nested : tail = [] ∨ ∃ rel, tail = '/' :: rel ∧ rel.head? ≠ some '/'

/-! ### Namespaces -/

section Namespaces

variable {t rest path value : Text} {d : Char}

theorem namespaced_of_unc (h : startsWith (t.map asciiLower) "//?/unc/".toList = true) :
    Namespaced t := by
  have hdevice : startsWith (t.map asciiLower) ['/', '/', '?', '/'] = true := by
    unfold startsWith at h ⊢
    rw [List.isPrefixOf_iff_prefix] at h ⊢
    exact (show ['/', '/', '?', '/'] <+: "//?/unc/".toList from ⟨"unc/".toList, rfl⟩).trans h
  obtain ⟨rest, rfl⟩ := (startsWith_device_iff (.inl rfl)).mp hdevice
  exact ⟨'?', rest, .inl rfl, rfl⟩

theorem withoutNamespace_plain (h : ¬ Namespaced t) : Backend.withoutNamespace t = t := by
  unfold Backend.withoutNamespace
  have hunc : ¬ startsWith (t.map asciiLower) "//?/unc/".toList = true :=
    fun hunc => h (namespaced_of_unc hunc)
  have hdevice : ¬ (startsWith (t.map asciiLower) "//?/".toList ||
      startsWith (t.map asciiLower) "//./".toList) = true := by
    rw [Bool.or_eq_true]
    rintro (hstart | hstart)
    · obtain ⟨rest, rfl⟩ := (startsWith_device_iff (.inl rfl)).mp hstart
      exact h ⟨'?', rest, .inl rfl, rfl⟩
    · obtain ⟨rest, rfl⟩ := (startsWith_device_iff (.inr rfl)).mp hstart
      exact h ⟨'.', rest, .inr rfl, rfl⟩
  rw [if_neg hunc, if_neg hdevice]

theorem withoutNamespace_device (hd : d = '?' ∨ d = '.')
    (h : ¬ startsWith (('/' :: '/' :: d :: '/' :: rest).map asciiLower) "//?/unc/".toList = true) :
    Backend.withoutNamespace ('/' :: '/' :: d :: '/' :: rest) = rest := by
  unfold Backend.withoutNamespace
  have hdevice : (startsWith (('/' :: '/' :: d :: '/' :: rest).map asciiLower) "//?/".toList ||
      startsWith (('/' :: '/' :: d :: '/' :: rest).map asciiLower) "//./".toList) = true := by
    rw [Bool.or_eq_true]
    rcases hd with rfl | rfl
    · exact .inl ((startsWith_device_iff (.inl rfl)).mpr ⟨rest, rfl⟩)
    · exact .inr ((startsWith_device_iff (.inr rfl)).mpr ⟨rest, rfl⟩)
  rw [if_neg h, if_pos hdevice]
  rfl

/-- The network namespace, by what is behind its first part. -/
theorem unc_iff : startsWith (('/' :: '/' :: d :: '/' :: rest).map asciiLower) "//?/unc/".toList =
    true ↔ d = '?' ∧ ∃ unc more, rest = unc ++ '/' :: more ∧ unc.map asciiLower = "unc".toList := by
  have hslash := asciiLower_eq_iff (d := '/') (by decide)
  have hmark := asciiLower_eq_iff (d := '?') (by decide)
  unfold startsWith
  rw [List.isPrefixOf_iff_prefix]
  constructor
  · rintro ⟨more, hmore⟩
    obtain ⟨-, hd, -, hrest⟩ : asciiLower '/' = '/' ∧ asciiLower d = '?' ∧ asciiLower '/' = '/' ∧
        rest.map asciiLower = "unc/".toList ++ more := by
      simpa using hmore.symm
    refine ⟨(hmark d).mp hd, ?_⟩
    obtain ⟨unc, tail, rfl, hunc, htail⟩ := List.map_eq_append_iff.mp
      (show rest.map asciiLower = "unc".toList ++ '/' :: more from hrest)
    obtain ⟨c, behind, rfl, hc, -⟩ := List.map_eq_cons_iff.mp htail
    obtain rfl := (hslash c).mp hc
    exact ⟨unc, behind, rfl, hunc⟩
  · rintro ⟨rfl, unc, more, rfl, hunc⟩
    refine ⟨more.map asciiLower, ?_⟩
    simp only [List.map_cons, List.map_append, hunc, (hslash '/').mpr rfl, (hmark '?').mpr rfl]
    rfl

theorem withoutNamespace_unc {unc : Text} (hunc : unc.map asciiLower = "unc".toList) :
    Backend.withoutNamespace ("//?/".toList ++ unc ++ '/' :: rest) = '/' :: '/' :: rest := by
  have hlen : unc.length = 3 := by
    have h := congrArg List.length hunc
    simpa using h
  have hstart : startsWith (("//?/".toList ++ unc ++ '/' :: rest).map asciiLower)
      "//?/unc/".toList = true :=
    unc_iff.mpr ⟨rfl, unc, rest, rfl, hunc⟩
  unfold Backend.withoutNamespace
  rw [if_pos hstart]
  have hdrop : ("//?/".toList ++ unc ++ '/' :: rest).drop 8 = rest := by
    have hsplit : "//?/".toList ++ unc ++ '/' :: rest = ("//?/".toList ++ unc ++ ['/']) ++ rest := by
      simp
    rw [hsplit]
    exact List.drop_left' (by simp [hlen])
  rw [hdrop]
  rfl

end Namespaces

/-! ### Normal forms -/

section NormalForms

variable {t path value : Text}

/-- A path in lower case, if its case does not matter. -/
def folded (path : Text) : Text := if foldsCase path then path.map asciiLower else path

theorem normalizeRootPath_eq_folded (value : Text) : Backend.normalizeRootPath value =
    folded (Backend.withoutNamespace (withForwardSlashes value)) := by
  unfold Backend.normalizeRootPath folded
  by_cases hempty : (withForwardSlashes value).isEmpty = true
  · rw [List.isEmpty_iff.mp hempty]
    rfl
  · simp only [hempty]
    by_cases hbare : (Backend.withoutNamespace (withForwardSlashes value)).isEmpty = true
    · rw [List.isEmpty_iff.mp hbare]
      rfl
    · simp only [hbare]
      rfl

/-- Slashes at the end are cut off. -/
theorem trimEndBy_slashes {slashes : Text} (hlast : t.getLast? ≠ some '/')
    (h : ∀ c ∈ slashes, c = '/') : trimEndBy (fun c => decide (c = '/')) (t ++ slashes) = t := by
  unfold trimEndBy
  induction slashes using List.reverseRecOn with
  | nil =>
    rw [List.append_nil]
    rcases List.eq_nil_or_concat t with rfl | ⟨front, last, rfl⟩
    · rfl
    · rw [List.concat_eq_append] at hlast ⊢
      rw [List.rdropWhile_concat_neg]
      intro hslash
      rw [List.getLast?_concat] at hlast
      exact hlast (congrArg some (of_decide_eq_true hslash))
  | append_singleton slashes c ih =>
    have hc : c = '/' := h c (by simp)
    rw [← List.append_assoc, List.rdropWhile_concat, if_pos (decide_eq_true hc)]
    exact ih fun d hd => h d (List.mem_append_left _ hd)

theorem Absolute.ne_nil (h : Absolute path) : path ≠ [] := by
  rintro rfl
  rcases h with ⟨c, rest, heq, -⟩ | h
  · cases heq
  · cases h

/-- An absolute path does not begin with the name of a share. -/
theorem Absolute.not_unc (h : Absolute path) {unc more : Text} (heq : path = unc ++ '/' :: more) :
    unc.map asciiLower ≠ "unc".toList := by
  intro hunc
  obtain ⟨u, t1, rfl, hu, h1⟩ := List.map_eq_cons_iff.mp hunc
  obtain ⟨n, t2, rfl, hn, -⟩ := List.map_eq_cons_iff.mp h1
  rcases h with ⟨c, rest, hdrive, -⟩ | hslash
  · obtain ⟨-, hcolon, -⟩ : u = c ∧ n = ':' ∧ t2 ++ '/' :: more = rest := by
      simpa using heq.symm.trans hdrive
    rw [hcolon] at hn
    exact absurd hn (by decide)
  · rw [heq] at hslash
    obtain rfl : u = '/' := Option.some.inj hslash
    exact absurd hu (by decide)

/-- **The normal form depends on the path only**, not on its spelling. -/
theorem normalizeRootPath_spells (h : Spells value path) :
    Backend.normalizeRootPath value = folded (Backend.withoutNamespace path) := by
  obtain ⟨hspelling, hlast⟩ := h
  rw [normalizeRootPath_eq_folded]
  show folded (Backend.withoutNamespace
    (trimEndBy (fun c => decide (c = '/')) (slashed value))) = _
  congr 1
  generalize slashed value = text at hspelling
  cases hspelling with
  | plain hslashes => rw [trimEndBy_slashes hlast hslashes]
  | @device d slashes hd habsolute hplain hslashes =>
    have hend : ('/' :: '/' :: d :: '/' :: path).getLast? ≠ some '/' := by
      have h := List.getLast?_append_of_ne_nil ['/', '/', d, '/'] habsolute.ne_nil
      exact h ▸ hlast
    have htrim := trimEndBy_slashes hend hslashes
    rw [List.cons_append, List.cons_append, List.cons_append, List.cons_append] at htrim
    rw [htrim, withoutNamespace_plain hplain]
    refine withoutNamespace_device hd ?_
    rw [unc_iff]
    rintro ⟨-, unc, more, heq, hunc⟩
    exact habsolute.not_unc heq hunc
  | @unc unc rest slashes hunc hpath hplain hslashes =>
    subst hpath
    have hrest : rest ≠ [] := by
      rintro rfl
      exact hlast rfl
    have hlast' : rest.getLast? ≠ some '/' := by
      have h := List.getLast?_append_of_ne_nil ['/', '/'] hrest
      exact h ▸ hlast
    have hend : ("//?/".toList ++ unc ++ '/' :: rest).getLast? ≠ some '/' := by
      have h := List.getLast?_append_of_ne_nil ("//?/".toList ++ unc ++ ['/']) hrest
      rw [List.append_assoc, List.singleton_append] at h
      rw [h]
      exact hlast'
    have htrim := trimEndBy_slashes hend hslashes
    rw [List.append_assoc, List.cons_append] at htrim
    rw [htrim, withoutNamespace_plain hplain, withoutNamespace_unc hunc]

end NormalForms

/-! ### What follows a root -/

section Nested

variable {path same rel t : Text}

theorem foldsCase_append (h : foldsCase path = true) (tail : Text) :
    foldsCase (path ++ tail) = true := by
  rw [foldsCase_iff] at h ⊢
  rcases h with ⟨c, rest, rfl, hc⟩ | ⟨rest, rfl⟩
  · exact .inl ⟨c, rest ++ tail, rfl, hc⟩
  · exact .inr ⟨rest ++ tail, rfl⟩

/-- A bare drive, whose case is not folded. -/
def BareDrive (path : Text) (c : Char) : Prop := path = [c, ':'] ∧ c.isAlpha = true

/-- **Only a bare drive is folded differently** with something behind it. -/
theorem foldsCase_nested (hne : path ≠ []) (hlast : path.getLast? ≠ some '/')
    (h : ¬ foldsCase path = true) :
    foldsCase (path ++ '/' :: rel) = true ↔ ∃ c, BareDrive path c := by
  constructor
  · intro hnested
    match path, hne, hlast, h, foldsCase_iff.mp hnested with
    | [c], _, hlast, _, .inl ⟨d, rest, heq, hd⟩ => simp at heq
    | [c], _, hlast, _, .inr ⟨rest, heq⟩ =>
      obtain ⟨rfl, -⟩ : c = '/' ∧ rel = rest := by simpa using heq
      exact absurd rfl hlast
    | [c, c'], _, hlast, _, .inl ⟨d, rest, heq, hd⟩ =>
      obtain ⟨rfl, rfl, -⟩ : c = d ∧ c' = ':' ∧ rel = rest := by simpa using heq
      exact ⟨c, rfl, hd⟩
    | [c, c'], _, hlast, _, .inr ⟨rest, heq⟩ =>
      obtain ⟨-, rfl, -⟩ : c = '/' ∧ c' = '/' ∧ '/' :: rel = rest := by simpa using heq
      exact absurd rfl hlast
    | c :: c' :: c'' :: more, _, _, h, .inl ⟨d, rest, heq, hd⟩ =>
      obtain ⟨rfl, rfl, rfl, -⟩ : c = d ∧ c' = ':' ∧ c'' = '/' ∧ more ++ '/' :: rel = rest := by
        simpa using heq
      exact absurd (foldsCase_iff.mpr (.inl ⟨c, more, rfl, hd⟩)) h
    | c :: c' :: c'' :: more, _, _, h, .inr ⟨rest, heq⟩ =>
      obtain ⟨rfl, rfl, -⟩ : c = '/' ∧ c' = '/' ∧ c'' :: (more ++ '/' :: rel) = rest := by
        simpa using heq
      exact absurd (foldsCase_iff.mpr (.inr ⟨c'' :: more, rfl⟩)) h
  · rintro ⟨c, rfl, hc⟩
    exact foldsCase_iff.mpr (.inl ⟨c, rel, rfl, hc⟩)

theorem IgnoresCase.folds (h : IgnoresCase path) : foldsCase path = true ∨ ∃ c, BareDrive path c := by
  rcases h with ⟨c, rest, rfl, hc, rfl | hrest⟩ | ⟨⟨rest, rfl⟩, -⟩
  · exact .inr ⟨c, rfl, hc⟩
  · obtain ⟨more, rfl⟩ := List.head?_eq_some_iff.mp hrest
    exact .inl (foldsCase_iff.mpr (.inl ⟨c, more, rfl, hc⟩))
  · exact .inl (foldsCase_iff.mpr (.inr ⟨rest, rfl⟩))

theorem not_foldsCase_bareDrive {c : Char} (h : BareDrive path c) : ¬ foldsCase path = true := by
  obtain ⟨rfl, -⟩ := h
  intro hfolds
  rcases foldsCase_iff.mp hfolds with ⟨d, rest, heq, -⟩ | ⟨rest, heq⟩
  · simp at heq
  · simp at heq

theorem SamePath.folds_eq (h : SamePath path same) : foldsCase same = foldsCase path := by
  rcases h with rfl | ⟨-, hlower⟩
  · rfl
  · rw [← foldsCase_map same, hlower, foldsCase_map]

/-- A path that is not folded differs in nothing from the same path, but for a bare drive. -/
theorem SamePath.eq (h : SamePath path same) (hfolds : ¬ foldsCase path = true)
    (hbare : ¬ ∃ c, BareDrive path c) : same = path := by
  rcases h with heq | ⟨hignores, -⟩
  · exact heq
  · rcases hignores.folds with hyes | hyes
    · exact absurd hyes hfolds
    · exact absurd hyes hbare

theorem SamePath.length_eq (h : SamePath path same) : same.length = path.length := by
  rcases h with rfl | ⟨-, hlower⟩
  · rfl
  · have hlen := congrArg List.length hlower
    rwa [List.length_map, List.length_map] at hlen

theorem SamePath.lower (h : SamePath path same) : same.map asciiLower = path.map asciiLower := by
  rcases h with rfl | ⟨-, hlower⟩
  · rfl
  · exact hlower

theorem length_folded (t : Text) : (folded t).length = t.length := by
  unfold folded
  split
  · exact List.length_map _
  · rfl

/-- **The root itself.** -/
theorem within_same_iff (h : SamePath path same) (hne : path ≠ []) :
    Within (folded same) (folded path) ↔ ∀ c, BareDrive path c → same = path := by
  have hlen : (folded same).length = (folded path).length := by
    rw [length_folded, length_folded, h.length_eq]
  have hroot : folded path ≠ [] := by
    intro hnil
    have hzero := length_folded path
    rw [hnil] at hzero
    exact hne (List.length_eq_zero_iff.mp hzero.symm)
  have hwithin : Within (folded same) (folded path) ↔ folded same = folded path := by
    constructor
    · rintro ⟨-, heq | ⟨rest, heq⟩⟩
      · exact heq
      · rw [heq, List.length_append, List.length_cons] at hlen
        omega
    · exact fun heq => ⟨hroot, .inl heq⟩
  rw [hwithin]
  by_cases hfolds : foldsCase path = true
  · refine iff_of_true ?_ fun c hbare => absurd hfolds (not_foldsCase_bareDrive hbare)
    unfold folded
    rw [h.folds_eq, if_pos hfolds, if_pos hfolds, h.lower]
  · have hunfolded : folded same = same ∧ folded path = path := by
      unfold folded
      rw [h.folds_eq, if_neg hfolds, if_neg hfolds]
      exact ⟨rfl, rfl⟩
    rw [hunfolded.1, hunfolded.2]
    constructor
    · exact fun heq _ _ => heq
    · intro hbare
      by_cases hdrive : ∃ c, BareDrive path c
      · obtain ⟨c, hc⟩ := hdrive
        exact hbare c hc
      · exact h.eq hfolds hdrive

/-- **What lies under a root.** -/
theorem within_nested_iff (h : SamePath path same) (hne : path ≠ [])
    (hlast : path.getLast? ≠ some '/') :
    Within (folded (same ++ '/' :: rel)) (folded path) ↔
      ∀ c, BareDrive path c → asciiLower c = c := by
  have hslash : asciiLower '/' = '/' := by decide
  have hnested : ∀ {t : Text}, t ≠ [] → Within (t ++ '/' :: rel.map asciiLower) t :=
    fun ht => ⟨ht, .inr ⟨_, rfl⟩⟩
  by_cases hfolds : foldsCase path = true
  · refine iff_of_true ?_ fun c hbare => absurd hfolds (not_foldsCase_bareDrive hbare)
    have hsame : foldsCase (same ++ '/' :: rel) = true :=
      foldsCase_append (h.folds_eq.trans hfolds) _
    unfold folded
    rw [if_pos hsame, if_pos hfolds, List.map_append, h.lower, List.map_cons, hslash]
    exact hnested (by simpa using hne)
  · by_cases hdrive : ∃ c, BareDrive path c
    · obtain ⟨c, rfl, hc⟩ := hdrive
      have hlower := h.lower
      obtain ⟨c', t', rfl, hc', ht'⟩ := List.map_eq_cons_iff.mp hlower
      obtain ⟨d, t'', rfl, hd, ht''⟩ := List.map_eq_cons_iff.mp ht'
      obtain rfl := (asciiLower_eq_iff (d := ':') (by decide) d).mp hd
      obtain rfl := List.map_eq_nil_iff.mp ht''
      have halpha : c'.isAlpha = true := by
        rw [← isAlpha_asciiLower, hc', isAlpha_asciiLower]
        exact hc
      have hsame : foldsCase ([c', ':'] ++ '/' :: rel) = true :=
        foldsCase_iff.mpr (.inl ⟨c', rel, rfl, halpha⟩)
      unfold folded
      rw [if_pos hsame, if_neg hfolds]
      simp only [List.map_append, List.map_cons, List.map_nil, hc', hslash]
      constructor
      · rintro ⟨-, heq | ⟨rest, heq⟩⟩ d ⟨hd, -⟩
        · simp at heq
        · obtain ⟨rfl, -⟩ := List.cons_eq_cons.mp hd
          exact (List.cons_eq_cons.mp heq).1
      · intro hall
        rw [hall c ⟨rfl, hc⟩]
        exact ⟨by simp, .inr ⟨rel.map asciiLower, rfl⟩⟩
    · obtain rfl := h.eq hfolds hdrive
      refine iff_of_true ?_ fun c hbare => absurd ⟨c, hbare⟩ hdrive
      have hsame : ¬ foldsCase (same ++ '/' :: rel) = true :=
        fun hyes => hdrive ((foldsCase_nested hne hlast hfolds).mp hyes)
      unfold folded
      rw [if_neg hsame, if_neg hfolds]
      exact ⟨hne, .inr ⟨rel, rfl⟩⟩

end Nested

/-! ### Namespaces and what follows -/

section Roots

variable {path same rel tail : Text}

/-- The prefix of a namespace, written without its last slash: a path under it is read as one in
    the namespace. -/
def BarePrefix (path : Text) : Prop :=
  path = "//?".toList ∨ path = "//.".toList ∨
    ∃ unc, path = "//?/".toList ++ unc ∧ unc.map asciiLower = "unc".toList

theorem namespaced_iff : Namespaced path ↔
    startsWith (path.map asciiLower) ['/', '/', '?', '/'] = true ∨
      startsWith (path.map asciiLower) ['/', '/', '.', '/'] = true := by
  rw [startsWith_device_iff (.inl rfl), startsWith_device_iff (.inr rfl)]
  constructor
  · rintro ⟨d, rest, rfl | rfl, rfl⟩
    · exact .inl ⟨rest, rfl⟩
    · exact .inr ⟨rest, rfl⟩
  · rintro (⟨rest, rfl⟩ | ⟨rest, rfl⟩)
    · exact ⟨'?', rest, .inl rfl, rfl⟩
    · exact ⟨'.', rest, .inr rfl, rfl⟩

theorem SamePath.namespaced (h : SamePath path same) : Namespaced same ↔ Namespaced path := by
  rw [namespaced_iff, namespaced_iff, h.lower]

theorem IgnoresCase.not_namespaced (h : IgnoresCase path) : ¬ Namespaced path := by
  rcases h with ⟨c, rest, rfl, hc, -⟩ | ⟨-, hplain⟩
  · rintro ⟨d, more, -, heq⟩
    simp at heq
  · exact hplain

/-- What is under a path lies in the namespace of the path, or the path is a bare prefix. -/
theorem namespaced_nested (hne : path ≠ []) (hlast : path.getLast? ≠ some '/')
    (hbegins : ¬ BarePrefix path) :
    Namespaced (path ++ '/' :: rel) → Namespaced path := by
  rintro ⟨d, rest, hd, heq⟩
  match path, hne, hlast, hbegins with
  | [c], _, hlast, _ =>
    obtain ⟨rfl, -⟩ : c = '/' ∧ rel = d :: '/' :: rest := by simpa using heq
    exact absurd rfl hlast
  | [c, c'], _, hlast, _ =>
    obtain ⟨-, rfl, -⟩ : c = '/' ∧ c' = '/' ∧ '/' :: rel = d :: '/' :: rest := by simpa using heq
    exact absurd rfl hlast
  | [c, c', c''], _, _, hbegins =>
    obtain ⟨rfl, rfl, rfl, -⟩ : c = '/' ∧ c' = '/' ∧ c'' = d ∧ rel = rest := by simpa using heq
    rcases hd with rfl | rfl
    · exact absurd (.inl rfl) hbegins
    · exact absurd (.inr (.inl rfl)) hbegins
  | c :: c' :: c'' :: e :: more, _, _, _ =>
    obtain ⟨rfl, rfl, rfl, rfl, -⟩ : c = '/' ∧ c' = '/' ∧ c'' = d ∧ e = '/' ∧
        more ++ '/' :: rel = rest := by simpa using heq
    exact ⟨c'', more, hd, rfl⟩

/-- **What follows a path stays behind it** when the namespace is dropped. -/
theorem withoutNamespace_nested (hne : path ≠ []) (hlast : path.getLast? ≠ some '/')
    (hbegins : ¬ BarePrefix path) :
    Backend.withoutNamespace (path ++ '/' :: rel) =
      Backend.withoutNamespace path ++ '/' :: rel := by
  by_cases hnamespaced : Namespaced path
  · obtain ⟨d, rest, hd, rfl⟩ := hnamespaced
    by_cases hunc : startsWith (('/' :: '/' :: d :: '/' :: rest).map asciiLower)
        "//?/unc/".toList = true
    · obtain ⟨rfl, unc, more, rfl, hlower⟩ := unc_iff.mp hunc
      have hroot : Backend.withoutNamespace ("//?/".toList ++ unc ++ '/' :: more) =
          '/' :: '/' :: more := withoutNamespace_unc hlower
      have hnested : Backend.withoutNamespace
          ("//?/".toList ++ unc ++ '/' :: (more ++ '/' :: rel)) = '/' :: '/' :: (more ++ '/' :: rel) :=
        withoutNamespace_unc hlower
      have hsplit : '/' :: '/' :: '?' :: '/' :: (unc ++ '/' :: more) ++ '/' :: rel =
          "//?/".toList ++ unc ++ '/' :: (more ++ '/' :: rel) := by simp
      have hsplit' : '/' :: '/' :: '?' :: '/' :: (unc ++ '/' :: more) =
          "//?/".toList ++ unc ++ '/' :: more := by simp
      rw [hsplit, hnested, hsplit', hroot]
      rfl
    · -- the slash that follows completes no name of a share
      have hnested : ¬ startsWith (('/' :: '/' :: d :: '/' :: (rest ++ '/' :: rel)).map asciiLower)
          "//?/unc/".toList = true := by
        intro hyes
        obtain ⟨rfl, unc, more, heq, hlower⟩ := unc_iff.mp hyes
        rcases List.append_eq_append_iff.mp heq with ⟨front, hfront, hback⟩ | ⟨front, hfront, hback⟩
        · cases front with
          | nil =>
            rw [List.append_nil] at hfront
            exact hbegins (.inr (.inr ⟨rest, rfl, hfront ▸ hlower⟩))
          | cons c front =>
            -- then the name would have a slash in it
            obtain ⟨rfl, -⟩ := List.cons_eq_cons.mp hback
            have hmem : '/' ∈ unc.map asciiLower := by
              rw [hfront]
              exact List.mem_map.mpr ⟨'/', by simp, by decide⟩
            rw [hlower] at hmem
            exact absurd hmem (by decide)
        · cases front with
          | nil =>
            rw [List.append_nil] at hfront
            exact hbegins (.inr (.inr ⟨rest, rfl, hfront ▸ hlower⟩))
          | cons c front =>
            obtain ⟨rfl, -⟩ := List.cons_eq_cons.mp hback
            exact hunc (unc_iff.mpr ⟨rfl, unc, front, hfront, hlower⟩)
      have hdrop := withoutNamespace_device hd hnested
      rw [withoutNamespace_device hd hunc]
      exact hdrop
  · rw [withoutNamespace_plain hnamespaced]
    exact withoutNamespace_plain fun h =>
      hnamespaced (namespaced_nested hne hlast hbegins h)

/-- The root and the same path in the directory, without their namespace. -/
theorem SamePath.withoutNamespace (h : SamePath path same) :
    SamePath (Backend.withoutNamespace path) (Backend.withoutNamespace same) := by
  by_cases hnamespaced : Namespaced path
  · rcases h with rfl | ⟨hignores, -⟩
    · exact .inl rfl
    · exact absurd hnamespaced hignores.not_namespaced
  · rw [withoutNamespace_plain hnamespaced,
      withoutNamespace_plain fun hsame => hnamespaced (h.namespaced.mp hsame)]
    exact h

theorem SamePath.withoutNamespace_nested (h : SamePath path same) (hne : path ≠ [])
    (hlast : path.getLast? ≠ some '/') (hbegins : ¬ BarePrefix path) :
    Backend.withoutNamespace (same ++ '/' :: rel) =
      Backend.withoutNamespace same ++ '/' :: rel := by
  by_cases hnamespaced : Namespaced path
  · rcases h with rfl | ⟨hignores, -⟩
    · exact Threads.withoutNamespace_nested hne hlast hbegins
    · exact absurd hnamespaced hignores.not_namespaced
  · rw [withoutNamespace_plain fun hsame => hnamespaced (h.namespaced.mp hsame)]
    apply withoutNamespace_plain
    -- whether a path is in a namespace does not depend on its case
    intro hnested
    have hlower : (same ++ '/' :: rel).map asciiLower = (path ++ '/' :: rel).map asciiLower := by
      rw [List.map_append, List.map_append, h.lower]
    rw [namespaced_iff, hlower, ← namespaced_iff] at hnested
    exact hnamespaced (namespaced_nested hne hlast hbegins hnested)

/-- Without its namespace a path still has no slash at its end. -/
theorem withoutNamespace_ends (hne : path ≠ []) (hlast : path.getLast? ≠ some '/') :
    Backend.withoutNamespace path ≠ [] ∧
      (Backend.withoutNamespace path).getLast? ≠ some '/' := by
  by_cases hnamespaced : Namespaced path
  · obtain ⟨d, rest, hd, rfl⟩ := hnamespaced
    have hrest : rest ≠ [] := by
      rintro rfl
      exact hlast rfl
    have hrestLast : rest.getLast? ≠ some '/' := by
      have h := List.getLast?_append_of_ne_nil ['/', '/', d, '/'] hrest
      exact h ▸ hlast
    by_cases hunc : startsWith (('/' :: '/' :: d :: '/' :: rest).map asciiLower)
        "//?/unc/".toList = true
    · obtain ⟨rfl, unc, more, rfl, hlower⟩ := unc_iff.mp hunc
      have hmore : more ≠ [] := by
        rintro rfl
        exact hrestLast List.getLast?_concat
      have hsplit : '/' :: '/' :: '?' :: '/' :: (unc ++ '/' :: more) =
          "//?/".toList ++ unc ++ '/' :: more := by simp
      rw [hsplit, withoutNamespace_unc hlower]
      refine ⟨by simp, ?_⟩
      have hcut := List.getLast?_append_of_ne_nil ['/', '/'] hmore
      have hwhole := List.getLast?_append_of_ne_nil (unc ++ ['/']) hmore
      rw [List.append_assoc, List.singleton_append] at hwhole
      rw [hwhole] at hrestLast
      exact hcut ▸ hrestLast
    · rw [withoutNamespace_device hd hunc]
      exact ⟨hrest, hrestLast⟩
  · rw [withoutNamespace_plain hnamespaced]
    exact ⟨hne, hlast⟩

end Roots

/-! ### Which directories are attributed -/

section Attributed

variable {root cwd path same tail rel : Text}

/-- **The normal forms keep the directory in its root**: the root is not the file system's own;
    it is no bare drive, unless the directory is that drive in the same case, or lies on it and
    the drive's letter is a small one; and the directory does not lie under a bare prefix (but
    for one that comes to the prefix again by a share that is named like it). -/
structure Found (path same tail : Text) : Prop where
  notRoot : path ≠ []
  drive : ∀ c, BareDrive (Backend.withoutNamespace path) c →
    (tail = [] → same = path) ∧ (tail ≠ [] → asciiLower c = c)
  bare : BarePrefix path → tail ≠ [] → path = "//?".toList ∧
    ∃ rest, tail.map asciiLower = "/unc/?".toList ++ rest ∧
      (rest = [] ∨ ∃ more, rest = '/' :: more)

theorem folded_nil : folded [] = [] := rfl

/-- A path that begins with a slash does so in its normal form, and no other path does. -/
theorem head?_folded (t : Text) : (folded t).head? = some '/' ↔ t.head? = some '/' := by
  unfold folded
  split
  · rw [List.head?_map]
    cases t with
    | nil => rfl
    | cons c t =>
      have hslash := asciiLower_eq_iff (d := '/') (by decide) c
      simpa using hslash
  · rfl

theorem SamePath.withoutNamespace_eq_iff (h : SamePath path same) :
    Backend.withoutNamespace same = Backend.withoutNamespace path ↔ same = path := by
  by_cases hnamespaced : Namespaced path
  · rcases h with rfl | ⟨hignores, -⟩
    · exact iff_of_true rfl rfl
    · exact absurd hnamespaced hignores.not_namespaced
  · rw [withoutNamespace_plain hnamespaced,
      withoutNamespace_plain fun hsame => hnamespaced (h.namespaced.mp hsame)]

/-- What lies in a root that begins with a slash begins with one. -/
theorem Within.head?_slash {t r : Text} (h : Within t r) (hroot : r.head? = some '/') :
    t.head? = some '/' := by
  obtain ⟨rest, rfl⟩ := List.head?_eq_some_iff.mp hroot
  rcases h.2 with rfl | ⟨more, rfl⟩
  · rfl
  · rfl

theorem eq_of_map_asciiLower {t p : Text} (hp : ∀ c ∈ p, c.isAlpha = false)
    (h : t.map asciiLower = p) : t = p := by
  induction p generalizing t with
  | nil => exact List.map_eq_nil_iff.mp h
  | cons c p ih =>
    obtain ⟨d, rest, rfl, hd, hrest⟩ := List.map_eq_cons_iff.mp h
    obtain rfl := (asciiLower_eq_iff (hp c List.mem_cons_self) d).mp hd
    rw [ih (fun e he => hp e (List.mem_cons_of_mem _ he)) hrest]

theorem SamePath.eq_of_mark (h : SamePath path same) {d : Char} (hd : d = '?' ∨ d = '.')
    (hpath : path = ['/', '/', d]) : same = ['/', '/', d] := by
  subst hpath
  have hmarks : ∀ c ∈ ['/', '/', d], c.isAlpha = false := by
    rcases hd with rfl | rfl <;> decide
  refine eq_of_map_asciiLower hmarks ?_
  rw [h.lower]
  rcases hd with rfl | rfl <;> decide

/-- Under the prefix `//?` a directory is only found as a share that is named like the prefix. -/
theorem within_question_iff (hrel : rel.head? ≠ some '/') :
    Within (folded (Backend.withoutNamespace ('/' :: '/' :: '?' :: '/' :: rel))) "//?".toList ↔
      ∃ rest, ('/' :: rel).map asciiLower = "/unc/?".toList ++ rest ∧
        (rest = [] ∨ ∃ more, rest = '/' :: more) := by
  have hslash : asciiLower '/' = '/' := by decide
  by_cases hunc : startsWith (('/' :: '/' :: '?' :: '/' :: rel).map asciiLower)
      "//?/unc/".toList = true
  · obtain ⟨-, unc, more, rfl, hlower⟩ := unc_iff.mp hunc
    have hcore : Backend.withoutNamespace ('/' :: '/' :: '?' :: '/' :: (unc ++ '/' :: more)) =
        '/' :: '/' :: more := by
      have h : Backend.withoutNamespace ("//?/".toList ++ unc ++ '/' :: more) =
          '/' :: '/' :: more := withoutNamespace_unc hlower
      rw [List.append_assoc] at h
      exact h
    have hfolds : foldsCase ('/' :: '/' :: more) = true := foldsCase_iff.mpr (.inr ⟨more, rfl⟩)
    have htail : ('/' :: (unc ++ '/' :: more)).map asciiLower =
        "/unc/".toList ++ more.map asciiLower := by
      simp only [List.map_cons, List.map_append, hlower, hslash]
      rfl
    rw [hcore, htail]
    unfold folded
    rw [if_pos hfolds, List.map_cons, List.map_cons, hslash]
    constructor
    · rintro ⟨-, heq | ⟨rest, heq⟩⟩
      · have hmore : more.map asciiLower = ['?'] := by simpa using heq
        exact ⟨[], by rw [hmore]; rfl, .inl rfl⟩
      · have hmore : more.map asciiLower = '?' :: '/' :: rest := by simpa using heq
        exact ⟨'/' :: rest, by rw [hmore]; rfl, .inr ⟨rest, rfl⟩⟩
    · rintro ⟨rest, heq, hrest⟩
      have hmore : more.map asciiLower = '?' :: rest := by simpa using heq
      rw [hmore]
      rcases hrest with rfl | ⟨further, rfl⟩
      · exact ⟨by decide, .inl rfl⟩
      · exact ⟨by decide, .inr ⟨further, rfl⟩⟩
  · rw [withoutNamespace_device (.inl rfl) hunc]
    constructor
    · intro hwithin
      exact absurd ((head?_folded rel).mp (hwithin.head?_slash rfl)) hrel
    · rintro ⟨rest, heq, -⟩
      have hrest : rel.map asciiLower = "unc".toList ++ '/' :: '?' :: rest :=
        (List.cons_eq_cons.mp heq).2
      obtain ⟨unc, tail, rfl, hlower, htail⟩ := List.map_eq_append_iff.mp hrest
      obtain ⟨c, more, rfl, hc, -⟩ := List.map_eq_cons_iff.mp htail
      obtain rfl := (asciiLower_eq_iff (d := '/') (by decide) c).mp hc
      exact absurd (unc_iff.mpr ⟨rfl, unc, more, rfl, hlower⟩) hunc

/-- A share's prefix without its slash is no share. -/
theorem withoutNamespace_uncPrefix {unc : Text} (hlower : unc.map asciiLower = "unc".toList) :
    Backend.withoutNamespace ("//?/".toList ++ unc) = unc := by
  refine withoutNamespace_device (.inl rfl) ?_
  rw [unc_iff]
  rintro ⟨-, front, more, rfl, hfront⟩
  have hlen := congrArg List.length hlower
  have hlen' := congrArg List.length hfront
  simp at hlen hlen'
  omega

/-- **A path under a bare prefix** is read as one of the namespace. -/
theorem within_bare_iff (h : SamePath path same) (hbare : BarePrefix path)
    (hrel : rel.head? ≠ some '/') :
    Within (folded (Backend.withoutNamespace (same ++ '/' :: rel)))
        (folded (Backend.withoutNamespace path)) ↔
      path = "//?".toList ∧ ∃ rest, ('/' :: rel).map asciiLower = "/unc/?".toList ++ rest ∧
        (rest = [] ∨ ∃ more, rest = '/' :: more) := by
  rcases hbare with rfl | rfl | ⟨unc, rfl, hlower⟩
  · have hroot : folded (Backend.withoutNamespace "//?".toList) = "//?".toList := by decide
    obtain rfl := h.eq_of_mark (.inl rfl) rfl
    rw [hroot, and_iff_right rfl]
    exact within_question_iff hrel
  · have hroot : folded (Backend.withoutNamespace "//.".toList) = "//.".toList := by decide
    obtain rfl := h.eq_of_mark (.inr rfl) rfl
    have hunc : ¬ startsWith (('/' :: '/' :: '.' :: '/' :: rel).map asciiLower)
        "//?/unc/".toList = true := by
      rw [unc_iff]
      rintro ⟨hmark, -⟩
      exact absurd hmark (by decide)
    have hcore : Backend.withoutNamespace (['/', '/', '.'] ++ '/' :: rel) = rel :=
      withoutNamespace_device (.inr rfl) hunc
    rw [hroot, hcore]
    refine iff_of_false ?_ ?_
    · intro hwithin
      exact hrel ((head?_folded rel).mp (hwithin.head?_slash rfl))
    · rintro ⟨hmark, -⟩
      exact absurd hmark (by decide)
  · have hnamespaced : Namespaced ("//?/".toList ++ unc) := ⟨'?', unc, .inl rfl, rfl⟩
    have hlen : unc.length = 3 := by simpa using congrArg List.length hlower
    rcases h with rfl | ⟨hignores, -⟩
    · rw [withoutNamespace_unc hlower, withoutNamespace_uncPrefix hlower]
      refine iff_of_false ?_ ?_
      · -- the root would begin with a slash
        intro hwithin
        have hpath : (folded ('/' :: '/' :: rel)).head? = some '/' := (head?_folded _).mpr rfl
        have hne : folded unc ≠ [] := hwithin.1
        have hhead : (folded unc).head? = some '/' := by
          obtain ⟨c, rest, hfolded⟩ := List.exists_cons_of_ne_nil hne
          obtain ⟨more, hmore⟩ := hwithin.prefix
          rw [hfolded] at hmore ⊢
          rw [← hmore] at hpath
          exact hpath
        rw [head?_folded] at hhead
        obtain ⟨rest, rfl⟩ := List.head?_eq_some_iff.mp hhead
        exact absurd (List.cons_eq_cons.mp hlower).1 (by decide)
      · rintro ⟨hmark, -⟩
        have hlength := congrArg List.length hmark
        simp [hlen] at hlength
    · exact absurd hnamespaced hignores.not_namespaced

/-- A bare prefix is no drive. -/
theorem BarePrefix.not_drive (h : BarePrefix path) {c : Char} :
    ¬ BareDrive (Backend.withoutNamespace path) c := by
  rintro ⟨hdrive, -⟩
  have hlength : (Backend.withoutNamespace path).length = 2 := by rw [hdrive]; rfl
  rcases h with rfl | rfl | ⟨unc, rfl, hlower⟩
  · exact absurd hlength (by decide)
  · exact absurd hlength (by decide)
  · have hlen : unc.length = 3 := by simpa using congrArg List.length hlower
    rw [withoutNamespace_uncPrefix hlower, hlen] at hlength
    exact absurd hlength (by decide)

theorem within_iff (h : Below root cwd path same tail) :
    Within (Backend.normalizeRootPath cwd) (Backend.normalizeRootPath root) ↔
      Found path same tail := by
  rw [normalizeRootPath_spells h.root, normalizeRootPath_spells h.cwd]
  have hlast := h.root.2
  by_cases hne : path = []
  · subst hne
    refine iff_of_false (fun hwithin => hwithin.1 rfl) fun hfound => hfound.notRoot rfl
  · obtain ⟨hcore, hcoreLast⟩ := withoutNamespace_ends hne hlast
    rcases h.nested with rfl | ⟨rel, rfl, hrel⟩
    · rw [List.append_nil, within_same_iff h.same.withoutNamespace hcore]
      constructor
      · intro hdrive
        refine ⟨hne, fun c hc => ⟨fun _ => ?_, fun hnot => absurd rfl hnot⟩,
          fun _ hnot => absurd rfl hnot⟩
        exact h.same.withoutNamespace_eq_iff.mp (hdrive c hc)
      · intro hfound c hc
        exact h.same.withoutNamespace_eq_iff.mpr ((hfound.drive c hc).1 rfl)
    · by_cases hbare : BarePrefix path
      · rw [within_bare_iff h.same hbare hrel]
        constructor
        · intro hmark
          exact ⟨hne, fun c hc => absurd hc hbare.not_drive, fun _ _ => hmark⟩
        · exact fun hfound => hfound.bare hbare (List.cons_ne_nil _ _)
      · rw [h.same.withoutNamespace_nested hne hlast hbare,
          within_nested_iff h.same.withoutNamespace hcore hcoreLast]
        constructor
        · intro hdrive
          refine ⟨hne, fun c hc => ⟨fun hnil => ?_, fun _ => hdrive c hc⟩, fun hyes => ?_⟩
          · cases hnil
          · exact absurd hyes hbare
        · intro hfound c hc
          exact (hfound.drive c hc).2 (List.cons_ne_nil _ _)

/-- **Which directories are attributed.**  A directory that is the root of a workspace, or lies
    under it, is attributed to a workspace, and to one with the longest root that it lies in,
    whatever workspaces there are besides, if and only if the normal forms keep it in its root. -/
theorem resolve_below_iff (h : Below root cwd path same tail) :
    (∀ (workspaces : List WorkspaceInfo) (roots : List (Text × Text)),
      roots.Perm (workspaces.map fun w => (w.id, backendRoot w)) →
      (∃ w ∈ workspaces, w.path = root) →
        ∃ w, Backend.resolveWorkspaceForCwd cwd roots = some w.id ∧
          Backend.Picks workspaces cwd w) ↔
    Found path same tail := by
  rw [← within_iff h]
  constructor
  · intro hall
    -- the workspace alone
    obtain ⟨w, -, hpicks⟩ := hall [⟨[], root⟩] _ (List.Perm.refl _) ⟨_, List.mem_singleton_self _, rfl⟩
    obtain rfl := List.mem_singleton.mp hpicks.mem
    exact hpicks.within
  · rintro hwithin workspaces roots hroots ⟨w, hw, rfl⟩
    have hspec := @Backend.resolve_spec cwd _ _ hroots
    rcases hspec with ⟨-, hnone⟩ | hpicks
    · exact absurd hwithin (hnone w hw)
    · exact hpicks

/-- A text with backslashes that is written out. -/
theorem spells_plain {value path : Text} (slashes : Text) (hvalue : slashed value = path ++ slashes)
    (h : ∀ c ∈ slashes, c = '/') (hlast : path.getLast? ≠ some '/') : Spells value path :=
  ⟨hvalue ▸ .plain h, hlast⟩

/-- `C:\Dev\` and `c:/dev/codex`. -/
theorem below_dev : Below "C:\\Dev\\".toList "c:/dev/codex".toList "C:/Dev".toList "c:/dev".toList
    "/codex".toList where
  root := spells_plain "/".toList (by decide) (by decide) (by decide)
  cwd := spells_plain [] (by decide) (by decide) (by decide)
  same := .inr ⟨.inl ⟨'C', "/Dev".toList, by decide, by decide, .inr rfl⟩, by decide⟩
  nested := .inr ⟨"codex".toList, rfl, by decide⟩

theorem resolve_dev :
    ∃ w, Backend.resolveWorkspaceForCwd "c:/dev/codex".toList
        [("1".toList, Backend.normalizeRootPath "C:\\Dev\\".toList)] = some w.id ∧
      Backend.Picks [⟨"1".toList, "C:\\Dev\\".toList⟩] "c:/dev/codex".toList w := by
  refine (resolve_below_iff below_dev).mpr ?_ [⟨"1".toList, "C:\\Dev\\".toList⟩] _
    (List.Perm.refl _) ⟨_, List.mem_singleton_self _, rfl⟩
  have hcore : Backend.withoutNamespace "C:/Dev".toList = "C:/Dev".toList := by decide
  refine ⟨by decide, fun c hc => ?_, fun hbare => ?_⟩
  · rw [hcore] at hc
    have hlength := congrArg List.length hc.1
    exact absurd hlength (by simp)
  · rcases hbare with heq | heq | ⟨unc, heq, -⟩
    · exact absurd heq (by decide)
    · exact absurd heq (by decide)
    · exact absurd (List.cons_eq_cons.mp heq).1 (by decide)

/-- **No workspace on a whole drive** is found for the directories on that drive, nor one on the
    whole file system. -/
theorem drive_not_attributed :
    Below "C:\\".toList "C:\\Dev".toList "C:".toList "C:".toList "/Dev".toList ∧
      Below "/".toList "/tmp".toList [] [] "/tmp".toList ∧
      Backend.resolveWorkspaceForCwd "C:\\Dev".toList
        [("1".toList, Backend.normalizeRootPath "C:\\".toList)] = none ∧
      Backend.resolveWorkspaceForCwd "/tmp".toList
        [("1".toList, Backend.normalizeRootPath "/".toList)] = none := by
  refine ⟨⟨?_, ?_, .inl rfl, .inr ⟨"Dev".toList, rfl, by decide⟩⟩,
    ⟨?_, ?_, .inl rfl, .inr ⟨"tmp".toList, rfl, by decide⟩⟩, by decide +kernel, by decide +kernel⟩
  · exact spells_plain "/".toList (by decide) (by decide) (by decide)
  · exact spells_plain [] (by decide) (by decide) (by decide)
  · exact spells_plain "/".toList (by decide) (by decide) (by decide)
  · exact spells_plain [] (by decide) (by decide) (by decide)

end Attributed

end CodexMonitor.Threads
