import CodexMonitor.Workspaces.Operations

namespace CodexMonitor.WorkspaceStore

open Text

/-!
# Workspaces — the paths of worktrees

A worktree lies in a folder, under a name made of its branch.  Where the path leads is decided by
the folder: for every name the code forms, a process finds the path exactly if it finds the folder.

* `folderBase` — the text of a folder, up to the name.
* `PlainName` — names of letters, digits, `-`, `_` and `.`, as `sanitizeName` makes them.
* `resolve_folder`, `workspacePathToString_append` — reading and storing a path in a folder.
-/

/-! ### Folders -/

/-- The text of a folder with the separator behind it. -/
def folderBase (dir : Text) : Text :=
  if dir.isEmpty || endsWith dir "/".toList then dir else dir ++ "/".toList

/-- Empty, or with a separator at the end. -/
def IsFolder (base : Text) : Prop := base = [] ∨ ∃ dir, base = dir ++ ['/']

theorem isFolder_folderBase (dir : Text) : IsFolder (folderBase dir) := by
  unfold folderBase
  split
  next h =>
    rcases (Bool.or_eq_true _ _).mp h with h | h
    · exact .inl (List.isEmpty_iff.mp h)
    · obtain ⟨front, heq⟩ := List.isSuffixOf_iff_suffix.mp h
      exact .inr ⟨front, heq.symm⟩
  next => exact .inr ⟨dir, rfl⟩

theorem IsFolder.drop {base : Text} (h : IsFolder base) (n : Nat) : IsFolder (base.drop n) := by
  rcases h with rfl | ⟨dir, rfl⟩
  · exact .inl List.drop_nil
  · by_cases hn : n ≤ dir.length
    · exact .inr ⟨dir.drop n, List.drop_append_of_le_length hn⟩
    · apply Or.inl
      apply List.drop_eq_nil_of_le
      simp only [List.length_append, List.length_singleton]
      omega

/-! ### Names -/

def isFileNameChar (c : Char) : Bool := isAsciiAlphanumeric c || c = '-' || c = '_' || c = '.'

/-- The name of a file without separators, and without the signs of Windows paths. -/
structure PlainName (name : Text) : Prop where
  ne_nil : name ≠ []
  chars : ∀ c ∈ name, isFileNameChar c = true

/-- The signs that a name does not have. -/
theorem PlainName.ne_sign {name : Text} (h : PlainName name) {c : Char} (hc : c ∈ name) :
    c ≠ '/' ∧ c ≠ '\\' ∧ c ≠ ':' := by
  have hchar := h.chars c hc
  refine ⟨?_, ?_, ?_⟩ <;> (rintro rfl; exact absurd hchar (by decide))

theorem joinPath_plain {name : Text} (h : PlainName name) (dir : Text) :
    joinPath dir name = folderBase dir ++ name := by
  have hslash : startsWith name "/".toList = false := by
    rcases name with _ | ⟨c, cs⟩
    · rfl
    · have hne := (h.ne_sign List.mem_cons_self).1
      show ('/' == c && _) = false
      rw [beq_eq_false_iff_ne.mpr (Ne.symm hne), Bool.false_and]
  unfold joinPath folderBase
  rw [if_neg (by rw [hslash]; decide)]
  split <;> rfl

/-! ### Where a path leads -/

theorem components_folder {base : Text} (h : IsFolder base) {name : Text} (hname : PlainName name) :
    UnixPath.components (base ++ name) =
      UnixPath.components base ++ if name = ".".toList then [] else [name] := by
  have hsplit : splitOn '/' name = [name] :=
    splitOn_of_notMem fun hmem => (hname.ne_sign hmem).1 rfl
  have hown : UnixPath.components name = if name = ".".toList then [] else [name] := by
    unfold UnixPath.components
    rw [hsplit]
    by_cases hdot : name = ".".toList
    · rw [if_pos hdot, hdot]
      rfl
    · have hne : name ≠ ['.'] := hdot
      rw [if_neg hdot, List.filter_cons_of_pos, List.filter_nil]
      simpa [hname.ne_nil] using hne
  rcases h with rfl | ⟨dir, rfl⟩
  · rw [List.nil_append, hown]
    rfl
  · have hdir : UnixPath.components (dir ++ ['/']) = UnixPath.components dir := by
      unfold UnixPath.components
      rw [splitOn_append_sep, List.filter_append]
      simp [splitOn]
    rw [hdir, ← hown]
    unfold UnixPath.components
    rw [List.append_assoc, List.singleton_append, splitOn_append_sep, List.filter_append]

theorem isAbsolute_folder {base : Text} (h : IsFolder base) {name : Text} (hname : PlainName name) :
    UnixPath.isAbsolute (base ++ name) = UnixPath.isAbsolute base := by
  rcases h with rfl | ⟨dir, rfl⟩
  · obtain ⟨c, cs, rfl⟩ := List.exists_cons_of_ne_nil hname.ne_nil
    have hne := (hname.ne_sign List.mem_cons_self).1
    simp [UnixPath.isAbsolute, hne]
  · cases dir <;> rfl

/-- Without a home directory only the root is a start of its own. -/
theorem resolve_none (path : Text) (base : AbsPath) :
    UnixPath.resolve none path base =
      UnixPath.follow (if UnixPath.isAbsolute path then [] else base)
        (UnixPath.components path) := by
  unfold UnixPath.resolve
  rw [UnixPath.start?_eq]
  by_cases habs : UnixPath.isAbsolute path = true
  · rw [if_pos habs, if_pos habs]
  · rw [if_neg habs, if_neg habs]
    split
    next h => split at h <;> simp at h
    next => rfl

/-- **A path in a folder leads into where the folder leads.** -/
theorem resolve_folder {base : Text} (h : IsFolder base) {name : Text} (hname : PlainName name)
    (hdots : name ≠ "..".toList) (cwd : AbsPath) :
    UnixPath.resolve none (base ++ name) cwd =
      UnixPath.resolve none base cwd ++ if name = ".".toList then [] else [name] := by
  have hne : name ≠ ['.', '.'] := hdots
  rw [resolve_none, resolve_none, components_folder h hname, isAbsolute_folder h hname]
  unfold UnixPath.follow
  rw [List.foldl_append]
  by_cases hdot : name = ".".toList
  · rw [if_pos hdot, List.append_nil]
    rfl
  · rw [if_neg hdot, List.foldl_cons, List.foldl_nil, if_neg hne]

theorem resolve_folderBase (dir : Text) (cwd : AbsPath) :
    UnixPath.resolve none (folderBase dir) cwd = UnixPath.resolve none dir cwd := by
  unfold folderBase
  split
  · rfl
  next h =>
    have hne : dir ≠ [] := by
      rintro rfl
      exact h rfl
    obtain ⟨c, cs, rfl⟩ := List.exists_cons_of_ne_nil hne
    rw [resolve_none, resolve_none]
    congr 1
    unfold UnixPath.components
    show List.filter _ (splitOn '/' ((c :: cs) ++ '/' :: [])) = _
    rw [splitOn_append_sep, List.filter_append]
    simp [splitOn]

/-! ### How a path is stored -/

theorem isFileNameChar_asciiLower {c sign : Char} (hc : isFileNameChar c = true)
    (hsign : sign = '/' ∨ sign = '\\') : asciiLower c ≠ sign := by
  intro h
  have heq : c = sign := by
    rcases hsign with rfl | rfl
    · exact (asciiLower_eq_iff (by decide) c).mp h
    · exact (asciiLower_eq_iff (by decide) c).mp h
  rw [heq] at hc
  rcases hsign with rfl | rfl <;> exact absurd hc (by decide)

/-- A prefix that ends with a separator lies in the folder. -/
theorem stripAsciiCase_folder {base name start : Text} (sign : Char) (hname : PlainName name)
    (hstart : start.getLast? = some sign) (hsign : sign = '/' ∨ sign = '\\') :
    stripAsciiCase (base ++ name) start = (stripAsciiCase base start).map (· ++ name) := by
  unfold stripAsciiCase
  by_cases hlen : start.length ≤ base.length
  · rw [List.take_append_of_le_length hlen, List.drop_append_of_le_length hlen]
    split <;> rfl
  · have hbase : ¬ eqIgnoreAsciiCase (base.take start.length) start = true := by
      intro h
      have heq := congrArg List.length (eq_of_beq h)
      simp only [List.length_map, List.length_take] at heq
      omega
    have hboth : ¬ eqIgnoreAsciiCase ((base ++ name).take start.length) start = true := by
      intro h
      -- the last character of the prefix would be one of the name
      have heq := congrArg List.getLast? (eq_of_beq h)
      obtain ⟨n, hn⟩ : ∃ n, start.length = base.length + (n + 1) :=
        ⟨start.length - base.length - 1, by omega⟩
      obtain ⟨c, cs, rfl⟩ := List.exists_cons_of_ne_nil hname.ne_nil
      rw [hn, List.take_append, List.take_of_length_le (by omega), Nat.add_sub_cancel_left,
        List.take_succ_cons, List.getLast?_map, List.getLast?_map, hstart,
        List.getLast?_append_of_ne_nil _ (by simp)] at heq
      obtain ⟨d, hd⟩ : ∃ d, (c :: cs.take n).getLast? = some d :=
        ⟨_, List.getLast?_eq_some_getLast (by simp)⟩
      rw [hd] at heq
      have hmem : d ∈ c :: cs := by
        rcases List.mem_cons.mp (List.mem_of_getLast? hd) with rfl | hmem
        · exact List.mem_cons_self
        · exact List.mem_cons_of_mem _ (List.mem_of_mem_take hmem)
      have hlower : asciiLower sign = sign := by rcases hsign with rfl | rfl <;> rfl
      exact isFileNameChar_asciiLower (hname.chars d hmem) hsign
        ((Option.some.inj heq).trans hlower)
    rw [if_neg hbase, if_neg hboth]
    rfl

theorem startsWithDrivePath_folder {base name : Text} (h : IsFolder base) (hname : PlainName name) :
    startsWithDrivePath (base ++ name) = startsWithDrivePath base := by
  rcases base with _ | ⟨a, _ | ⟨b, _ | ⟨c, cs⟩⟩⟩
  · -- the second character of a name is no colon
    rcases name with _ | ⟨a, _ | ⟨b, _ | ⟨c, cs⟩⟩⟩
    · rfl
    · rfl
    · rfl
    · have hne := (hname.ne_sign (List.mem_cons_of_mem a List.mem_cons_self)).2.2
      simp [startsWithDrivePath, hne]
  · obtain rfl : a = '/' := by
      rcases h with h | ⟨dir, h⟩
      · cases h
      · simpa using congrArg List.getLast? h
    rcases name with _ | ⟨b, _ | ⟨c, cs⟩⟩ <;> simp [startsWithDrivePath, isAsciiAlphabetic]
  · obtain rfl : b = '/' := by
      rcases h with h | ⟨dir, h⟩
      · cases h
      · simpa using congrArg List.getLast? h
    rcases name with _ | ⟨c, cs⟩ <;> simp [startsWithDrivePath]
  · rfl

theorem stripDrive_folder {base name start : Text} (sign : Char) (h : IsFolder base)
    (hname : PlainName name) (hstart : start.getLast? = some sign)
    (hsign : sign = '/' ∨ sign = '\\') :
    stripDrive (base ++ name) start = (stripDrive base start).map (· ++ name) := by
  unfold stripDrive
  rw [stripAsciiCase_folder sign hname hstart hsign]
  unfold stripAsciiCase
  split
  · have hrest := startsWithDrivePath_folder (h.drop start.length) hname
    show Option.filter _ (some (_ ++ name)) = Option.map _ (Option.filter _ (some _))
    rw [Option.filter_some, Option.filter_some, hrest]
    split <;> rfl
  · rfl

/-- **A path in a folder is stored under the stored folder.** -/
theorem workspacePathToString_append {base name : Text} (h : IsFolder base)
    (hname : PlainName name) :
    workspacePathToString (base ++ name) = workspacePathToString base ++ name := by
  unfold workspacePathToString normalizeWindowsNamespacePath
  rw [stripAsciiCase_folder '\\' hname rfl (.inr rfl),
    stripAsciiCase_folder '/' hname rfl (.inl rfl), stripDrive_folder '\\' h hname rfl (.inr rfl),
    stripDrive_folder '/' h hname rfl (.inl rfl), stripDrive_folder '\\' h hname rfl (.inr rfl),
    stripDrive_folder '/' h hname rfl (.inl rfl)]
  cases stripAsciiCase base "\\\\?\\UNC\\".toList with
  | some rest => exact (List.append_assoc _ rest name).symm
  | none =>
    cases stripAsciiCase base "//?/UNC/".toList with
    | some rest => exact (List.append_assoc _ rest name).symm
    | none =>
      cases stripDrive base "\\\\?\\".toList with
      | some rest => rfl
      | none =>
        cases stripDrive base "//?/".toList with
        | some rest => rfl
        | none =>
          cases stripDrive base "\\\\.\\".toList with
          | some rest => rfl
          | none => cases stripDrive base "//./".toList <;> rfl

theorem stripAsciiCase_eq_some {value start rest : Text}
    (h : stripAsciiCase value start = some rest) :
    rest = value.drop start.length ∧ (value.take start.length).map asciiLower =
      start.map asciiLower := by
  unfold stripAsciiCase at h
  split at h
  next heq => exact ⟨(Option.some.inj h).symm, eq_of_beq heq⟩
  next => cases h

/-- Behind a prefix that ends with a backslash there is more of a folder. -/
theorem IsFolder.rest_ne_nil {base start rest : Text} (h : IsFolder base)
    (hstart : start.getLast? = some '\\') (hrest : stripAsciiCase base start = some rest) :
    rest ≠ [] := by
  rintro rfl
  obtain ⟨hnil, heq⟩ := stripAsciiCase_eq_some hrest
  have hlast := congrArg List.getLast? heq
  rw [List.take_of_length_le (List.drop_eq_nil_iff.mp hnil.symm), List.getLast?_map,
    List.getLast?_map, hstart] at hlast
  rcases h with rfl | ⟨dir, rfl⟩
  · cases hlast
  · rw [List.getLast?_concat] at hlast
    exact absurd hlast (by decide)

theorem IsFolder.append {base : Text} (h : IsFolder base) (front : Text) (hne : base ≠ []) :
    IsFolder (front ++ base) := by
  rcases h with rfl | ⟨dir, rfl⟩
  · exact absurd rfl hne
  · exact .inr ⟨front ++ dir, (List.append_assoc front dir _).symm⟩

theorem IsFolder.of_stripDrive {base start rest : Text} (h : IsFolder base)
    (hrest : stripDrive base start = some rest) : IsFolder rest := by
  obtain ⟨hstrip, -⟩ := Option.filter_eq_some_iff.mp hrest
  rw [(stripAsciiCase_eq_some hstrip).1]
  exact h.drop _

/-- What is stored for a folder is one. -/
theorem IsFolder.stored {base : Text} (h : IsFolder base) :
    IsFolder (workspacePathToString base) := by
  unfold workspacePathToString normalizeWindowsNamespacePath
  split
  next rest hrest =>
    have hne := h.rest_ne_nil rfl hrest
    rw [(stripAsciiCase_eq_some hrest).1] at hne ⊢
    exact (h.drop _).append _ hne
  next =>
    split
    next rest hrest =>
      by_cases hne : rest = []
      · rw [hne]
        exact .inr ⟨['/'], rfl⟩
      · rw [(stripAsciiCase_eq_some hrest).1] at hne ⊢
        exact (h.drop _).append _ hne
    next =>
      cases hunc : stripDrive base "\\\\?\\".toList with
      | some rest => exact h.of_stripDrive hunc
      | none =>
        cases hslash : stripDrive base "//?/".toList with
        | some rest => exact h.of_stripDrive hslash
        | none =>
          cases hdot : stripDrive base "\\\\.\\".toList with
          | some rest => exact h.of_stripDrive hdot
          | none =>
            cases hlast : stripDrive base "//./".toList with
            | some rest => exact h.of_stripDrive hlast
            | none => exact h

/-! ### The paths that are tried -/

theorem isFileNameChar_of_isDigit {c : Char} (h : c.isDigit = true) : isFileNameChar c = true := by
  unfold isFileNameChar isAsciiAlphanumeric
  simp only [Char.isDigit, Bool.and_eq_true, decide_eq_true_eq] at h
  have hdigit : ('0' ≤ c && c ≤ '9') = true := by
    rw [Bool.and_eq_true, decide_eq_true_eq, decide_eq_true_eq]
    exact h
  rw [hdigit]
  simp

theorem PlainName.numbered {name : Text} (h : PlainName name) (n : Nat) :
    PlainName (name ++ "-".toList ++ (toString n).toList) where
  ne_nil := by simp [h.ne_nil]
  chars := by
    intro c hc
    rcases List.mem_append.mp hc with hc | hc
    · rcases List.mem_append.mp hc with hc | hc
      · exact h.chars c hc
      · rw [List.mem_singleton.mp hc]
        decide
    · apply isFileNameChar_of_isDigit
      rw [Nat.toString_eq_repr, Nat.repr_eq_ofList_toDigits, String.toList_ofList] at hc
      exact Nat.isDigit_of_mem_toDigits (by decide) (by decide) hc

/-- The names that `sanitizeName` makes. -/
theorem sanitizeName_plain {fallback : Text} (h : PlainName fallback) (value : Text) :
    PlainName (sanitizeName value fallback) := by
  unfold sanitizeName
  simp only []
  split
  next => exact h
  next hne =>
    refine ⟨fun hnil => hne (List.isEmpty_iff.mpr hnil), fun c hc => ?_⟩
    have hmem := (List.dropWhile_sublist _).mem ((List.rdropWhile_prefix _ _).sublist.mem hc)
    obtain ⟨d, -, rfl⟩ := List.mem_map.mp hmem
    unfold isFileNameChar
    split
    next hchar => simpa [or_assoc] using hchar
    next => decide

/-- Two dots stand only for two dots. -/
theorem dots_of_sanitizeName {value fallback : Text} (hfallback : fallback ≠ "..".toList)
    (h : sanitizeName value fallback = "..".toList) : "..".toList <:+: value := by
  unfold sanitizeName at h
  simp only [] at h
  split at h
  · exact absurd h hfallback
  · obtain ⟨front, back, heq⟩ : "..".toList <:+: value.map fun c =>
        if isAsciiAlphanumeric c || c = '-' || c = '_' || c = '.' then c else '-' := by
      rw [← h]
      exact (List.rdropWhile_prefix _ _).isInfix.trans (List.dropWhile_suffix _).isInfix
    obtain ⟨rest, last, rfl, hrest, -⟩ := List.map_eq_append_iff.mp heq.symm
    obtain ⟨first, dots, rfl, -, hdots⟩ := List.map_eq_append_iff.mp hrest
    -- a character that becomes a dot is one
    have hdot : ∀ c : Char, (if isAsciiAlphanumeric c || c = '-' || c = '_' || c = '.' then c
        else '-') = '.' → c = '.' := by
      intro c hc
      split at hc
      · exact hc
      · cases hc
    have hsame : dots = "..".toList := by
      rcases dots with _ | ⟨a, _ | ⟨b, _ | ⟨c, cs⟩⟩⟩
      · exact absurd (congrArg List.length hdots) (by simp)
      · exact absurd (congrArg List.length hdots) (by simp)
      · simp only [List.map_cons, List.map_nil] at hdots
        obtain ⟨ha, htail⟩ := List.cons_eq_cons.mp hdots
        rw [hdot a ha, hdot b (List.cons_eq_cons.mp htail).1]
        rfl
      · exact absurd (congrArg List.length hdots) (by simp)
    exact ⟨first, last, by rw [hsame]⟩

theorem numbered_ne_dots (name : Text) (n : Nat) :
    name ++ "-".toList ++ (toString n).toList ≠ ".".toList ∧
      name ++ "-".toList ++ (toString n).toList ≠ "..".toList := by
  have hdash : '-' ∈ name ++ "-".toList ++ (toString n).toList := by simp
  constructor
  all_goals
    intro h
    rw [h] at hdash
    exact absurd hdash (by decide)

/-- **A path that is tried lies in the folder**, under a plain name. -/
theorem mem_candidatePaths {dir name path : Text} (h : PlainName name)
    (hmem : path ∈ candidatePaths dir name) : ∃ file, PlainName file ∧
      path = folderBase dir ++ file ∧
      (file = name ∨ file ≠ ".".toList ∧ file ≠ "..".toList) := by
  unfold candidatePaths at hmem
  rcases List.mem_cons.mp hmem with rfl | hmem
  · exact ⟨name, h, joinPath_plain h dir, .inl rfl⟩
  · obtain ⟨n, -, rfl⟩ := List.mem_map.mp hmem
    exact ⟨_, h.numbered n, joinPath_plain (h.numbered n) dir, .inr (numbered_ne_dots name n)⟩

end CodexMonitor.WorkspaceStore
