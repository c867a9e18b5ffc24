import CodexMonitor.Lib.Text

namespace CodexMonitor

/-!
# Unix paths — absolute and normalized

An absolute, lexically normalized path is the list of its components: no empty, `.` or
`..` component is left, and the root is the empty list.  A path text is resolved against a
base by `resolve`, which also expands a leading `~`.  Two texts may be the `same` path.
-/

/-- An absolute normalized path, as its components from the root. -/
abbrev AbsPath := List Text

namespace UnixPath

open Text

/-- The components of a path text, without the empty and `.` ones. -/
def components (path : Text) : List Text :=
  (path.splitOn '/').filter fun c => !c.isEmpty && c != ['.']

def isAbsolute (path : Text) : Bool := path.head? == some '/'

/-- Follow the components from `base`; `..` goes up and stays at the root. -/
def follow (base : AbsPath) (cs : List Text) : AbsPath :=
  cs.foldl (fun dir c => if c = ['.', '.'] then dir.dropLast else dir ++ [c]) base

/-- Where a path text starts on its own, and the components that remain: a leading `~` is
    the home directory when there is one, a leading `/` the root.  A relative path has no
    start of its own. -/
def start? (home : Option AbsPath) (path : Text) : Option (AbsPath × List Text) :=
  match path, home with
  | ['~'], some dir => some (dir, [])
  | '~' :: '/' :: rest, some dir => some (dir, components rest)
  | _, _ => if isAbsolute path then some ([], components path) else none

/-- The path text resolved against an absolute base. -/
def resolve (home : Option AbsPath) (path : Text) (base : AbsPath) : AbsPath :=
  match start? home path with
  | some (dir, rest) => follow dir rest
  | none => follow base (components path)

/-- The last component; the root has none. -/
def fileName (path : AbsPath) : Option Text := path.getLast?

/-- The directory the path lies in; the root lies in none. -/
def parent (path : AbsPath) : Option AbsPath :=
  if path.isEmpty then none else some path.dropLast

/-- What follows the last dot of a file name; a name that only starts with a dot has no
    extension. -/
def extension (name : Text) : Option Text :=
  let after := (name.reverse.takeWhile (· != '.')).reverse
  if name.contains '.' && name.length != after.length + 1 then some after else none

/-- The text of an absolute path. -/
def display (path : AbsPath) : Text :=
  if path.isEmpty then ['/'] else path.flatMap fun c => '/' :: c

/-! ### Texts of one path -/

/-- A path text that begins with the component `.`, which `Path::components` keeps there. -/
def startsInCurDir (path : Text) : Bool := (path.splitOn '/').head? == some ['.']

/-- Whether two path texts are the same `Path`: repeated separators, those at the end and inner
    `.` do not count. -/
def same (a b : Text) : Bool :=
  isAbsolute a == isAbsolute b && startsInCurDir a == startsInCurDir b &&
    components a == components b

theorem components_home_slash (path : Text) :
    components ('~' :: '/' :: path) = ['~'] :: components path := by
  simp [components, splitOn]

/-- The first component of a relative path that does not begin with the component `.`. -/
theorem components_of_relative {c : Char} {t : Text} (hc : c ≠ '/')
    (hcur : startsInCurDir (c :: t) = false) :
    ∃ piece rest, splitOn '/' t = piece :: rest ∧
      components (c :: t) = (c :: piece) :: rest.filter fun c => !c.isEmpty && c != ['.'] := by
  obtain ⟨piece, rest, hsplit, heq⟩ := splitOn_cons_of_ne hc t
  refine ⟨piece, rest, hsplit, ?_⟩
  have hne : (c :: piece) ≠ ['.'] := by
    intro h
    rw [startsInCurDir, heq, h] at hcur
    simp at hcur
  rw [components, heq, List.filter_cons_of_pos]
  simpa using hne

/-- **Where a path text starts depends on its components.** -/
theorem start?_eq (home : Option AbsPath) (path : Text) :
    start? home path =
      if isAbsolute path then some ([], components path)
      else if startsInCurDir path then none
      else match home, components path with
        | some dir, ['~'] :: rest => some (dir, rest)
        | _, _ => none := by
  cases home with
  | none => simp [start?]
  | some dir =>
    rcases path with _ | ⟨c, t⟩
    · rfl
    by_cases hc : c = '/'
    · simp [start?, isAbsolute, hc]
    by_cases hcur : startsInCurDir (c :: t) = true
    · have hne : c ≠ '~' := by
        rintro rfl
        obtain ⟨piece, rest, -, heq⟩ := splitOn_cons_of_ne hc t
        simp [startsInCurDir, heq] at hcur
      simp [start?, isAbsolute, hc, hne, hcur]
    obtain ⟨piece, rest, hsplit, hcomps⟩ := components_of_relative hc (by simpa using hcur)
    by_cases hhome : c = '~'
    · subst hhome
      rcases t with _ | ⟨d, u⟩
      · obtain ⟨rfl, rfl⟩ := List.cons_eq_cons.mp hsplit
        simp [start?, isAbsolute, hcur, hcomps]
      by_cases hd : d = '/'
      · subst hd
        simp [start?, isAbsolute, hcur, components_home_slash]
      · obtain ⟨_, _, -, heq⟩ := splitOn_cons_of_ne hd u
        obtain ⟨rfl, rfl⟩ := List.cons_eq_cons.mp (hsplit.symm.trans heq)
        simp [start?, isAbsolute, hcur, hcomps, hd]
    · simp [start?, isAbsolute, hc, hhome, hcur, hcomps]

/-- Texts of the same path are resolved alike. -/
theorem resolve_congr {a b : Text} (h : same a b = true) (home : Option AbsPath) (base : AbsPath) :
    resolve home a base = resolve home b base := by
  simp only [same, Bool.and_eq_true, beq_iff_eq] at h
  obtain ⟨⟨habs, hcur⟩, hcomps⟩ := h
  unfold resolve
  rw [start?_eq, start?_eq, habs, hcur, hcomps]

end UnixPath

end CodexMonitor
