import Mathlib.Data.List.Infix
import Mathlib.Logic.Function.Basic

namespace CodexMonitor

/-!
# Disks — directories, files with their contents, and the calls that change them

A path is the list of its components.  A disk says what stands at each path; below a path that is
not a directory nothing stands, which the disk carries as a field.

* `Disk.createDirAll`, `writeFile`, `removeFile`, `rename` — the calls, with the errors that follow
  from what is on the disk.
* `SameFiles` — two disks with the same files.
* `move_move` — a move and the move back restore the disk.
-/

/-- What stands at a path.  Where a link leads is left open. -/
inductive Node (β : Type*)
  | file (bytes : β)
  | dir
  | link
  deriving DecidableEq, Repr

inductive IoError
  | notFound
  | alreadyExists
  | notADirectory
  | isADirectory
  | invalidInput
  | other
  deriving DecidableEq, Repr

structure Disk (α β : Type*) where
  node : List α → Option (Node β)
  closed : ∀ p q, q ≠ [] → node p ≠ some .dir → node (p ++ q) = none

namespace Disk

variable {α β : Type*} {d d' : Disk α β} {p q old new : List α} {bytes : β}

@[ext] theorem ext (h : ∀ p, d.node p = d'.node p) : d = d' := by
  cases d
  cases d'
  congr
  exact funext h

/-! ### What is on a disk -/

/-- The content of the file at a path. -/
def file (d : Disk α β) (p : List α) : Option β :=
  match d.node p with
  | some (.file bytes) => some bytes
  | _ => none

def isDir (d : Disk α β) (p : List α) : Bool :=
  match d.node p with
  | some .dir => true
  | _ => false

def isLink (d : Disk α β) (p : List α) : Bool :=
  match d.node p with
  | some .link => true
  | _ => false

def present (d : Disk α β) (p : List α) : Bool := (d.node p).isSome

theorem isDir_iff : d.isDir p = true ↔ d.node p = some .dir := by
  unfold isDir
  cases hnode : d.node p with
  | none => simp
  | some node => cases node <;> simp

theorem file_eq_some : d.file p = some bytes ↔ d.node p = some (.file bytes) := by
  unfold file
  cases hnode : d.node p with
  | none => simp
  | some node => cases node <;> simp

theorem file_of_none (h : d.node p = none) : d.file p = none := by
  unfold file
  rw [h]

theorem file_of_dir (h : d.node p = some .dir) : d.file p = none := by
  unfold file
  rw [h]

theorem file_congr {r : List α} (h : d.node p = d'.node r) : d.file p = d'.file r := by
  unfold file
  rw [h]

/-- What is above something that exists is a directory. -/
theorem dir_of_append (hq : q ≠ []) (h : d.node (p ++ q) ≠ none) : d.node p = some .dir := by
  by_contra hdir
  exact h (d.closed p q hq hdir)

theorem dir_of_prefix (hle : p <+: q) (hne : p ≠ q) (h : d.node q ≠ none) :
    d.node p = some .dir := by
  obtain ⟨rest, rfl⟩ := hle
  exact dir_of_append (fun hrest => hne (by rw [hrest, List.append_nil])) h

/-- Where nothing was, nothing is below. -/
theorem node_below_none (hfree : d.node p = none) (rest : List α) : d.node (p ++ rest) = none := by
  by_cases hrest : rest = []
  · rw [hrest, List.append_nil, hfree]
  · exact d.closed p rest hrest (by rw [hfree]; simp)

/-- Two disks have the same files, with the same contents. -/
def SameFiles (d d' : Disk α β) : Prop := ∀ p, d.file p = d'.file p

theorem SameFiles.refl (d : Disk α β) : SameFiles d d := fun _ => rfl

theorem SameFiles.symm (h : SameFiles d d') : SameFiles d' d := fun p => (h p).symm

theorem SameFiles.trans {e : Disk α β} (h : SameFiles d d') (h' : SameFiles d' e) :
    SameFiles d e := fun p => (h p).trans (h' p)

variable [DecidableEq α]

/-! ### Making directories -/

/-- Nothing but directories is on the way. -/
def Passable (d : Disk α β) (p : List α) : Prop :=
  ∀ q ∈ p.inits, d.node q = none ∨ d.node q = some .dir

instance : Decidable (d.Passable p) :=
  decidable_of_iff (∀ q ∈ p.inits, d.present q = false ∨ d.isDir q = true) (by
    simp only [Passable, present, isDir_iff, Option.isSome_eq_false_iff, Option.isNone_iff_eq_none])

def makeDirs (d : Disk α β) (p : List α) : Disk α β where
  node q := if q <+: p then some .dir else d.node q
  closed := by
    intro r q hq hdir
    by_cases hr : r <+: p
    · rw [if_pos hr] at hdir
      exact absurd rfl hdir
    · rw [if_neg hr] at hdir
      have hrq : ¬ r ++ q <+: p := fun hle => hr ((List.prefix_append r q).trans hle)
      rw [if_neg hrq]
      exact d.closed r q hq hdir

/-- `std::fs::create_dir_all` -/
def createDirAll (d : Disk α β) (p : List α) : Except IoError (Disk α β) :=
  if d.Passable p then .ok (d.makeDirs p)
  else .error (if d.present p then .alreadyExists else .notADirectory)

theorem node_createDirAll (h : d.createDirAll p = .ok d') :
    d.Passable p ∧ ∀ q, d'.node q = if q <+: p then some .dir else d.node q := by
  unfold createDirAll at h
  split at h
  next hpass =>
    obtain rfl := Except.ok.inj h
    exact ⟨hpass, fun q => rfl⟩
  next => cases h

/-- No file is changed. -/
theorem sameFiles_createDirAll (h : d.createDirAll p = .ok d') : SameFiles d d' := by
  obtain ⟨hpass, hnode⟩ := node_createDirAll h
  intro q
  by_cases hq : q <+: p
  · have hdir : d'.file q = none := file_of_dir (by rw [hnode, if_pos hq])
    rw [hdir]
    rcases hpass q ((List.mem_inits _ _).mpr hq) with hnone | hdir
    · exact file_of_none hnone
    · exact file_of_dir hdir
  · exact file_congr (by rw [hnode, if_neg hq])

/-- A directory that exists is left as it is. -/
theorem createDirAll_of_dir (h : d.node p = some .dir) : d.createDirAll p = .ok d := by
  have habove : ∀ q, q <+: p → d.node q = some .dir := by
    intro q hq
    by_cases heq : q = p
    · rw [heq, h]
    · exact dir_of_prefix hq heq (by rw [h]; simp)
  have hpass : d.Passable p := fun q hq => .inr (habove q ((List.mem_inits _ _).mp hq))
  unfold createDirAll
  rw [if_pos hpass]
  congr 1
  refine ext fun q => ?_
  show (if q <+: p then some Node.dir else d.node q) = d.node q
  by_cases hq : q <+: p
  · rw [if_pos hq, habove q hq]
  · rw [if_neg hq]

/-! ### Writing and removing a file -/

/-- A file can be put at the path. -/
def Writable (d : Disk α β) (p : List α) : Prop :=
  p ≠ [] ∧ d.isDir p = false ∧ d.isDir p.dropLast = true

instance : Decidable (d.Writable p) := inferInstanceAs (Decidable (_ ∧ _ ∧ _))

/-- Above a path whose parent is a directory all is directories. -/
theorem dir_above_of_dropLast (hp : p ≠ []) (hparent : d.isDir p.dropLast = true) (hle : q <+: p)
    (hne : q ≠ p) : d.node q = some .dir := by
  have hparent := isDir_iff.mp hparent
  have hle' : q <+: p.dropLast := by
    rw [← List.dropLast_append_getLast hp] at hle hne
    rcases List.prefix_concat_iff.mp hle with heq | hle
    · exact absurd heq hne
    · exact hle
  by_cases heq : q = p.dropLast
  · rw [heq, hparent]
  · exact dir_of_prefix hle' heq (by rw [hparent]; simp)

def put (d : Disk α β) (p : List α) (bytes : β) (h : d.Writable p) : Disk α β where
  node := Function.update d.node p (some (.file bytes))
  closed := by
    intro r q hq hdir
    have hnotdir : d.node r ≠ some .dir := by
      by_cases hr : r = p
      · rw [hr, Ne, ← isDir_iff, h.2.1]
        exact Bool.false_ne_true
      · rwa [Function.update_of_ne hr] at hdir
    by_cases hrq : r ++ q = p
    · have hne : r ≠ p := by
        rintro rfl
        exact hq (List.append_right_eq_self.mp hrq)
      exact absurd (dir_above_of_dropLast h.1 h.2.2 ⟨q, hrq⟩ hne) hnotdir
    · rw [Function.update_of_ne hrq]
      exact d.closed r q hq hnotdir

/-- `std::fs::write`; what is written through a link goes elsewhere. -/
def writeFile (d : Disk α β) (p : List α) (bytes : β) : Except IoError (Disk α β) :=
  if d.isLink p then .ok d
  else if h : d.Writable p then .ok (d.put p bytes h)
  else .error (if d.isDir p then .isADirectory else .notFound)

theorem writeFile_of_writable (h : d.Writable p) (hlink : d.isLink p = false) :
    d.writeFile p bytes = .ok (d.put p bytes h) := by
  unfold writeFile
  rw [if_neg (by rw [hlink]; exact Bool.false_ne_true), dif_pos h]

@[simp] theorem node_put_self (h : d.Writable p) :
    (d.put p bytes h).node p = some (.file bytes) := Function.update_self _ _ _

theorem node_put_of_ne (h : d.Writable p) (hq : q ≠ p) : (d.put p bytes h).node q = d.node q :=
  Function.update_of_ne hq _ _

def erase (d : Disk α β) (p : List α) (h : d.isDir p = false) : Disk α β where
  node := Function.update d.node p none
  closed := by
    intro r q hq hdir
    by_cases hrq : r ++ q = p
    · rw [hrq, Function.update_self]
    · rw [Function.update_of_ne hrq]
      refine d.closed r q hq ?_
      intro hr
      by_cases heq : r = p
      · rw [heq, ← isDir_iff, h] at hr
        exact Bool.false_ne_true hr
      · rw [Function.update_of_ne heq] at hdir
        exact hdir hr

/-- `std::fs::remove_file` -/
def removeFile (d : Disk α β) (p : List α) : Except IoError (Disk α β) :=
  if d.present p then
    if h : d.isDir p = false then .ok (d.erase p h) else .error .isADirectory
  else .error .notFound

/-! ### Moving -/

/-- There is something to move and a directory to move it to; it is not moved below itself, and
    nothing but a file is replaced, by what is not a directory. -/
def Movable (d : Disk α β) (old new : List α) : Prop :=
  d.present old = true ∧ new ≠ [] ∧ d.isDir new.dropLast = true ∧ ¬ old <+: new ∧
    (d.present new = false ∨ d.isDir new = false ∧ d.isDir old = false)

instance : Decidable (d.Movable old new) := inferInstanceAs (Decidable (_ ∧ _ ∧ _ ∧ _ ∧ _))

/-- What is below the old path is below the new one, and nothing is left. -/
def move (d : Disk α β) (old new : List α) (h : d.Movable old new) : Disk α β where
  node q :=
    if new <+: q then d.node (old ++ q.drop new.length)
    else if old <+: q then none
    else d.node q
  closed := by
    intro r q hq hdir
    obtain ⟨_, hnew, hparent, hbelow, _⟩ := h
    by_cases hr : new <+: r
    · obtain ⟨s, rfl⟩ := hr
      rw [if_pos (List.prefix_append _ _), List.drop_left] at hdir
      rw [List.append_assoc, if_pos (List.prefix_append _ _), List.drop_left, ← List.append_assoc]
      exact d.closed _ q hq hdir
    · rw [if_neg hr] at hdir
      by_cases hrq : new <+: r ++ q
      · -- what is above the new path is a directory, and is not moved
        have hle : r <+: new := by
          rcases List.prefix_or_prefix_of_prefix hrq (List.prefix_append r q) with h | h
          · exact absurd h hr
          · exact h
        have hnotold : ¬ old <+: r := fun hold => hbelow (hold.trans hle)
        rw [if_neg hnotold] at hdir
        have hne : r ≠ new := by
          rintro rfl
          exact hr List.prefix_rfl
        exact absurd (dir_above_of_dropLast hnew hparent hle hne) hdir
      · rw [if_neg hrq]
        by_cases hold : old <+: r
        · rw [if_pos (hold.trans (List.prefix_append r q))]
        · rw [if_neg hold] at hdir
          rw [d.closed r q hq hdir, ite_self]

/-- `std::fs::rename` -/
def rename (d : Disk α β) (old new : List α) : Except IoError (Disk α β) :=
  if h : d.Movable old new then .ok (d.move old new h)
  else .error (
    if !d.present old then .notFound
    else if old <+: new then .invalidInput
    else if d.isDir new then .isADirectory
    else .notADirectory)

theorem movable_of_rename (h : d.rename old new = .ok d') :
    ∃ hmove : d.Movable old new, d' = d.move old new hmove := by
  unfold rename at h
  split at h
  next hmove => exact ⟨hmove, (Except.ok.inj h).symm⟩
  next => cases h

@[simp] theorem node_move_new (h : d.Movable old new) (rest : List α) :
    (d.move old new h).node (new ++ rest) = d.node (old ++ rest) := by
  show (if new <+: new ++ rest then _ else _) = _
  rw [if_pos (List.prefix_append _ _), List.drop_left]

theorem node_move_old (h : d.Movable old new) (hnew : ¬ new <+: q) (hold : old <+: q) :
    (d.move old new h).node q = none := by
  show (if new <+: q then _ else if old <+: q then _ else _) = _
  rw [if_neg hnew, if_pos hold]

theorem node_move_of_not (h : d.Movable old new) (hnew : ¬ new <+: q) (hold : ¬ old <+: q) :
    (d.move old new h).node q = d.node q := by
  show (if new <+: q then _ else if old <+: q then _ else _) = _
  rw [if_neg hnew, if_neg hold]

theorem node_move_self (h : d.Movable old new) : (d.move old new h).node new = d.node old := by
  have hnode := node_move_new h []
  rwa [List.append_nil, List.append_nil] at hnode

omit [DecidableEq α] in
/-- A free path is not above what is moved to it. -/
theorem Movable.not_above (h : d.Movable old new) (hfree : d.node new = none) :
    ¬ new <+: old := by
  rintro ⟨rest, rfl⟩
  have hexists : d.node (new ++ rest) ≠ none := Option.isSome_iff_ne_none.mp h.1
  by_cases hrest : rest = []
  · rw [hrest, List.append_nil] at hexists
    exact hexists hfree
  · rw [dir_of_append hrest hexists] at hfree
    cases hfree

/-- **Moving back.** What was moved to a free path can be moved back, which restores the disk. -/
theorem move_move (h : d.Movable old new) (hfree : d.node new = none) :
    (d.move old new h).rename new old = .ok d := by
  have habove := h.not_above hfree
  obtain ⟨hold, hnew, hparent, hbelow, _⟩ := id h
  have hexists : d.node old ≠ none := Option.isSome_iff_ne_none.mp hold
  have hne : old ≠ [] := by
    rintro rfl
    exact hbelow List.nil_prefix
  have hmoved : (d.move old new h).node new = d.node old := node_move_self h
  have hgone : (d.move old new h).node old = none := node_move_old h habove List.prefix_rfl
  have hdropLast : (d.move old new h).isDir old.dropLast = true := by
    have hle : old.dropLast <+: old := List.dropLast_prefix old
    have hproper : old.dropLast ≠ old := by
      intro heq
      have := congrArg List.length heq
      have := List.length_pos_of_ne_nil hne
      simp only [List.length_dropLast] at *
      omega
    rw [isDir_iff, node_move_of_not h (fun hn => habove (hn.trans hle))
      (fun ho => hproper (hle.eq_of_length_le ho.length_le))]
    exact dir_of_prefix hle hproper hexists
  have hback : (d.move old new h).Movable new old := by
    refine ⟨?_, hne, hdropLast, habove, .inl ?_⟩
    · rw [present, hmoved]
      exact hold
    · rw [present, hgone]
      rfl
  unfold rename
  rw [dif_pos hback]
  congr 1
  refine ext fun q => ?_
  by_cases hqold : old <+: q
  · obtain ⟨rest, rfl⟩ := hqold
    rw [node_move_new hback, node_move_new h]
  · by_cases hqnew : new <+: q
    · rw [node_move_old hback hqold hqnew]
      obtain ⟨rest, rfl⟩ := hqnew
      exact (node_below_none hfree rest).symm
    · rw [node_move_of_not hback hqold hqnew, node_move_of_not h hqnew hqold]

end Disk

end CodexMonitor
