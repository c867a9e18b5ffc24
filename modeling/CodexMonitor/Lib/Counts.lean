import CodexMonitor.Lib.Tasks

namespace CodexMonitor

/-!
# Counts — how many entries of a registry meet a condition

* `Registry.count` — their number.
* `count_insert_new`, `count_insert`, `count_erase` — what one change does to it.
-/

namespace Registry

variable {κ α : Type*} [DecidableEq κ] {p : α → Bool} {r : Registry κ α} {k : κ} {a b : α}

/-- The number of entries whose value meets the condition. -/
def count (p : α → Bool) (r : Registry κ α) : Nat := r.entries.countP fun e => p e.2

/-- What one value contributes. -/
def share (p : α → Bool) (a : α) : Nat := if p a then 1 else 0

theorem share_of_true {α : Type*} {p : α → Bool} {a : α} (h : p a = true) : share p a = 1 :=
  if_pos h

theorem share_of_false {α : Type*} {p : α → Bool} {a : α} (h : p a = false) : share p a = 0 :=
  if_neg (by rw [h]; decide)

omit [DecidableEq κ] in
@[simp] theorem count_empty : count p (∅ : Registry κ α) = 0 := rfl

theorem count_erase (h : r.lookup k = some a) : count p (r.erase k) + share p a = count p r := by
  have hkey : k ∈ r.entries.keys := by
    rw [← List.dlookup_isSome]
    exact Option.isSome_iff_exists.mpr ⟨a, h⟩
  obtain ⟨value, front, back, hfront, hentries, herase⟩ := List.exists_of_kerase hkey
  -- the first entry of the key is the one that is looked up
  have hvalue : value = a := by
    have hlookup : List.dlookup k r.entries = some a := h
    rw [hentries, List.dlookup_append, List.dlookup_eq_none.mpr hfront, Option.none_or,
      List.dlookup_cons_eq] at hlookup
    exact Option.some.inj hlookup
  have hcount : count p (r.erase k) = (front ++ back).countP fun e => p e.2 := by
    rw [← herase]
    rfl
  rw [hcount, count, hentries, hvalue, share]
  simp only [List.countP_append, List.countP_cons]
  omega

theorem count_erase_none (h : r.lookup k = none) : count p (r.erase k) = count p r := by
  have herase : List.kerase k r.entries = r.entries :=
    List.kerase_of_notMem_keys (List.dlookup_eq_none.mp h)
  show (List.kerase k r.entries).countP _ = _
  rw [herase]
  rfl

/-- An insertion is one after the key was erased. -/
theorem count_insert_erase : count p (r.insert k a) = count p (r.erase k) + share p a :=
  List.countP_cons

theorem count_insert_new (h : r.lookup k = none) :
    count p (r.insert k a) = count p r + share p a := by
  rw [count_insert_erase, count_erase_none h]

/-- A value is replaced. -/
theorem count_insert (h : r.lookup k = some b) :
    count p (r.insert k a) + share p b = count p r + share p a := by
  have herase := count_erase (p := p) h
  rw [count_insert_erase]
  omega

end Registry

end CodexMonitor
