import Mathlib.Data.List.Nodup

namespace CodexMonitor

/-!
# Ordered maps — lists of entries

A map that keeps the order of insertion is the list of its entries; the first entry of a key
counts.

* `OrderedMap.get`, `insert`, `remove` — the operations.
* What `get` finds after `insert` and `remove`.
-/

namespace OrderedMap

variable {κ α : Type*} [DecidableEq κ] {key other : κ} {value : α} {entries : List (κ × α)}

def get (key : κ) : List (κ × α) → Option α
  | [] => none
  | e :: es => if e.1 = key then some e.2 else get key es

/-- The value under the key is replaced, or a new entry comes last. -/
def insert (key : κ) (value : α) : List (κ × α) → List (κ × α)
  | [] => [(key, value)]
  | e :: es => if e.1 = key then (key, value) :: es else e :: insert key value es

def remove (key : κ) (entries : List (κ × α)) : List (κ × α) :=
  entries.filter fun e => e.1 ≠ key

@[simp] theorem get_nil : get key ([] : List (κ × α)) = none := rfl

theorem get_cons {e : κ × α} : get key (e :: entries) =
    if e.1 = key then some e.2 else get key entries := rfl

@[simp] theorem get_insert_self : get key (insert key value entries) = some value := by
  induction entries with
  | nil => simp [insert, get]
  | cons e es ih =>
    by_cases he : e.1 = key
    · simp [insert, get, he]
    · simp [insert, get, he, ih]

theorem get_insert_of_ne (h : other ≠ key) :
    get other (insert key value entries) = get other entries := by
  induction entries with
  | nil => simp [insert, get, h.symm]
  | cons e es ih =>
    by_cases he : e.1 = key
    · simp [insert, get, he, h.symm]
    · simp [insert, get, he, ih]

@[simp] theorem get_remove_self : get key (remove key entries) = none := by
  induction entries with
  | nil => rfl
  | cons e es ih =>
    by_cases he : e.1 = key
    · rw [remove, List.filter_cons_of_neg (by simp [he])]
      exact ih
    · rw [remove, List.filter_cons_of_pos (by simp [he]), get_cons, if_neg he]
      exact ih

theorem get_remove_of_ne (h : other ≠ key) : get other (remove key entries) = get other entries := by
  induction entries with
  | nil => rfl
  | cons e es ih =>
    by_cases he : e.1 = key
    · rw [remove, List.filter_cons_of_neg (by simp [he]), get_cons,
        if_neg (fun heq => h (heq.symm.trans he))]
      exact ih
    · rw [remove, List.filter_cons_of_pos (by simp [he]), get_cons, get_cons]
      rw [show get other (es.filter fun e => decide (e.1 ≠ key)) = get other es from ih]

end OrderedMap

end CodexMonitor
