import CodexMonitor.Lib.Text
import CodexMonitor.Lib.Layered
import Mathlib.Data.List.Nodup

namespace CodexMonitor.Config

open Layered

/-!
# Config — TOML values

The values of the `toml` crate.  A table is the list of its entries; whether the crate keeps
them sorted or in the order of insertion matters to none of the code here.

* `TomlTable.get`, `insert`, `remove`, `entryOrInsert` — the operations of a table.
* `TomlValue.EachTable` — a condition on the keys of every table in a value.
* `TomlValue.nodes` — a value as a document: what stands at each path of keys and indices.
-/

inductive TomlScalar
  | string (t : Text)
  | integer (i : Int)
  | float (digits : Text)
  | boolean (b : Bool)
  | datetime (t : Text)
  deriving DecidableEq, Repr

inductive TomlValue
  | scalar (s : TomlScalar)
  | array (items : List TomlValue)
  | table (entries : List (Text × TomlValue))

abbrev TomlTable := List (Text × TomlValue)

/-! ### Tables -/

namespace TomlTable

variable {table : TomlTable} {key other : Text} {value : TomlValue}

def keys (table : TomlTable) : List Text := table.map Prod.fst

@[simp] theorem keys_nil : keys [] = [] := rfl

@[simp] theorem keys_cons {e : Text × TomlValue} : keys (e :: table) = e.1 :: keys table := rfl

def get (key : Text) : TomlTable → Option TomlValue
  | [] => none
  | e :: es => if e.1 = key then some e.2 else get key es

@[simp] theorem get_nil : get key [] = none := rfl

/-- The value under the key is replaced, or a new entry is added. -/
def insert (key : Text) (value : TomlValue) : TomlTable → TomlTable
  | [] => [(key, value)]
  | e :: es => if e.1 = key then (key, value) :: es else e :: insert key value es

def remove (key : Text) (table : TomlTable) : TomlTable := table.filter (·.1 ≠ key)

/-- `table.entry(key).or_insert(value)` -/
def entryOrInsert (key : Text) (value : TomlValue) (table : TomlTable) : TomlTable :=
  if (get key table).isSome then table else insert key value table

theorem get_eq_none_iff : get key table = none ↔ key ∉ keys table := by
  induction table with
  | nil => simp
  | cons e es ih =>
    by_cases he : e.1 = key
    · simp [get, he]
    · simp [get, he, ih, Ne.symm he]

theorem mem_of_get (h : get key table = some value) : (key, value) ∈ table := by
  induction table with
  | nil => cases h
  | cons e es ih =>
    by_cases he : e.1 = key
    · rw [get, if_pos he] at h
      obtain rfl := Option.some.inj h
      exact he ▸ List.mem_cons_self
    · rw [get, if_neg he] at h
      exact List.mem_cons_of_mem _ (ih h)

theorem mem_keys_of_mem (h : (key, value) ∈ table) : key ∈ keys table :=
  List.mem_map.mpr ⟨_, h, rfl⟩

/-- With distinct keys every entry is found. -/
theorem get_of_mem (hkeys : (keys table).Nodup) (h : (key, value) ∈ table) :
    get key table = some value := by
  induction table with
  | nil => cases h
  | cons e es ih =>
    obtain ⟨hnew, hrest⟩ := List.nodup_cons.mp hkeys
    rcases List.mem_cons.mp h with rfl | hmem
    · rw [get, if_pos rfl]
    · have hne : e.1 ≠ key := by
        rintro rfl
        exact hnew (mem_keys_of_mem hmem)
      rw [get, if_neg hne, ih hrest hmem]

theorem get_insert_self : get key (insert key value table) = some value := by
  induction table with
  | nil => simp [insert, get]
  | cons e es ih =>
    by_cases he : e.1 = key
    · simp [insert, get, he]
    · simp [insert, get, he, ih]

theorem get_insert_of_ne (h : other ≠ key) :
    get other (insert key value table) = get other table := by
  induction table with
  | nil => simp [insert, get, h.symm]
  | cons e es ih =>
    by_cases he : e.1 = key
    · simp [insert, get, he, h.symm]
    · simp [insert, get, he, ih]

theorem get_remove_self : get key (remove key table) = none := by
  rw [get_eq_none_iff]
  simp [keys, remove]

theorem get_remove_of_ne (h : other ≠ key) : get other (remove key table) = get other table := by
  induction table with
  | nil => rfl
  | cons e es ih =>
    unfold remove at ih ⊢
    by_cases he : e.1 = key
    · have hne : e.1 ≠ other := fun heq => h (heq ▸ he)
      rw [List.filter_cons_of_neg (by simpa using he), ih, get, if_neg hne]
    · rw [List.filter_cons_of_pos (by simpa using he), get, get, ih]

/-- Removing a key that is not there. -/
theorem remove_of_get (h : get key table = none) : remove key table = table := by
  rw [get_eq_none_iff] at h
  apply List.filter_eq_self.mpr
  intro e he
  have hne : e.1 ≠ key := by
    rintro rfl
    exact h (mem_keys_of_mem he)
  exact decide_eq_true hne

theorem nodup_remove (h : (keys table).Nodup) : (keys (remove key table)).Nodup :=
  h.sublist (List.filter_sublist.map Prod.fst)

theorem mem_insert {e : Text × TomlValue} (h : e ∈ insert key value table) :
    e = (key, value) ∨ e ∈ table := by
  induction table with
  | nil =>
    obtain rfl := List.mem_singleton.mp h
    exact .inl rfl
  | cons e' es ih =>
    unfold insert at h
    split at h
    · rcases List.mem_cons.mp h with rfl | hmem
      · exact .inl rfl
      · exact .inr (List.mem_cons_of_mem _ hmem)
    · rcases List.mem_cons.mp h with rfl | hmem
      · exact .inr List.mem_cons_self
      · exact (ih hmem).imp_right (List.mem_cons_of_mem _)

theorem nodup_insert (h : (keys table).Nodup) : (keys (insert key value table)).Nodup := by
  induction table with
  | nil => simp [insert]
  | cons e es ih =>
    obtain ⟨hnew, hrest⟩ := List.nodup_cons.mp h
    unfold insert
    split
    · next he => exact he ▸ h
    · next he =>
      refine List.nodup_cons.mpr ⟨?_, ih hrest⟩
      intro hmem
      obtain ⟨e', he', heq⟩ := List.mem_map.mp hmem
      rcases mem_insert he' with rfl | hold
      · exact he heq.symm
      · have hkey : e'.1 ∈ keys _ := mem_keys_of_mem hold
        exact hnew (heq ▸ hkey)

end TomlTable

/-! ### Sizes -/

mutual

/-- The number of values in a value. -/
def TomlValue.size : TomlValue → Nat
  | .scalar _ => 1
  | .array items => 1 + TomlValue.sizeItems items
  | .table entries => 1 + TomlValue.sizeEntries entries

def TomlValue.sizeItems : List TomlValue → Nat
  | [] => 0
  | item :: items => 1 + item.size + TomlValue.sizeItems items

def TomlValue.sizeEntries : List (Text × TomlValue) → Nat
  | [] => 0
  | e :: es => 1 + e.2.size + TomlValue.sizeEntries es

end

namespace TomlTable

variable {table : TomlTable} {key : Text} {value : TomlValue}

theorem size_insert_le :
    TomlValue.sizeEntries (insert key value table) ≤ 1 + value.size + TomlValue.sizeEntries table := by
  induction table with
  | nil => simp [insert, TomlValue.sizeEntries]
  | cons e es ih =>
    unfold insert
    split
    · simp only [TomlValue.sizeEntries]
      omega
    · simp only [TomlValue.sizeEntries]
      omega

theorem size_remove_le : TomlValue.sizeEntries (remove key table) ≤ TomlValue.sizeEntries table := by
  induction table with
  | nil => exact Nat.le_refl _
  | cons e es ih =>
    unfold remove at ih ⊢
    rw [List.filter_cons]
    split
    · simp only [TomlValue.sizeEntries]
      omega
    · simp only [TomlValue.sizeEntries]
      omega

/-- Removing an entry makes room for its value. -/
theorem size_remove_of_get (h : get key table = some value) :
    1 + value.size + TomlValue.sizeEntries (remove key table) ≤ TomlValue.sizeEntries table := by
  induction table with
  | nil => cases h
  | cons e es ih =>
    by_cases he : e.1 = key
    · rw [get, if_pos he] at h
      obtain rfl := Option.some.inj h
      have hrest : TomlValue.sizeEntries (remove key es) ≤ TomlValue.sizeEntries es :=
        size_remove_le
      have hdrop : remove key (e :: es) = remove key es := by simp [remove, he]
      rw [hdrop, TomlValue.sizeEntries]
      omega
    · rw [get, if_neg he] at h
      have hrest := ih h
      have hkeep : remove key (e :: es) = e :: remove key es := by simp [remove, he]
      rw [hkeep, TomlValue.sizeEntries, TomlValue.sizeEntries]
      omega

end TomlTable

/-! ### Paths -/

/-- The text of an array index in a path. -/
def indexText (idx : Nat) : Text := Nat.toDigits 10 idx

theorem indexText_injective : Function.Injective indexText := by
  intro i j h
  have hi := Nat.ofDigitChars_toDigits (n := i) (b := 10) (by decide) (by decide)
  have hj := Nat.ofDigitChars_toDigits (n := j) (b := 10) (by decide) (by decide)
  rw [← hi, ← hj]
  exact congrArg (fun digits => Nat.ofDigitChars 10 digits 0) h

theorem dot_notMem_indexText (idx : Nat) : '.' ∉ indexText idx := by
  intro hmem
  have hdigit := Nat.isDigit_of_mem_toDigits (by decide) (by decide) hmem
  exact absurd hdigit (by decide)

namespace TomlValue

/-- The elements of an array from an index on, under their indices. -/
def indexed : Nat → List TomlValue → TomlTable
  | _, [] => []
  | idx, item :: items => (indexText idx, item) :: indexed (idx + 1) items

/-- What a table or an array has under its keys or indices. -/
def entries : TomlValue → TomlTable
  | .scalar _ => []
  | .array items => indexed 0 items
  | .table entries => entries

def child (value : TomlValue) (key : Text) : Option TomlValue := value.entries.get key

/-- Tables are merged, arrays are not. -/
def node : TomlValue → Layered.Node TomlScalar
  | .scalar s => .leaf s
  | .array _ => .closed
  | .table _ => .open

/-- **What stands at each path.** -/
def nodes : TomlValue → Doc Text TomlScalar
  | value, [] => some value.node
  | value, key :: path => (value.child key).bind fun child => child.nodes path

variable {value inner : TomlValue} {key : Text} {path : List Text}

@[simp] theorem nodes_nil : value.nodes [] = some value.node := by
  rw [nodes]

theorem nodes_cons_of_child (h : value.child key = some inner) :
    value.nodes (key :: path) = inner.nodes path := by
  rw [nodes, h]
  rfl

theorem nodes_cons_of_none (h : value.child key = none) : value.nodes (key :: path) = none := by
  rw [nodes, h]
  rfl

theorem rooted_nodes (value : TomlValue) : Rooted value.nodes := by
  intro p q hq hp
  induction q generalizing value p with
  | nil => simp
  | cons key q ih =>
    obtain ⟨rest, rfl⟩ := hq
    cases hchild : value.child key with
    | none =>
      rw [List.cons_append, nodes_cons_of_none hchild] at hp
      cases hp
    | some child =>
      rw [List.cons_append, nodes_cons_of_child hchild] at hp
      rw [nodes_cons_of_child hchild]
      exact ih child _ (List.prefix_append q rest) hp

/-- A leaf is a scalar, or a leaf of a child. -/
theorem leafAt_cons : LeafAt value.nodes (key :: path) ↔
    ∃ child, value.child key = some child ∧ LeafAt child.nodes path := by
  cases hchild : value.child key with
  | none => simp [LeafAt, nodes_cons_of_none hchild]
  | some child => simp [LeafAt, nodes_cons_of_child hchild]

/-! ### The keys of all tables -/

variable {P Q : List Text → Prop}

mutual

/-- The keys of every table in the value meet `P`. -/
def EachTable (P : List Text → Prop) : TomlValue → Prop
  | .scalar _ => True
  | .array items => EachTableItems P items
  | .table entries => P (entries.map Prod.fst) ∧ EachTableEntries P entries

def EachTableItems (P : List Text → Prop) : List TomlValue → Prop
  | [] => True
  | item :: items => EachTable P item ∧ EachTableItems P items

def EachTableEntries (P : List Text → Prop) : List (Text × TomlValue) → Prop
  | [] => True
  | e :: es => EachTable P e.2 ∧ EachTableEntries P es

end

/-- No table has two entries under one key. -/
def DistinctKeys : TomlValue → Prop := EachTable List.Nodup

/-- No key of a table has a dot. -/
def DotFree : TomlValue → Prop := EachTable fun keys => ∀ key ∈ keys, '.' ∉ key

theorem eachTableEntries_iff {entries : TomlTable} :
    EachTableEntries P entries ↔ ∀ e ∈ entries, EachTable P e.2 := by
  induction entries with
  | nil => simp [EachTableEntries]
  | cons e es ih => simp [EachTableEntries, ih]

theorem EachTableItems.indexed {items : List TomlValue} (h : EachTableItems P items) (idx : Nat) :
    EachTableEntries P (indexed idx items) := by
  induction items generalizing idx with
  | nil => trivial
  | cons item items ih => exact ⟨h.1, ih h.2 (idx + 1)⟩

theorem EachTable.keys_of_table {table : TomlTable} (h : EachTable P (.table table)) :
    P table.keys :=
  h.1

theorem EachTable.entries (h : EachTable P value) : ∀ e ∈ value.entries, EachTable P e.2 := by
  rw [← eachTableEntries_iff]
  cases value with
  | scalar s => trivial
  | array items => exact EachTableItems.indexed h 0
  | table entries => exact h.2

theorem EachTable.child (h : EachTable P value) (hchild : value.child key = some inner) :
    EachTable P inner :=
  h.entries _ (TomlTable.mem_of_get hchild)

theorem keys_indexed {items : List TomlValue} {idx : Nat} (h : key ∈ TomlTable.keys (indexed idx items)) :
    ∃ i, idx ≤ i ∧ key = indexText i := by
  induction items generalizing idx with
  | nil => cases h
  | cons item items ih =>
    rcases List.mem_cons.mp h with rfl | hmem
    · exact ⟨idx, Nat.le_refl _, rfl⟩
    · obtain ⟨i, hi, rfl⟩ := ih hmem
      exact ⟨i, by omega, rfl⟩

theorem nodup_indexed (items : List TomlValue) (idx : Nat) :
    (TomlTable.keys (indexed idx items)).Nodup := by
  induction items generalizing idx with
  | nil => exact List.nodup_nil
  | cons item items ih =>
    refine List.nodup_cons.mpr ⟨?_, ih (idx + 1)⟩
    intro hmem
    obtain ⟨i, hi, heq⟩ := keys_indexed hmem
    have hidx := indexText_injective heq
    omega

theorem DistinctKeys.nodup_entries (h : value.DistinctKeys) :
    (TomlTable.keys value.entries).Nodup := by
  cases value with
  | scalar s => exact List.nodup_nil
  | array items => exact nodup_indexed items 0
  | table entries => exact h.1

theorem size_lt_of_mem_entries {e : Text × TomlValue} (h : e ∈ value.entries) :
    e.2.size < value.size := by
  have hentries : ∀ {es : TomlTable}, e ∈ es → e.2.size < 1 + sizeEntries es := by
    intro es hmem
    induction es with
    | nil => cases hmem
    | cons e' es ih =>
      rw [sizeEntries]
      rcases List.mem_cons.mp hmem with rfl | hrest
      · omega
      · have := ih hrest
        omega
  have hitems : ∀ (items : List TomlValue) (idx : Nat),
      sizeEntries (indexed idx items) = sizeItems items := by
    intro items
    induction items with
    | nil =>
      intro idx
      rfl
    | cons item items ih =>
      intro idx
      rw [indexed, sizeEntries, sizeItems, ih]
  cases value with
  | scalar s => cases h
  | array items =>
    have hlt := hentries h
    rw [entries, hitems] at hlt
    rw [size]
    exact hlt
  | table es =>
    rw [size]
    exact hentries h

end TomlValue

end CodexMonitor.Config
