import Mathlib.Data.List.Nodup

namespace CodexMonitor

/-!
# The union of two lists by a key

The elements of the left list, each joined with the element of the right list that has its key,
and behind them the elements of the right list with other keys.

* `keyedUnion` — the union; `choose` joins two elements of one key.
* `nodup_keys_keyedUnion` — distinct keys stay distinct.
* `keyedUnion_keyedUnion` — the union with the same list for a second time.
-/

variable {α κ : Type*} [DecidableEq κ] (key : α → κ) (choose : α → α → α) {left right : List α}

/-- The last element with a key. -/
def lastWithKey (l : List α) (k : κ) : Option α := l.reverse.find? fun b => key b = k

/-- The element, joined with the one of the list that has its key. -/
def joinedWith (right : List α) (a : α) : α :=
  match lastWithKey key right (key a) with
  | some b => choose a b
  | none => a

/-- The elements of the right list with new keys. -/
def withNewKeys (left right : List α) : List α := right.filter fun b => key b ∉ left.map key

def keyedUnion (left right : List α) : List α :=
  left.map (joinedWith key choose right) ++ withNewKeys key left right

variable {key choose}

/-! ### Elements and their keys -/

theorem lastWithKey_eq_none {k : κ} : lastWithKey key right k = none ↔ k ∉ right.map key := by
  unfold lastWithKey
  rw [List.find?_eq_none, List.mem_map]
  simp

theorem key_of_lastWithKey {k : κ} {b : α} (h : lastWithKey key right k = some b) :
    b ∈ right ∧ key b = k := by
  unfold lastWithKey at h
  have hk := List.find?_some h
  exact ⟨List.mem_reverse.mp (List.mem_of_find?_eq_some h), of_decide_eq_true hk⟩

/-- Among distinct keys, an element is the one with its key. -/
theorem lastWithKey_of_mem (hright : (right.map key).Nodup) {b : α} (hb : b ∈ right) :
    lastWithKey key right (key b) = some b := by
  cases h : lastWithKey key right (key b) with
  | none => exact absurd (List.mem_map_of_mem hb) (lastWithKey_eq_none.mp h)
  | some c =>
    obtain ⟨hc, hkey⟩ := key_of_lastWithKey h
    rw [List.inj_on_of_nodup_map hright hc hb hkey]

theorem joinedWith_of_not_mem {a : α} (h : key a ∉ right.map key) :
    joinedWith key choose right a = a := by
  unfold joinedWith
  rw [lastWithKey_eq_none.mpr h]

theorem joinedWith_of_mem (hright : (right.map key).Nodup) {a b : α} (hb : b ∈ right)
    (hkey : key a = key b) : joinedWith key choose right a = choose a b := by
  unfold joinedWith
  rw [hkey, lastWithKey_of_mem hright hb]

theorem mem_withNewKeys {b : α} :
    b ∈ withNewKeys key left right ↔ b ∈ right ∧ key b ∉ left.map key := by
  unfold withNewKeys
  rw [List.mem_filter, decide_eq_true_eq]

theorem keys_withNewKeys :
    (withNewKeys key left right).map key = (right.map key).filter (· ∉ left.map key) := by
  unfold withNewKeys
  rw [List.filter_map]
  rfl

/-! ### The union -/

section Keys

variable (hkey : ∀ a b, key b = key a → key (choose a b) = key a)

include hkey

theorem key_joinedWith (a : α) : key (joinedWith key choose right a) = key a := by
  unfold joinedWith
  cases h : lastWithKey key right (key a) with
  | none => rfl
  | some b => exact hkey a b (key_of_lastWithKey h).2

theorem keys_map_joinedWith :
    (left.map (joinedWith key choose right)).map key = left.map key := by
  rw [List.map_map]
  exact List.map_congr_left fun a _ => key_joinedWith hkey a

/-- **The keys of the union**: those of the left list, and the new ones of the right. -/
theorem keys_keyedUnion : (keyedUnion key choose left right).map key =
    left.map key ++ (right.map key).filter (· ∉ left.map key) := by
  unfold keyedUnion
  rw [List.map_append, keys_map_joinedWith hkey, keys_withNewKeys]

theorem nodup_keys_keyedUnion (hleft : (left.map key).Nodup) (hright : (right.map key).Nodup) :
    ((keyedUnion key choose left right).map key).Nodup := by
  rw [keys_keyedUnion hkey, List.nodup_append]
  refine ⟨hleft, hright.filter _, ?_⟩
  rintro k hk k' hk' rfl
  exact absurd hk (of_decide_eq_true (List.mem_filter.mp hk').2)

theorem withNewKeys_keyedUnion :
    withNewKeys key (keyedUnion key choose left right) right = [] := by
  rw [List.eq_nil_iff_forall_not_mem]
  intro b hb
  obtain ⟨hmem, hnew⟩ := mem_withNewKeys.mp hb
  rw [keys_keyedUnion hkey, List.mem_append, List.mem_filter] at hnew
  have hkeyMem : key b ∈ right.map key := List.mem_map_of_mem hmem
  by_cases hold : key b ∈ left.map key
  · exact hnew (.inl hold)
  · exact hnew (.inr ⟨hkeyMem, decide_eq_true hold⟩)

/-- **The union once more**: only the elements that came from the right list are joined again,
    each with itself. -/
theorem keyedUnion_keyedUnion (hright : (right.map key).Nodup)
    (hagain : ∀ a b, key b = key a → choose (choose a b) b = choose a b) :
    keyedUnion key choose (keyedUnion key choose left right) right =
      left.map (joinedWith key choose right) ++
        (withNewKeys key left right).map fun b => choose b b := by
  have hjoined : ∀ a, joinedWith key choose right (joinedWith key choose right a) =
      joinedWith key choose right a := by
    intro a
    by_cases hmem : key a ∈ right.map key
    · obtain ⟨b, hb, hbkey⟩ := List.mem_map.mp hmem
      have hchosen : key (choose a b) = key b := (hkey a b hbkey).trans hbkey.symm
      rw [joinedWith_of_mem hright hb hbkey.symm, joinedWith_of_mem hright hb hchosen,
        hagain a b hbkey]
    · rw [joinedWith_of_not_mem hmem, joinedWith_of_not_mem hmem]
  show (keyedUnion key choose left right).map (joinedWith key choose right) ++
    withNewKeys key (keyedUnion key choose left right) right = _
  rw [withNewKeys_keyedUnion hkey, List.append_nil]
  unfold keyedUnion
  rw [List.map_append, List.map_map]
  congr 1
  · exact List.map_congr_left fun a _ => hjoined a
  · refine List.map_congr_left fun b hb => ?_
    exact joinedWith_of_mem hright (mem_withNewKeys.mp hb).1 rfl

theorem keyedUnion_keyedUnion_eq_iff (hright : (right.map key).Nodup)
    (hagain : ∀ a b, key b = key a → choose (choose a b) b = choose a b) :
    keyedUnion key choose (keyedUnion key choose left right) right =
        keyedUnion key choose left right ↔
      ∀ b ∈ right, key b ∉ left.map key → choose b b = b := by
  rw [keyedUnion_keyedUnion hkey hright hagain, keyedUnion, List.append_cancel_left_eq]
  constructor
  · intro h b hb hnew
    have hmap : (withNewKeys key left right).map (fun b => choose b b) =
        (withNewKeys key left right).map id := by
      rw [h, List.map_id]
    exact List.map_inj_left.mp hmap b (mem_withNewKeys.mpr ⟨hb, hnew⟩)
  · intro h
    refine (List.map_congr_left fun b hb => ?_).trans (List.map_id _)
    obtain ⟨hmem, hnew⟩ := mem_withNewKeys.mp hb
    exact h b hmem hnew

end Keys

end CodexMonitor
