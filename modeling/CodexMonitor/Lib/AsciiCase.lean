import CodexMonitor.Lib.Text

namespace CodexMonitor.Text

/-!
# ASCII letter case in texts

Lower-casing the ASCII letters of a text commutes with what looks at other characters only.

* `trim_map_asciiLower`, `takeWhile_map_asciiLower`, `stripStart_map_asciiLower` — trimming and
  cutting.
* `map_asciiLower_eq_iff` — a text without letters is met in its own case only.
-/

variable (t : Text)

theorem trimEndBy_map {f : Char → Char} {p : Char → Bool} (h : ∀ c, p (f c) = p c) :
    trimEndBy p (t.map f) = (trimEndBy p t).map f := by
  have hcomp : p ∘ f = p := funext h
  unfold trimEndBy List.rdropWhile
  rw [← List.map_reverse, List.dropWhile_map, List.map_reverse, hcomp]

theorem trim_map_asciiLower : trim (t.map asciiLower) = t.trim.map asciiLower := by
  have hcomp : isWhitespace ∘ asciiLower = isWhitespace := funext isWhitespace_asciiLower
  unfold trim trimBy trimStartBy
  rw [List.dropWhile_map, hcomp, trimEndBy_map _ isWhitespace_asciiLower]

theorem map_asciiLower_idem : (t.map asciiLower).map asciiLower = t.map asciiLower := by
  rw [List.map_map]
  exact List.map_congr_left fun c _ => asciiLower_idem c

theorem map_asciiLower_eq_iff {u : Text} (hu : ∀ c ∈ u, c.isAlpha = false) :
    t.map asciiLower = u ↔ t = u := by
  induction t generalizing u with
  | nil => rfl
  | cons c t ih =>
    cases u with
    | nil => simp
    | cons d u =>
      rw [List.map_cons, List.cons.injEq, List.cons.injEq,
        asciiLower_eq_iff (hu d List.mem_cons_self) c,
        ih fun c hc => hu c (List.mem_cons_of_mem _ hc)]

theorem stripStart_map_asciiLower {u : Text} (hu : ∀ c ∈ u, c.isAlpha = false) :
    stripStart (t.map asciiLower) u = (stripStart t u).map fun rest => rest.map asciiLower := by
  induction t generalizing u with
  | nil => cases u <;> rfl
  | cons c t ih =>
    cases u with
    | nil => rfl
    | cons d u =>
      have hd := asciiLower_eq_iff (hu d List.mem_cons_self) c
      rw [List.map_cons, stripStart, stripStart]
      by_cases heq : c = d
      · rw [if_pos (hd.mpr heq), if_pos heq, ih fun c hc => hu c (List.mem_cons_of_mem _ hc)]
      · rw [if_neg fun h => heq (hd.mp h), if_neg heq]
        rfl

theorem takeWhile_map_asciiLower {d : Char} (hd : d.isAlpha = false) :
    (t.map asciiLower).takeWhile (· != d) = (t.takeWhile (· != d)).map asciiLower := by
  have hcomp : (· != d) ∘ asciiLower = (· != d) := by
    funext c
    rw [Function.comp_apply, Bool.eq_iff_iff, bne_iff_ne, bne_iff_ne, ne_eq, ne_eq,
      asciiLower_eq_iff hd]
  rw [List.takeWhile_map, hcomp]

theorem count_map_asciiLower {d : Char} (hd : d.isAlpha = false) :
    (t.map asciiLower).count d = t.count d := by
  rw [List.count_eq_countP, List.count_eq_countP, List.countP_map]
  refine List.countP_congr ?_
  intro c _
  rw [Function.comp_apply, beq_iff_eq, beq_iff_eq, asciiLower_eq_iff hd]

/-- Cutting a lower-cased text at a character that is no letter. -/
theorem map_asciiLower_eq_append_iff {d : Char} (hd : d.isAlpha = false) {name rest : Text} :
    t.map asciiLower = name ++ d :: rest ↔
      ∃ name' rest', t = name' ++ d :: rest' ∧ name'.map asciiLower = name ∧
        rest'.map asciiLower = rest := by
  constructor
  · intro h
    obtain ⟨name', tail, rfl, hname, htail⟩ := List.map_eq_append_iff.mp h
    obtain ⟨c, rest', rfl, hc, hrest⟩ := List.map_eq_cons_iff.mp htail
    obtain rfl := (asciiLower_eq_iff hd c).mp hc
    exact ⟨name', rest', rfl, hname, hrest⟩
  · rintro ⟨name', rest', rfl, rfl, rfl⟩
    rw [List.map_append, List.map_cons, (asciiLower_eq_iff hd d).mpr rfl]

end CodexMonitor.Text
