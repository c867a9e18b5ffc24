import CodexMonitor.Lib.Text

namespace CodexMonitor

/-!
# Lines — trimming texts, and the lines of texts

* `trim_prefix`, `trim_between` — what is trimmed of a text that goes on, and of one between two
  others.
* `lines_grow` — the lines of a text that goes on.
* `lines_joinWith` — the lines of a text that was joined of lines.
-/

namespace Text

/-! ### Trimming -/

/-- Nothing is trimmed from a text whose ends are not of the class. -/
theorem trimBy_eq_self {p : Char → Bool} {t : Text} (hhead : ∀ c ∈ t.head?, p c = false)
    (hlast : ∀ c ∈ t.getLast?, p c = false) : trimBy p t = t := by
  have hstart : trimStartBy p t = t := by
    unfold trimStartBy
    refine List.dropWhile_eq_self_iff.mpr fun hpos => ?_
    have hfirst := hhead (t.get ⟨0, hpos⟩) (by simp [List.head?_eq_getElem?, hpos])
    simpa using hfirst
  unfold trimBy
  rw [hstart]
  refine List.rdropWhile_eq_self_iff.mpr fun hne => ?_
  rw [hlast (t.getLast hne) (by simp [List.getLast?_eq_some_getLast hne])]
  exact Bool.false_ne_true

theorem trimStart_append {t : Text} (h : t.trimStart ≠ []) (more : Text) :
    (t ++ more).trimStart = t.trimStart ++ more := by
  unfold trimStart trimStartBy
  rw [List.dropWhile_append, if_neg]
  intro hblank
  exact h (List.isEmpty_iff.mp hblank)

theorem trimEnd_append {u : Text} (h : u.trimEnd ≠ []) (t : Text) :
    (t ++ u).trimEnd = t ++ u.trimEnd := by
  unfold trimEnd trimEndBy at h ⊢
  induction u using List.reverseRecOn with
  | nil => exact absurd rfl h
  | append_singleton u c ih =>
    rw [← List.append_assoc, List.rdropWhile_concat, List.rdropWhile_concat]
    rw [List.rdropWhile_concat] at h
    split
    · next hblank =>
      rw [if_pos hblank] at h
      exact ih h
    · rw [List.append_assoc]

theorem trim_trimStart (t : Text) : t.trimStart.trim = t.trim := by
  unfold trim trimBy trimStart trimStartBy
  rw [List.dropWhile_idempotent]

theorem trim_trimEnd (t : Text) : t.trimEnd.trim = t.trim := by
  induction t using List.reverseRecOn with
  | nil => rfl
  | append_singleton t c ih =>
    unfold trimEnd trimEndBy at ih ⊢
    rw [List.rdropWhile_concat]
    split
    · next hblank =>
      rw [ih]
      exact (trimBy_concat hblank t).symm
    · rfl

/-- A text between two others that are not blank is trimmed with them. -/
theorem trim_between {a b : Text} (ha : a.trim ≠ []) (hb : b.trim ≠ []) (middle : Text) :
    (a ++ middle ++ b).trim = a.trimStart ++ middle ++ b.trimEnd := by
  have hstart : a.trimStart ≠ [] := by
    intro hnil
    rw [← trim_trimStart, hnil] at ha
    exact ha rfl
  have hend : b.trimEnd ≠ [] := by
    intro hnil
    rw [← trim_trimEnd, hnil] at hb
    exact hb rfl
  have htrim : (a ++ middle ++ b).trim = (a ++ middle ++ b).trimStart.trimEnd := rfl
  rw [htrim, List.append_assoc, trimStart_append hstart, ← List.append_assoc,
    trimEnd_append hend]

/-- A text that goes on is trimmed to one that goes on. -/
theorem trim_prefix {t u : Text} (h : t <+: u) (hne : t.trim ≠ []) : t.trim <+: u.trim := by
  obtain ⟨more, rfl⟩ := h
  have hstart : t.trimStart ≠ [] := by
    intro hnil
    rw [← trim_trimStart, hnil] at hne
    exact hne rfl
  have hend := trimEndBy_append isWhitespace t.trimStart more
  rw [← trimStart_append hstart] at hend
  exact hend

/-! ### Texts that are trimmed at their end -/

/-- A text that does not end with whitespace. -/
def Solid (t : Text) : Prop := ∃ init c, t = init ++ [c] ∧ isWhitespace c = false

theorem Solid.ne_nil {t : Text} (h : Solid t) : t ≠ [] := by
  obtain ⟨init, c, rfl, -⟩ := h
  simp

/-- Trimming leaves a text that has a character which is not whitespace. -/
theorem trim_ne_nil {t : Text} {c : Char} (hmem : c ∈ t) (hc : isWhitespace c = false) :
    t.trim ≠ [] := by
  intro hnil
  have hstart : t.trimStart.rdropWhile isWhitespace = [] := hnil
  rw [List.rdropWhile_eq_nil_iff] at hstart
  have hsplit : c ∈ t.takeWhile isWhitespace ∨ c ∈ t.dropWhile isWhitespace := by
    rw [← List.mem_append, List.takeWhile_append_dropWhile]
    exact hmem
  rcases hsplit with hfirst | hrest
  · rw [List.mem_takeWhile_imp hfirst] at hc
    cases hc
  · rw [hstart c hrest] at hc
    cases hc

theorem Solid.trim_ne_nil {t : Text} (h : Solid t) : t.trim ≠ [] := by
  obtain ⟨init, c, rfl, hc⟩ := h
  exact Text.trim_ne_nil (by simp) hc

theorem solid_trim {t : Text} (hne : t.trim ≠ []) : Solid t.trim := by
  have hlast : ¬ isWhitespace (t.trim.getLast hne) = true :=
    List.rdropWhile_last_not isWhitespace t.trimStart hne
  exact ⟨_, _, (List.dropLast_append_getLast hne).symm, Bool.eq_false_iff.mpr hlast⟩

theorem Solid.trim_ne_nil_of_prefix {t u : Text} (h : Solid t) (hbegins : t <+: u) :
    u.trim ≠ [] := by
  intro hnil
  have hcut := trim_prefix hbegins h.trim_ne_nil
  rw [hnil, List.prefix_nil] at hcut
  exact h.trim_ne_nil hcut

theorem head?_begins {t u : Text} (h : t <+: u) (hne : t ≠ []) : u.head? = t.head? := by
  obtain ⟨more, rfl⟩ := h
  cases t with
  | nil => exact absurd rfl hne
  | cons c t => rfl

/-! ### Carriage returns -/

theorem stripCr_concat (line : Text) : (line ++ ['\r']).stripCr = line := by
  unfold stripCr
  rw [if_pos (by rw [List.getLast?_concat]), List.dropLast_concat]

theorem stripCr_of_ne {line : Text} (h : line.getLast? ≠ some '\r') : line.stripCr = line := if_neg h

theorem stripCr_begins (line : Text) : line.stripCr <+: line := by
  unfold stripCr
  split
  · exact List.dropLast_prefix line
  · exact List.prefix_refl _

/-- A line that does not become blank keeps its first character. -/
theorem head?_stripCr {line : Text} (h : line ≠ ['\r']) : line.stripCr.head? = line.head? := by
  unfold stripCr
  split
  · next hlast =>
    obtain ⟨init, rfl⟩ := List.getLast?_eq_some_iff.mp hlast
    rw [List.dropLast_concat]
    cases init with
    | nil => exact absurd rfl h
    | cons c init => rfl
  · rfl

/-! ### Splitting -/

theorem splitOn_append {sep : Char} {t u last first : Text} {pieces more : List Text}
    (ht : t.splitOn sep = pieces ++ [last]) (hu : u.splitOn sep = first :: more) :
    (t ++ u).splitOn sep = pieces ++ (last ++ first) :: more := by
  induction t generalizing pieces last with
  | nil =>
    cases pieces with
    | nil =>
      obtain rfl := (List.cons.inj ht).1
      exact hu
    | cons piece pieces =>
      have hnil : [] = pieces ++ [last] := (List.cons.inj ht).2
      simp at hnil
  | cons c t ih =>
    by_cases hc : c = sep
    · rw [splitOn, if_pos hc] at ht
      cases pieces with
      | nil => exact absurd (List.cons.inj ht).2 (splitOn_ne_nil sep t)
      | cons piece pieces =>
        obtain ⟨rfl, hrest⟩ := List.cons.inj ht
        rw [List.cons_append, splitOn, if_pos hc, ih hrest]
        rfl
    · obtain ⟨piece, others, hsplit, hcons⟩ := splitOn_cons_of_ne hc t
      obtain ⟨piece', others', hsplit', hcons'⟩ := splitOn_cons_of_ne hc (t ++ u)
      rw [List.cons_append, hcons']
      rw [hcons] at ht
      cases pieces with
      | nil =>
        obtain ⟨rfl, rfl⟩ := List.cons.inj ht
        have honly : splitOn sep t = [] ++ [piece] := hsplit
        have hrest := ih honly
        rw [hsplit'] at hrest
        obtain ⟨rfl, rfl⟩ := List.cons.inj hrest
        rfl
      | cons first' pieces =>
        obtain ⟨rfl, rfl⟩ := List.cons.inj ht
        have hlater : splitOn sep t = (piece :: pieces) ++ [last] := hsplit
        have hrest := ih hlater
        rw [hsplit'] at hrest
        obtain ⟨rfl, rfl⟩ := List.cons.inj hrest
        rfl

theorem splitOn_concat {sep c : Char} (hc : c ≠ sep) (t : Text) :
    ∃ pieces last, (t ++ [c]).splitOn sep = pieces ++ [last ++ [c]] := by
  obtain ⟨pieces, last, ht⟩ : ∃ pieces last, t.splitOn sep = pieces ++ [last] :=
    ⟨_, _, (List.dropLast_append_getLast (splitOn_ne_nil sep t)).symm⟩
  have hlast : splitOn sep [c] = [c] :: [] :=
    splitOn_of_notMem (by simpa using hc.symm)
  exact ⟨pieces, last, splitOn_append ht hlast⟩

theorem notMem_splitOn {sep : Char} {t piece : Text} (h : piece ∈ t.splitOn sep) :
    sep ∉ piece := by
  induction t generalizing piece with
  | nil =>
    obtain rfl : piece = [] := by simpa [splitOn] using h
    exact List.not_mem_nil
  | cons c t ih =>
    by_cases hc : c = sep
    · rw [splitOn, if_pos hc, List.mem_cons] at h
      rcases h with rfl | hmem
      · exact List.not_mem_nil
      · exact ih hmem
    · obtain ⟨first, others, hsplit, hcons⟩ := splitOn_cons_of_ne hc t
      rw [hcons, List.mem_cons] at h
      rcases h with rfl | hmem
      · rw [List.mem_cons, not_or]
        exact ⟨fun heq => hc heq.symm, ih (hsplit ▸ List.mem_cons_self)⟩
      · exact ih (hsplit ▸ List.mem_cons_of_mem _ hmem)

/-- A line has no line feed. -/
theorem notMem_lines {t line : Text} (h : line ∈ t.lines) : '\n' ∉ line := by
  obtain ⟨pieces, last, hsplit⟩ : ∃ pieces last, t.splitOn '\n' = pieces ++ [last] :=
    ⟨_, _, (List.dropLast_append_getLast (splitOn_ne_nil '\n' t)).symm⟩
  rw [lines_eq hsplit, List.mem_append, List.mem_map] at h
  have hpiece : ∀ piece ∈ pieces ++ [last], '\n' ∉ piece := by
    intro piece hmem
    exact notMem_splitOn (hsplit ▸ hmem)
  rcases h with ⟨piece, hmem, rfl⟩ | hmem
  · have hnone := hpiece piece (List.mem_append_left _ hmem)
    exact fun hfeed => hnone ((stripCr_begins piece).subset hfeed)
  · have hlast : line = last := by
      split at hmem
      · cases hmem
      · exact List.mem_singleton.mp hmem
    rw [hlast]
    exact hpiece last (List.mem_append_right _ (List.mem_singleton_self last))

/-! ### The lines of a text that goes on -/

theorem Solid.prefix_stripCr {t u : Text} (h : Solid t) : t <+: (t ++ u).stripCr := by
  obtain ⟨init, c, rfl, hc⟩ := h
  unfold stripCr
  split
  · next hlast =>
    rcases List.eq_nil_or_concat u with rfl | ⟨v, d, rfl⟩
    · rw [List.append_nil, List.getLast?_concat] at hlast
      obtain rfl := Option.some.inj hlast
      cases hc
    · rw [List.concat_eq_append, ← List.append_assoc, List.dropLast_concat]
      exact List.prefix_append _ _
  · exact List.prefix_append _ _

/-- **The lines of a text that goes on**: the last line goes on, and others may follow. -/
theorem lines_grow {t : Text} (ht : Solid t) (more : Text) :
    ∃ (above : List Text) (line line' : Text) (below : List Text),
      t.lines = above ++ [line] ∧ Solid line ∧
        (t ++ more).lines = above ++ line' :: below ∧ line <+: line' := by
  obtain ⟨init, c, rfl, hc⟩ := ht
  have hfeed : c ≠ '\n' := by
    rintro rfl
    cases hc
  obtain ⟨pieces, last, hsplit⟩ := splitOn_concat hfeed init
  obtain ⟨first, others, hmore⟩ := List.exists_cons_of_ne_nil (splitOn_ne_nil '\n' more)
  have hwhole := splitOn_append hsplit hmore
  have hsolid : Solid (last ++ [c]) := ⟨last, c, rfl, hc⟩
  have hlines := lines_eq hsplit
  rw [if_neg (by simp)] at hlines
  rcases List.eq_nil_or_concat others with rfl | ⟨others, final, rfl⟩
  · have hwhole' := lines_eq hwhole
    rw [if_neg (by simp)] at hwhole'
    exact ⟨_, _, _, [], hlines, hsolid, hwhole', List.prefix_append _ _⟩
  · rw [List.concat_eq_append, ← List.cons_append, ← List.append_assoc] at hwhole
    have hwhole' := lines_eq hwhole
    refine ⟨_, _, _, others.map stripCr ++ (if final.isEmpty then [] else [final]), hlines,
      hsolid, ?_, hsolid.prefix_stripCr (u := first)⟩
    rw [hwhole', List.map_append, List.map_cons, List.append_assoc, List.cons_append]

/-! ### The lines of a joined text -/

/-- What joining puts between the first and the last line. -/
theorem joinWith_ends (sep : Text) (inner : List Text) :
    ∃ middle, ∀ first last : Text,
      joinWith sep (first :: inner ++ [last]) = first ++ middle ++ last := by
  induction inner with
  | nil => exact ⟨sep, fun first last => rfl⟩
  | cons line inner ih =>
    obtain ⟨middle, hmiddle⟩ := ih
    refine ⟨sep ++ line ++ middle, ?_⟩
    intro first last
    have hcons : joinWith sep (first :: (line :: inner) ++ [last]) =
        first ++ sep ++ joinWith sep (line :: inner ++ [last]) := rfl
    rw [hcons, hmiddle]
    simp only [List.append_assoc]

/-- **The lines of a joined text** have lost a carriage return each, but for the last one. -/
theorem lines_joinWith {first last : Text} {inner : List Text} (hfirst : first.trim ≠ [])
    (hlast : last.trim ≠ []) (hfeed : ∀ line ∈ first :: inner ++ [last], '\n' ∉ line) :
    (joinWith ['\n'] (first :: inner ++ [last])).trim.lines =
      first.trimStart.stripCr :: inner.map stripCr ++ [last.trimEnd] := by
  obtain ⟨middle, hmiddle⟩ := joinWith_ends ['\n'] inner
  rw [hmiddle, trim_between hfirst hlast, ← hmiddle]
  have hsplit : splitOn '\n'
      (joinWith ['\n'] (first.trimStart :: inner ++ [last.trimEnd])) =
        first.trimStart :: inner ++ [last.trimEnd] := by
    refine splitOn_joinWith (by simp) ?_
    intro line hmem
    rw [List.mem_append, List.mem_cons, List.mem_singleton] at hmem
    rcases hmem with (rfl | hmem) | rfl
    · have hnone := hfeed first (by simp)
      exact fun hin => hnone ((List.dropWhile_sublist _).subset hin)
    · exact hfeed line (by simp [hmem])
    · have hnone := hfeed last (by simp)
      exact fun hin => hnone ((List.rdropWhile_prefix _ _).subset hin)
  have hne : ¬ last.trimEnd.isEmpty = true := by
    intro hempty
    rw [List.isEmpty_iff] at hempty
    rw [← trim_trimEnd, hempty] at hlast
    exact hlast rfl
  rw [lines_eq hsplit, if_neg hne, List.map_cons]

end Text

end CodexMonitor
