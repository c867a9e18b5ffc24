import CodexMonitor.ApplyPatch.Splice
import CodexMonitor.Lib.StableSort

namespace CodexMonitor.ApplyPatch

/-!
# Apply patch — for which chunks the regions are disjoint

The cursor keeps the chunks of an update apart, with two exceptions: a chunk that is found at the
end of the file is not searched from the cursor on, and a chunk that only adds lines adds them
before a final empty line wherever the cursor is.

* `Clear` — each chunk, when its turn comes, keeps away from the replacements that are there.
* `RegionsDisjoint` — the replacements are in bounds and disjoint, and applying them replaces the
  regions and nothing else.
* `regionsDisjoint_iff` — the two are the same.
-/

open Replacement

variable {lines : List Text} {path : AbsPath} {chunk : UpdateFileChunk}
  {chunks : List UpdateFileChunk} {cursor next : Nat} {r t : Replacement}
  {taken rs : List Replacement}

/-! ### The condition -/

/-- The last `k` lines of the file are what the chunk's old lines stand for, and the search from
    the cursor on finds them there. -/
def FoundAtEnd (lines : List Text) (chunk : UpdateFileChunk) (cursor k : Nat) : Prop :=
  k ≠ 0 ∧ ∃ r, locateChunk lines chunk cursor = some r ∧ r.oldLen = k ∧ r.stop = lines.length

/-- **A chunk keeps away** from the replacements so far.  Lines are added only while no
    replacement has the final empty line (an empty line does no harm if it alone is replaced), and
    the lines that are found at the end of the file lie behind all replacements, but for lines
    that are added at the very end. -/
def StepClear (lines : List Text) (path : AbsPath) (taken : List Replacement) (cursor : Nat)
    (chunk : UpdateFileChunk) : Prop :=
  ∀ from', seekContext lines path chunk cursor = .ok from' →
    if chunk.oldLines = [] then
      endsWithEmptyLine lines = true → ∀ t ∈ taken, t.oldLen ≠ 0 → t.stop = lines.length →
        t.oldLen = 1 ∧ ∀ line ∈ chunk.newLines, line = []
    else
      ∀ k, FoundAtEnd lines chunk from' k →
        ∀ t ∈ taken, t.stop + k ≤ lines.length ∨ t.startIndex = lines.length

/-- Every chunk keeps away from the replacements that are there when its turn comes. -/
def Clear (lines : List Text) (path : AbsPath) :
    List Replacement → Nat → List UpdateFileChunk → Prop
  | _, _, [] => True
  | taken, cursor, chunk :: chunks =>
      StepClear lines path taken cursor chunk ∧
        match chunkReplacement lines path cursor chunk with
        | .error _ => True
        | .ok (r, next) => Clear lines path (taken ++ [r]) next chunks

/-- The replacements lie within the lines and are disjoint, and applying them yields the lines
    with each region replaced and every other line kept once, in order. -/
def RegionsDisjoint (lines : List Text) (rs : List Replacement) : Prop :=
  (∀ r ∈ rs, r.InBounds lines) ∧ rs.Pairwise Separate ∧
    applyReplacements lines rs = spliced lines 0 rs

/-! ### One chunk -/

/-- **What holds of the replacements so far**: they lie within the lines, and end before the
    cursor or add lines where they are always added. -/
structure Behind (lines : List Text) (taken : List Replacement) (cursor : Nat) : Prop where
  cursor_le : cursor ≤ lines.length
  inBounds : ∀ t ∈ taken, t.InBounds lines
  behind : ∀ t ∈ taken,
    t.stop ≤ cursor ∨ (t.oldLen = 0 ∧ t.startIndex = insertionIdx lines)

theorem behind_start (lines : List Text) : Behind lines [] 0 where
  cursor_le := Nat.zero_le _
  inBounds _ ht := absurd ht List.not_mem_nil
  behind _ ht := absurd ht List.not_mem_nil

theorem behind_step (h : Behind lines taken cursor)
    (hchunk : chunkReplacement lines path cursor chunk = .ok (r, next)) :
    Behind lines (taken ++ [r]) next := by
  obtain ⟨hbounds, hnext⟩ := chunkReplacement_inBounds hchunk h.cursor_le
  obtain ⟨from', -, hle, hfrom, hcases⟩ := chunkReplacement_cases hchunk h.cursor_le
  have hforward : cursor ≤ next ∨ r.stop = lines.length ∧ next = r.stop := by
    rcases hcases with ⟨-, -, rfl⟩ | ⟨-, -, hlocated, -, rfl⟩
    · exact .inl hle
    · have hstart := start_le_stop r
      unfold Located at hlocated
      split at hlocated
      · exact .inl (by omega)
      · split at hlocated
        · refine .inr ⟨?_, rfl⟩
          have hin : r.stop ≤ lines.length := hbounds
          unfold Replacement.stop at hin ⊢
          omega
        · exact .inl (by omega)
  refine ⟨hnext, ?_, ?_⟩
  · intro t ht
    rcases List.mem_append.mp ht with ht | ht
    · exact h.inBounds t ht
    · rw [List.mem_singleton.mp ht]
      exact hbounds
  · intro t ht
    rcases List.mem_append.mp ht with ht | ht
    · have hin : t.stop ≤ lines.length := h.inBounds t ht
      rcases h.behind t ht with hstop | hadded
      · exact .inl (by omega)
      · exact .inr hadded
    · rw [List.mem_singleton.mp ht]
      rcases hcases with ⟨-, rfl, -⟩ | ⟨-, -, -, -, rfl⟩
      · exact .inr ⟨rfl, rfl⟩
      · exact .inl (Nat.le_refl _)

/-- Lines that are added, and a replacement so far. -/
theorem addition_iff {newLines : List Text} (hin : t.InBounds lines) :
    (Separate t ⟨insertionIdx lines, 0, newLines⟩ ∧
        NoLoss t ⟨insertionIdx lines, 0, newLines⟩) ↔
      (endsWithEmptyLine lines = true → t.oldLen ≠ 0 → t.stop = lines.length →
        t.oldLen = 1 ∧ ∀ line ∈ newLines, line = []) := by
  have hbound : t.startIndex + t.oldLen ≤ lines.length := hin
  unfold Separate NoLoss Tie insertionIdx Replacement.stop
  simp only
  cases hlast : endsWithEmptyLine lines with
  | false =>
    simp only [Bool.false_eq_true, if_false]
    refine iff_of_true ⟨.inl hbound, ?_⟩ (fun h => absurd h id)
    intro htie
    omega
  | true =>
    have hpos : 1 ≤ lines.length := by
      cases lines with
      | nil => cases hlast
      | cons line lines => exact Nat.le_add_left 1 lines.length
    simp only [if_true]
    constructor
    · rintro ⟨hseparate, hempty⟩ - hsome hstop
      have hone : t.oldLen = 1 := by omega
      exact ⟨hone, hempty ⟨hsome, trivial, by omega⟩⟩
    · intro h
      by_cases hend : t.oldLen ≠ 0 ∧ t.startIndex + t.oldLen = lines.length
      · obtain ⟨hone, hempty⟩ := h trivial hend.1 hend.2
        exact ⟨by omega, fun _ => hempty⟩
      · refine ⟨by omega, ?_⟩
        intro htie
        omega

/-- Lines that are located, and a replacement so far. -/
theorem located_iff {from' : Nat} (hle : cursor ≤ from') (hin : t.InBounds lines)
    (hbehind : t.stop ≤ cursor ∨ (t.oldLen = 0 ∧ t.startIndex = insertionIdx lines))
    (hlocated : Located lines chunk from' r) (hbounds : r.InBounds lines) :
    (Separate t r ∧ NoLoss t r) ↔
      (r.oldLen ≠ 0 → r.stop = lines.length →
        t.stop + r.oldLen ≤ lines.length ∨ t.startIndex = lines.length) := by
  have hbound : t.startIndex + t.oldLen ≤ lines.length := hin
  have hbound' : r.startIndex + r.oldLen ≤ lines.length := hbounds
  have hadd : lines.length ≤ insertionIdx lines + 1 := by
    unfold insertionIdx
    split
    · omega
    · omega
  unfold Located at hlocated
  unfold Separate NoLoss Tie Replacement.stop at *
  by_cases hempty : r.oldLen = 0
  · rw [if_pos hempty] at hlocated
    refine iff_of_true ⟨by omega, ?_⟩ (fun h => absurd hempty h)
    intro htie
    omega
  · rw [if_neg hempty] at hlocated
    have hnoLoss : (t.oldLen ≠ 0 ∧ r.oldLen = 0 ∧ t.startIndex = r.startIndex) →
        ∀ line ∈ r.newLines, line = [] := fun htie => absurd htie.2.1 hempty
    by_cases hend : r.startIndex + r.oldLen = lines.length
    · constructor
      · rintro ⟨hseparate, -⟩ - -
        omega
      · intro h
        have hfar := h hempty hend
        exact ⟨by omega, hnoLoss⟩
    · -- only an end-of-file chunk may be found before the cursor, and that one reaches the end
      have hforward : from' ≤ r.startIndex := by
        split at hlocated
        · omega
        · exact hlocated
      refine iff_of_true ⟨by omega, hnoLoss⟩ fun _ hstop => absurd hstop hend

/-- **One chunk** keeps away exactly if its replacement is separate from those so far, and adds
    nothing but empty lines at a tie. -/
theorem stepClear_iff (h : Behind lines taken cursor)
    (hchunk : chunkReplacement lines path cursor chunk = .ok (r, next)) :
    StepClear lines path taken cursor chunk ↔
      ∀ t ∈ taken, Separate t r ∧ NoLoss t r := by
  obtain ⟨from', hcontext, hle, -, hcases⟩ := chunkReplacement_cases hchunk h.cursor_le
  unfold StepClear
  simp only [hcontext, Except.ok.injEq, forall_eq']
  rcases hcases with ⟨hadd, rfl, -⟩ | ⟨hadd, hlocate, hlocated, hbounds, -⟩
  · rw [if_pos hadd]
    constructor
    · intro hclear t ht
      exact (addition_iff (h.inBounds t ht)).mpr fun hlast => hclear hlast t ht
    · intro hfine hlast t ht
      exact (addition_iff (h.inBounds t ht)).mp (hfine t ht) hlast
  · rw [if_neg hadd]
    have hiff := fun t ht => located_iff hle (h.inBounds t ht) (h.behind t ht) hlocated hbounds
    constructor
    · intro hclear t ht
      refine (hiff t ht).mpr fun hsome hstop => ?_
      exact hclear r.oldLen ⟨hsome, r, hlocate, rfl, hstop⟩ t ht
    · rintro hfine k ⟨hsome, r', hlocate', rfl, hstop⟩ t ht
      obtain rfl : r = r' := Option.some.inj (hlocate.symm.trans hlocate')
      exact (hiff t ht).mp (hfine t ht) hsome hstop

/-- Lines are added where an earlier replacement begins at the final empty line only. -/
theorem tie_atEnd (h : Behind lines taken cursor)
    (hchunk : chunkReplacement lines path cursor chunk = .ok (r, next)) (ht : t ∈ taken)
    (htie : Tie t r) : ∃ pre, lines = pre ++ [[]] ∧ t.startIndex = pre.length := by
  obtain ⟨from', -, hle, -, hcases⟩ := chunkReplacement_cases hchunk h.cursor_le
  have hin : t.startIndex + t.oldLen ≤ lines.length := h.inBounds t ht
  obtain ⟨hsome, hnone, hstart⟩ := htie
  rcases hcases with ⟨-, rfl, -⟩ | ⟨-, -, hlocated, -, -⟩
  · simp only [insertionIdx] at hstart
    split at hstart
    · next hlast =>
      refine ⟨lines.dropLast, ?_, ?_⟩
      · exact (List.dropLast_append_getLast? [] (eq_of_beq hlast)).symm
      · rw [List.length_dropLast, hstart]
    · omega
  · unfold Located at hlocated
    rw [if_pos hnone] at hlocated
    rcases h.behind t ht with hstop | hadded
    · unfold Replacement.stop at hstop
      omega
    · exact absurd hadded.1 hsome

/-! ### All chunks -/

/-- A relation of every replacement to those before it. -/
theorem chunkReplacements_pairwise {P : Replacement → Replacement → Prop}
    (hstep : ∀ {taken cursor chunk r next}, Behind lines taken cursor →
      chunkReplacement lines path cursor chunk = .ok (r, next) → ∀ t ∈ taken, P t r)
    (h : Behind lines taken cursor)
    (hchunks : chunkReplacements lines path cursor chunks = .ok rs) :
    (∀ t ∈ taken, ∀ r ∈ rs, P t r) ∧ rs.Pairwise P := by
  induction chunks generalizing taken cursor rs with
  | nil =>
    obtain rfl := Except.ok.inj hchunks
    exact ⟨fun t _ r hr => absurd hr List.not_mem_nil, .nil⟩
  | cons chunk chunks ih =>
    obtain ⟨r, next, rest, hfirst, hrest, rfl⟩ := chunkReplacements_cons_ok hchunks
    obtain ⟨hacross, hpairwise⟩ := ih (behind_step h hfirst) hrest
    refine ⟨?_, List.pairwise_cons.mpr ⟨hacross r (by simp), hpairwise⟩⟩
    intro t ht r' hr'
    rcases List.mem_cons.mp hr' with rfl | hr'
    · exact hstep h hfirst t ht
    · exact hacross t (List.mem_append_left _ ht) r' hr'

/-- **All chunks** keep away exactly if the replacements are separate in patch order, with
    nothing but empty lines at ties. -/
theorem clear_iff (h : Behind lines taken cursor)
    (hchunks : chunkReplacements lines path cursor chunks = .ok rs) :
    Clear lines path taken cursor chunks ↔
      (∀ t ∈ taken, ∀ r ∈ rs, Separate t r ∧ NoLoss t r) ∧
        rs.Pairwise fun a b => Separate a b ∧ NoLoss a b := by
  induction chunks generalizing taken cursor rs with
  | nil =>
    obtain rfl := Except.ok.inj hchunks
    exact iff_of_true trivial ⟨fun t _ r hr => absurd hr List.not_mem_nil, .nil⟩
  | cons chunk chunks ih =>
    obtain ⟨r, next, rest, hfirst, hrest, rfl⟩ := chunkReplacements_cons_ok hchunks
    unfold Clear
    rw [stepClear_iff h hfirst, hfirst]
    simp only
    rw [ih (behind_step h hfirst) hrest, List.pairwise_cons]
    constructor
    · rintro ⟨hstep, hacross, hpairwise⟩
      refine ⟨?_, hacross r (by simp), hpairwise⟩
      intro t ht r' hr'
      rcases List.mem_cons.mp hr' with rfl | hr'
      · exact hstep t ht
      · exact hacross t (List.mem_append_left _ ht) r' hr'
    · rintro ⟨hall, hfirst', hpairwise⟩
      refine ⟨fun t ht => hall t ht r List.mem_cons_self, ?_, hpairwise⟩
      intro t ht r' hr'
      rcases List.mem_append.mp ht with ht | ht
      · exact hall t ht r' (List.mem_cons_of_mem r hr')
      · rw [List.mem_singleton.mp ht]
        exact hfirst' r' hr'

/-- **The replacements are disjoint**, and applying them replaces each region and nothing else,
    exactly if every chunk keeps away from the replacements that are there when its turn comes. -/
theorem regionsDisjoint_iff (h : computeReplacements lines path chunks = .ok rs) :
    RegionsDisjoint lines rs ↔ Clear lines path [] 0 chunks := by
  obtain ⟨hsorted, hbounds⟩ := computeReplacements_sorted h
  obtain ⟨inOrder, hchunks, rfl⟩ := computeReplacements_ok h
  have hseparate : (inOrder.insertionSort StartsBefore).Pairwise Separate ↔
      inOrder.Pairwise Separate :=
    (List.perm_insertionSort _ _).pairwise_iff fun hab => Or.symm hab
  have hnoLoss : (inOrder.insertionSort StartsBefore).Pairwise NoLoss ↔
      inOrder.Pairwise NoLoss :=
    StableSort.pairwise_insertionSort_iff fun a b hne htie => absurd htie.2.2 hne
  have hties : (inOrder.insertionSort StartsBefore).Pairwise fun a b => Tie a b →
      ∃ pre, lines = pre ++ [[]] ∧ a.startIndex = pre.length := by
    refine (StableSort.pairwise_insertionSort_iff
      fun a b hne htie => absurd htie.2.2 hne).mpr ?_
    refine (chunkReplacements_pairwise ?_ (behind_start lines) hchunks).2
    intro taken cursor chunk r next hbehind hchunk t ht htie
    exact tie_atEnd hbehind hchunk ht htie
  have hclear := clear_iff (behind_start lines) hchunks
  rw [hclear, List.pairwise_and_iff, ← hseparate, ← hnoLoss]
  unfold RegionsDisjoint
  constructor
  · rintro ⟨-, hapart, happly⟩
    refine ⟨fun t ht => absurd ht List.not_mem_nil, hapart, ?_⟩
    exact (applyReplacements_iff hsorted hbounds hapart hties).mp happly
  · rintro ⟨-, hapart, hempty⟩
    exact ⟨hbounds, hapart, (applyReplacements_iff hsorted hbounds hapart hties).mpr hempty⟩

/-- A line and the line that comes for it, and lines that are only added. -/
theorem regionsDisjoint_iff_addition :
    RegionsDisjoint ["a".toList, []] [⟨0, 1, ["b".toList]⟩, ⟨1, 0, ["c".toList]⟩] ↔
      Clear ["a".toList, []] ["f".toList] [] 0
        [ { changeContext := none, oldLines := ["a".toList], newLines := ["b".toList],
            isEndOfFile := false },
          { changeContext := none, oldLines := [], newLines := ["c".toList],
            isEndOfFile := false } ] :=
  regionsDisjoint_iff (by decide +kernel)

/-- A line is replaced twice: the second chunk is one for the end of the file and is found before
    the cursor. -/
theorem endOfFile_overlaps :
    computeReplacements ["a".toList] ["f".toList]
        [ { changeContext := none, oldLines := ["a".toList], newLines := ["b".toList],
            isEndOfFile := false },
          { changeContext := none, oldLines := ["a".toList], newLines := ["c".toList],
            isEndOfFile := true } ] =
        .ok [⟨0, 1, ["b".toList]⟩, ⟨0, 1, ["c".toList]⟩] ∧
      ¬ RegionsDisjoint ["a".toList] [⟨0, 1, ["b".toList]⟩, ⟨0, 1, ["c".toList]⟩] := by
  refine ⟨by decide +kernel, ?_⟩
  rintro ⟨-, hseparate, -⟩
  revert hseparate
  decide +kernel

end CodexMonitor.ApplyPatch
