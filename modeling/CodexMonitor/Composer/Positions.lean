import CodexMonitor.Composer.Edits

namespace CodexMonitor.Composer

open Text

/-!
# Composer — positions

Where graphemes, lines and words end, and what the operations do that use it: deleting, killing and
moving the cursor.

* `prevAtomicBoundary_spec`, `nextAtomicBoundary_spec` — graphemes, or whole elements.
* `beginningOfLine_spec`, `endOfLine_spec` — lines.
* `beginningOfPreviousWord_spec`, `endOfNextWord_spec` — words.
* `deleteBackward_effect`, `killToEndOfLine_effect`, `moveCursorUp_effect` — the operations.
-/

/-! ### Graphemes -/

theorem boundary_pieceEnds (front : Text) (pieces : List Text) :
    ∀ p ∈ pieceEnds (byteLen front) pieces, Boundary (front ++ pieces.flatten) p := by
  induction pieces generalizing front with
  | nil => exact fun p hp => absurd hp List.not_mem_nil
  | cons piece pieces ih =>
    intro p hp
    rw [pieceEnds, ← byteLen_append] at hp
    rw [List.flatten_cons, ← List.append_assoc]
    rcases List.mem_cons.mp hp with rfl | hmem
    · exact Boundary.of_append _ _
    · exact ih (front ++ piece) p hmem

namespace Segmenter

variable {seg : Segmenter} {t : Text} {pos b : Nat}

theorem boundary_of_mem (h : b ∈ 0 :: pieceEnds 0 (seg.graphemes t)) : Boundary t b := by
  rcases List.mem_cons.mp h with rfl | hmem
  · exact Boundary.zero t
  · have hboundary := boundary_pieceEnds [] (seg.graphemes t) b hmem
    rw [seg.graphemes_flatten] at hboundary
    exact hboundary

theorem prevBoundary_spec (h : seg.prevBoundary t pos = some b) : Boundary t b ∧ b < pos := by
  unfold prevBoundary at h
  obtain ⟨hmem, hlt⟩ := List.mem_filter.mp (List.mem_of_getLast? h)
  exact ⟨boundary_of_mem hmem, of_decide_eq_true hlt⟩

theorem nextBoundary_spec (h : seg.nextBoundary t pos = some b) : Boundary t b ∧ pos < b := by
  unfold nextBoundary at h
  have hlt := List.find?_some h
  exact ⟨boundary_of_mem (List.mem_of_find?_eq_some h), of_decide_eq_true hlt⟩

theorem splitSegment_flatten (t : Text) : (splitSegment t).flatten = t := by
  induction t with
  | nil => rfl
  | cons c t ih =>
    rw [splitSegment]
    split
    next d piece pieces heq =>
      rw [heq, List.flatten_cons] at ih
      split
      next =>
        rw [List.flatten_cons, List.cons_append, ih]
      next =>
        rw [List.flatten_cons, List.flatten_cons, ih]
        rfl
    next pieces _ =>
      rw [List.flatten_cons, ih]
      rfl

theorem splitWordPieces_flatten (seg : Segmenter) (run : Text) :
    (seg.splitWordPieces run).flatten = run := by
  have hsplit : ∀ segments : List Text,
      (segments.flatMap splitSegment).flatten = segments.flatten := by
    intro segments
    induction segments with
    | nil => rfl
    | cons segment segments ih =>
      rw [List.flatMap_cons, List.flatten_append, splitSegment_flatten, ih, List.flatten_cons]
  unfold splitWordPieces
  rw [hsplit, seg.wordBounds_flatten]

end Segmenter

namespace TextArea

variable {seg : Segmenter} {s s' : TextArea} {op : Op} {ops : List Op} {text t : Text}
  {b pos bol eol : Nat} {pieces : List Text}

/-- The last word of a run is what the run ends with. -/
theorem lastWordLen_spec (pieces : List Text) : ∃ front back, pieces.flatten = front ++ back ∧
    byteLen back = lastWordLen pieces := by
  unfold lastWordLen
  split
  next hnil =>
    rw [List.reverse_eq_nil_iff.mp hnil]
    exact ⟨[], [], rfl, rfl⟩
  next piece before hreverse =>
    have hpieces : pieces = before.reverse ++ [piece] := by
      rw [← List.reverse_cons, ← hreverse, List.reverse_reverse]
    split
    next =>
      obtain ⟨separators, hseparators⟩ : ∃ separators, separators =
        before.takeWhile fun piece => piece.all isWordSeparator := ⟨_, rfl⟩
      refine ⟨(before.dropWhile fun piece => piece.all isWordSeparator).reverse.flatten,
        separators.reverse.flatten ++ piece, ?_, ?_⟩
      · have hsplit : before.reverse = (before.dropWhile fun piece =>
            piece.all isWordSeparator).reverse ++ separators.reverse := by
          rw [← List.reverse_append, hseparators, List.takeWhile_append_dropWhile]
        rw [hpieces, hsplit, List.flatten_append, List.flatten_append, List.append_assoc]
        simp only [List.flatten_cons, List.flatten_nil, List.append_nil]
      · rw [← hseparators, byteLen_append, List.flatten_cons, byteLen_append,
          byteLen_flatten_reverse]
        omega
    next =>
      refine ⟨before.reverse.flatten, piece, ?_, rfl⟩
      rw [hpieces, List.flatten_append]
      simp only [List.flatten_cons, List.flatten_nil, List.append_nil]

theorem firstWordLen_spec (pieces : List Text) : ∃ front back, pieces.flatten = front ++ back ∧
    byteLen front = firstWordLen pieces := by
  unfold firstWordLen
  split
  next => exact ⟨[], [], rfl, rfl⟩
  next piece behind =>
    split
    next =>
      refine ⟨(piece :: behind.takeWhile fun piece => piece.all isWordSeparator).flatten,
        (behind.dropWhile fun piece => piece.all isWordSeparator).flatten, ?_, rfl⟩
      rw [← List.flatten_append, List.cons_append, List.takeWhile_append_dropWhile]
    next => exact ⟨piece, behind.flatten, rfl, rfl⟩

/-! ### Positions -/

section Positions

variable (h : s.Sound)

include h

/-- **The boundary in front of a position** is in no element. -/
theorem prevAtomicBoundary_spec (seg : Segmenter) (pos : Nat) :
    Boundary s.text (s.prevAtomicBoundary seg pos) ∧
      Outside s.elements (s.prevAtomicBoundary seg pos) ∧
      s.prevAtomicBoundary seg pos ≤ pos := by
  have hzero : Outside s.elements 0 := fun e _ => contains_eq_false.mpr (.inl (Nat.zero_le _))
  unfold prevAtomicBoundary
  split
  next => exact ⟨Boundary.zero _, hzero, Nat.zero_le _⟩
  next =>
    split
    next e hfind =>
      have he := List.mem_of_find?_eq_some hfind
      have hmeet := List.find?_some hfind
      simp only [Bool.and_eq_true, decide_eq_true_eq] at hmeet
      exact ⟨h.placed.starts e he, (h.placed.outside_ends he (by omega)).1, by omega⟩
    next =>
      split
      next b hb =>
        obtain ⟨hboundary, hlt⟩ := Segmenter.prevBoundary_spec hb
        obtain ⟨hadjusted, hout⟩ := adjustPosOutOfElements_spec h.placed hboundary true
        have hle := (adjustPosOutOfElements_side s b).1
        exact ⟨hadjusted, hout, by omega⟩
      next => exact ⟨Boundary.zero _, hzero, Nat.zero_le _⟩

/-- **The boundary behind a position** is in no element. -/
theorem nextAtomicBoundary_spec (seg : Segmenter) (hpos : pos ≤ s.len) :
    Boundary s.text (s.nextAtomicBoundary seg pos) ∧
      Outside s.elements (s.nextAtomicBoundary seg pos) ∧
      pos ≤ s.nextAtomicBoundary seg pos := by
  have hall : Boundary s.text s.len := Boundary.all s.text
  unfold nextAtomicBoundary
  split
  next => exact ⟨hall, h.outside_len, hpos⟩
  next =>
    split
    next e hfind =>
      have he := List.mem_of_find?_eq_some hfind
      have hmeet := List.find?_some hfind
      simp only [Bool.and_eq_true, decide_eq_true_eq] at hmeet
      exact ⟨h.placed.stops e he, (h.placed.outside_ends he (by omega)).2, by omega⟩
    next =>
      split
      next b hb =>
        obtain ⟨hboundary, hlt⟩ := Segmenter.nextBoundary_spec hb
        obtain ⟨hadjusted, hout⟩ := adjustPosOutOfElements_spec h.placed hboundary false
        have hle := (adjustPosOutOfElements_side s b).2
        exact ⟨hadjusted, hout, by omega⟩
      next => exact ⟨hall, h.outside_len, hpos⟩

end Positions

/-- What a text ends with after its last line feed is a line. -/
theorem throughLastNewline_spec (t : Text) : ∃ line, t = throughLastNewline t ++ line ∧
    (throughLastNewline t = [] ∨ ∃ before, throughLastNewline t = before ++ ['\n']) := by
  obtain ⟨line, hline⟩ := List.rdropWhile_prefix (fun c : Char => decide (c ≠ '\n')) t
  refine ⟨line, hline.symm, ?_⟩
  by_cases hnil : throughLastNewline t = []
  · exact .inl hnil
  · right
    have hlast := List.rdropWhile_last_not (fun c : Char => decide (c ≠ '\n')) t hnil
    rw [decide_eq_true_eq, not_not] at hlast
    refine ⟨(throughLastNewline t).dropLast, ?_⟩
    rw [← hlast]
    exact (List.dropLast_append_getLast hnil).symm

theorem byteLen_newline : byteLen ['\n'] = 1 := rfl

/-- **The beginning of a line** is at the start of the text or behind a line feed. -/
theorem beginningOfLine_spec (hpos : Boundary s.text pos) :
    ∃ bol, s.beginningOfLine pos = some bol ∧ Boundary s.text bol ∧ bol ≤ pos ∧
      (0 < bol → Boundary s.text (bol - 1)) := by
  obtain ⟨front, back, ht, rfl⟩ := hpos
  unfold beginningOfLine
  rw [ht, byteTake_append]
  refine ⟨byteLen (throughLastNewline front), rfl, ?_⟩
  obtain ⟨line, hfront, hnewline⟩ := throughLastNewline_spec front
  generalize throughLastNewline front = start at hfront hnewline
  subst hfront
  refine ⟨?_, ?_, ?_⟩
  · rw [List.append_assoc]
    exact Boundary.of_append _ _
  · rw [byteLen_append]
    omega
  · intro hlt
    rcases hnewline with rfl | ⟨before, rfl⟩
    · exact absurd hlt (Nat.lt_irrefl 0)
    · rw [byteLen_append, byteLen_newline, Nat.add_sub_cancel, List.append_assoc, List.append_assoc]
      exact Boundary.of_append _ _

/-- **The end of a line** is at the end of the text or in front of a line feed. -/
theorem endOfLine_spec (hpos : Boundary s.text pos) :
    ∃ eol, s.endOfLine pos = some eol ∧ Boundary s.text eol ∧ pos ≤ eol ∧
      (eol < s.len → Boundary s.text (eol + 1)) := by
  obtain ⟨front, back, ht, rfl⟩ := hpos
  unfold endOfLine TextArea.len
  rw [ht, byteDrop_append]
  refine ⟨byteLen front + byteLen (back.takeWhile (· ≠ '\n')), rfl, ?_⟩
  have hback := List.takeWhile_append_dropWhile (p := fun c : Char => decide (c ≠ '\n')) (l := back)
  generalize back.takeWhile (fun c : Char => decide (c ≠ '\n')) = line at hback ⊢
  generalize hrest : back.dropWhile (fun c : Char => decide (c ≠ '\n')) = rest at hback
  subst hback
  refine ⟨?_, Nat.le_add_right _ _, ?_⟩
  · rw [← byteLen_append, ← List.append_assoc]
    exact Boundary.of_append _ _
  · intro hlt
    cases rest with
    | nil =>
      rw [List.append_nil, byteLen_append] at hlt
      exact absurd hlt (Nat.lt_irrefl _)
    | cons c rest =>
      have hc : c = '\n' := by
        have hnot := List.head?_dropWhile_not (fun c : Char => decide (c ≠ '\n')) (line ++ c :: rest)
        rw [hrest] at hnot
        simpa using hnot
      rw [hc, ← byteLen_append, ← byteLen_newline, ← byteLen_append]
      have hsplit : front ++ (line ++ '\n' :: rest) = front ++ line ++ ['\n'] ++ rest := by
        simp only [List.append_assoc, List.cons_append, List.nil_append]
      rw [hsplit]
      exact Boundary.of_append _ _

section Words

variable (h : s.Sound)

include h

/-- **The beginning of a word** is a boundary in no element. -/
theorem beginningOfPreviousWord_spec (seg : Segmenter) :
    ∃ start, s.beginningOfPreviousWord seg = some start ∧ Boundary s.text start ∧
      start ≤ s.cursorPos := by
  obtain ⟨front, back, ht, hcursor⟩ := h.cursor
  have htake : byteTake s.cursorPos s.text = some front := by
    rw [ht, ← hcursor, byteTake_append]
  unfold beginningOfPreviousWord
  rw [htake]
  refine ⟨_, rfl, ?_⟩
  dsimp only
  split
  next => exact ⟨Boundary.zero _, Nat.zero_le _⟩
  next =>
    obtain ⟨blank, hblank⟩ := List.rdropWhile_prefix isWhitespace front
    generalize front.rdropWhile isWhitespace = words at hblank
    obtain ⟨rest, hrest⟩ := List.rtakeWhile_suffix (fun c => !isWhitespace c) words
    generalize words.rtakeWhile (fun c => !isWhitespace c) = run at hrest
    obtain ⟨start, word, hword, hlen⟩ := lastWordLen_spec (seg.splitWordPieces run)
    rw [Segmenter.splitWordPieces_flatten] at hword
    have hwords : byteLen words - lastWordLen (seg.splitWordPieces run) =
        byteLen (rest ++ start) := by
      rw [← hlen, ← hrest, hword]
      simp only [byteLen_append]
      omega
    have hboundary : Boundary s.text (byteLen (rest ++ start)) := by
      refine ⟨rest ++ start, word ++ (blank ++ back), ?_, rfl⟩
      rw [ht, ← hblank, ← hrest, hword]
      simp only [List.append_assoc]
    rw [hwords]
    have hle := (adjustPosOutOfElements_side s (byteLen (rest ++ start))).1
    refine ⟨(adjustPosOutOfElements_spec h.placed hboundary true).1, ?_⟩
    rw [← hcursor, ← hblank, ← hrest, hword]
    simp only [byteLen_append] at hle ⊢
    omega

/-- **The end of a word** is a boundary in no element. -/
theorem endOfNextWord_spec (seg : Segmenter) :
    ∃ stop, s.endOfNextWord seg = some stop ∧ Boundary s.text stop := by
  obtain ⟨front, back, ht, hcursor⟩ := h.cursor
  have hdrop : byteDrop s.cursorPos s.text = some back := by
    rw [ht, ← hcursor, byteDrop_append]
  unfold endOfNextWord
  rw [hdrop]
  refine ⟨_, rfl, ?_⟩
  dsimp only
  split
  next => exact Boundary.all s.text
  next =>
    have hblank := List.takeWhile_append_dropWhile (p := isWhitespace) (l := back)
    generalize back.takeWhile isWhitespace = blank at hblank
    generalize back.dropWhile isWhitespace = words at hblank
    have hrun := List.takeWhile_append_dropWhile (p := fun c => !isWhitespace c) (l := words)
    generalize words.takeWhile (fun c => !isWhitespace c) = run at hrun
    generalize words.dropWhile (fun c => !isWhitespace c) = rest at hrun
    obtain ⟨word, behind, hword, hlen⟩ := firstWordLen_spec (seg.splitWordPieces run)
    rw [Segmenter.splitWordPieces_flatten] at hword
    refine (adjustPosOutOfElements_spec h.placed ?_ false).1
    refine ⟨front ++ blank ++ word, behind ++ rest, ?_, ?_⟩
    · rw [ht, ← hblank, ← hrun, hword]
      simp only [List.append_assoc]
    · rw [← hcursor, ← hlen, ← hblank]
      simp only [byteLen_append]
      omega

end Words

/-! ### Deleting and killing -/

theorem iterateTo_invariant {P : Nat → Prop} (next : Nat → Nat) (last : Nat → Bool)
    (hnext : ∀ target, P target → P (next target)) (n : Nat) {target : Nat} (htarget : P target) :
    P (iterateTo next last n target) := by
  induction n generalizing target with
  | zero => exact htarget
  | succ n ih =>
    rw [iterateTo]
    split
    · exact hnext target htarget
    · exact ih (hnext target htarget)

section Delete

variable (h : s.Sound)

include h

theorem deleteBackward_effect (seg : Segmenter) (n : Nat) :
    ∃ s', s.deleteBackward seg n = some s' ∧ Effect nothing s s' := by
  unfold deleteBackward
  split
  next => exact ⟨s, rfl, h.effect_refl⟩
  next =>
    obtain ⟨hboundary, hle⟩ := iterateTo_invariant (s.prevAtomicBoundary seg) (· == 0)
      (P := fun target => Boundary s.text target ∧ target ≤ s.cursorPos)
      (fun target htarget => by
        obtain ⟨hboundary, -, hle⟩ := prevAtomicBoundary_spec h seg target
        exact ⟨hboundary, by omega⟩) n ⟨h.cursor, Nat.le_refl _⟩
    exact replaceRange_edited h hboundary h.cursor hle []

theorem deleteForward_effect (seg : Segmenter) (n : Nat) :
    ∃ s', s.deleteForward seg n = some s' ∧ Effect nothing s s' := by
  unfold deleteForward
  split
  next => exact ⟨s, rfl, h.effect_refl⟩
  next =>
    obtain ⟨hboundary, hle⟩ := iterateTo_invariant (s.nextAtomicBoundary seg) (s.len ≤ ·)
      (P := fun target => Boundary s.text target ∧ s.cursorPos ≤ target)
      (fun target htarget => by
        obtain ⟨hboundary, -, hle⟩ := nextAtomicBoundary_spec h seg htarget.1.le_byteLen
        exact ⟨hboundary, by omega⟩) n ⟨h.cursor, Nat.le_refl _⟩
    exact replaceRange_edited h h.cursor hboundary hle []

theorem deleteBackwardWord_effect (seg : Segmenter) :
    ∃ s', s.deleteBackwardWord seg = some s' ∧ KillEffect s s' ∧ Killed s s' := by
  obtain ⟨start, hstart, hboundary, hle⟩ := beginningOfPreviousWord_spec h seg
  unfold deleteBackwardWord
  rw [hstart]
  exact killRange_effect h hboundary h.cursor hle (Nat.le_refl _)

theorem deleteForwardWord_effect (seg : Segmenter) :
    ∃ s', s.deleteForwardWord seg = some s' ∧ KillEffect s s' ∧ Killed s s' := by
  obtain ⟨stop, hstop, hboundary⟩ := endOfNextWord_spec h seg
  unfold deleteForwardWord
  rw [hstop]
  show ∃ s', (if s.cursorPos < stop then s.killRange (s.cursorPos, stop) else some s) = some s' ∧ _
  split
  next hlt =>
    exact killRange_effect h h.cursor hboundary (Nat.le_refl _) (Nat.le_of_lt hlt)
  next => exact ⟨s, rfl, h.kill_nothing⟩

theorem killToEndOfLine_effect :
    ∃ s', s.killToEndOfLine = some s' ∧ KillEffect s s' ∧ Killed s s' := by
  obtain ⟨eol, heol, hboundary, hle, hnewline⟩ := endOfLine_spec h.cursor
  unfold killToEndOfLine
  rw [heol]
  show ∃ s', (if s.cursorPos = eol then
    if eol < s.len then s.killRange (s.cursorPos, eol + 1) else some s
    else s.killRange (s.cursorPos, eol)) = some s' ∧ _
  split
  next =>
    split
    next hlt =>
      exact killRange_effect h h.cursor (hnewline hlt) (Nat.le_refl _) (Nat.le_succ_of_le hle)
    next => exact ⟨s, rfl, h.kill_nothing⟩
  next => exact killRange_effect h h.cursor hboundary (Nat.le_refl _) hle

theorem killToBeginningOfLine_effect :
    ∃ s', s.killToBeginningOfLine = some s' ∧ KillEffect s s' ∧ Killed s s' := by
  obtain ⟨bol, hbol, hboundary, hle, hnewline⟩ := beginningOfLine_spec h.cursor
  unfold killToBeginningOfLine
  rw [hbol]
  show ∃ s', (if s.cursorPos = bol then if 0 < bol then s.killRange (bol - 1, bol) else some s
    else s.killRange (bol, s.cursorPos)) = some s' ∧ _
  split
  next heq =>
    split
    next hlt =>
      exact killRange_effect h (hnewline hlt) hboundary (by dsimp only; omega) (by dsimp only; omega)
    next => exact ⟨s, rfl, h.kill_nothing⟩
  next => exact killRange_effect h hboundary h.cursor hle (Nat.le_refl _)

theorem yank_effect : ∃ s', s.yank = some s' ∧ Effect nothing s s' := by
  by_cases hnil : s.killBuffer = []
  · refine ⟨s, ?_, h.effect_refl⟩
    unfold yank
    rw [if_pos (List.isEmpty_iff.mpr hnil)]
  · obtain ⟨s', hs', hedited⟩ := yank_spec h hnil
    exact ⟨s', hs', hedited.effect⟩

end Delete

/-! ### Moving the cursor -/

/-- The line of the cursor begins behind the last line feed in front of it. -/
theorem lineStart_of_front {front back : Text} (ht : s.text = front ++ back)
    (hcursor : byteLen front = s.cursorPos) :
    Boundary s.text (byteLen (throughLastNewline front)) ∧
      byteLen (throughLastNewline front) ≤ s.cursorPos := by
  obtain ⟨line, hfront, -⟩ := throughLastNewline_spec front
  constructor
  · rw [ht, hfront, List.append_assoc, ← hfront]
    exact Boundary.of_append _ _
  · rw [← hcursor]
    exact byteLen_le_of_prefix ⟨line, hfront.symm⟩

section Move

variable (h : s.Sound)

include h

theorem layout_effect (seg : Segmenter) (width : Nat) : Effect nothing s (s.layout seg width) := by
  have hfill : Effect nothing s { s with wrapCache := some (width, seg.wrapRanges s.text width) } := by
    refine ⟨⟨h.placed, h.sorted, h.cursor, fun cache hcache => ?_⟩,
      fun e he => .inl ⟨e, he, rfl, rfl, rfl⟩, id, rfl⟩
    rw [← Option.some.inj hcache]
    exact seg.wrapRanges_lines s.text width
  unfold layout
  split
  next =>
    split
    next => exact h.effect_refl
    next => exact hfill
  next => exact hfill

theorem moveToDisplayColOnLine_effect (seg : Segmenter) {lineStart lineEnd : Nat}
    (hstart : Boundary s.text lineStart) (hend : Boundary s.text lineEnd)
    (hle : lineStart ≤ lineEnd) (col : Nat) : ∃ s',
    moveToDisplayColOnLine seg { s with preferredCol := some col } lineStart lineEnd col = some s' ∧
      Effect nothing s s' := by
  obtain ⟨line, hline, -⟩ := exists_slice hstart hend hle
  unfold moveToDisplayColOnLine
  dsimp only
  rw [hline]
  refine ⟨_, rfl, ?_⟩
  exact h.effect_cursor (clampPosToNearestBoundary_spec h.placed _).1
    (fun _ => (clampPosToNearestBoundary_spec h.placed _).2) (some col)

/-- The cursor goes to a line of the cache. -/
theorem moveToLine_effect (seg : Segmenter) {line : Nat × Nat} (hline : LineOf s.text line)
    (col : Nat) : ∃ s',
    moveToDisplayColOnLine seg { s with preferredCol := some col } line.1 (line.2 - 1) col =
      some s' ∧ Effect nothing s s' := by
  obtain ⟨stop, hstop, hstart, hend, hle⟩ := hline
  have hlast : line.2 - 1 = stop := by omega
  rw [hlast]
  exact moveToDisplayColOnLine_effect h seg hstart hend hle col

theorem exists_targetCol (seg : Segmenter) {lineStart : Nat} (hstart : Boundary s.text lineStart)
    (hle : lineStart ≤ s.cursorPos) : ∃ col, s.targetCol seg lineStart = some col := by
  unfold targetCol
  split
  next col _ => exact ⟨col, rfl⟩
  next =>
    obtain ⟨line, hline, -⟩ := exists_slice hstart h.cursor hle
    rw [hline]
    exact ⟨_, rfl⟩

/-- **The line of the cursor** begins in front of it. -/
theorem wrappedLine_spec {idx : Nat} {line : Nat × Nat} {lines : List (Nat × Nat)}
    (hline : s.wrappedLine = some (idx, line, lines)) :
    (∀ line ∈ lines, LineOf s.text line) ∧ line ∈ lines ∧ line.1 ≤ s.cursorPos := by
  unfold wrappedLine at hline
  obtain ⟨⟨width, cached⟩, hcache, hline⟩ := Option.bind_eq_some_iff.mp hline
  obtain ⟨idx', hidx, hline⟩ := Option.bind_eq_some_iff.mp hline
  obtain ⟨line', hget, hline⟩ := Option.bind_eq_some_iff.mp hline
  obtain ⟨rfl, hpair⟩ := Prod.mk.inj (Option.some.inj hline)
  obtain ⟨rfl, rfl⟩ := Prod.mk.inj hpair
  refine ⟨h.lines _ hcache, List.mem_of_getElem? hget, ?_⟩
  unfold wrappedLineIndexByStart at hidx
  dsimp only at hidx
  split at hidx
  next => cases hidx
  next hpos =>
    obtain rfl := Option.some.inj hidx
    have hlt : (cached.takeWhile fun line => line.1 ≤ s.cursorPos).length - 1 <
        (cached.takeWhile fun line => line.1 ≤ s.cursorPos).length := by omega
    have hsplit : cached = (cached.takeWhile fun line => line.1 ≤ s.cursorPos) ++
        cached.dropWhile fun line => line.1 ≤ s.cursorPos :=
      List.takeWhile_append_dropWhile.symm
    rw [hsplit, List.getElem?_append_left] at hget
    · have hmem := List.mem_of_getElem? hget
      exact of_decide_eq_true (List.mem_takeWhile_imp (p := fun line : Nat × Nat =>
        decide (line.1 ≤ s.cursorPos)) hmem)
    · rw [List.takeWhile_append_dropWhile]
      exact hlt

theorem moveCursorUp_effect (seg : Segmenter) :
    ∃ s', s.moveCursorUp seg = some s' ∧ Effect nothing s s' := by
  have hfirst : Effect nothing s { s with cursorPos := 0, preferredCol := none } :=
    h.effect_cursor (Boundary.zero _)
      (fun _ e _ => contains_eq_false.mpr (.inl (Nat.zero_le _))) none
  unfold moveCursorUp
  split
  -- for the first line of the cache `idx - 1` is that line again, which the guard rules out
  next idx line lines hline =>
    obtain ⟨hlines, hmem, hle⟩ := wrappedLine_spec h hline
    obtain ⟨stop, -, hstart, -, -⟩ := hlines line hmem
    obtain ⟨col, hcol⟩ := exists_targetCol h seg hstart hle
    rw [hcol]
    cases hprev : lines[idx - 1]? with
    | none => exact ⟨_, rfl, hfirst⟩
    | some prev =>
      by_cases hidx : 0 < idx
      · obtain ⟨s', hs', heffect⟩ :=
          moveToLine_effect h seg (hlines prev (List.mem_of_getElem? hprev)) col
        refine ⟨s', ?_, heffect⟩
        show (if 0 < idx then _ else _) = some s'
        rw [if_pos hidx]
        exact hs'
      · refine ⟨_, ?_, hfirst⟩
        show (if 0 < idx then _ else _) = _
        rw [if_neg hidx]
        rfl
  next =>
    obtain ⟨front, back, ht, hcursor⟩ := h.cursor
    have htake : byteTake s.cursorPos s.text = some front := by
      rw [ht, ← hcursor, byteTake_append]
    obtain ⟨line, hfront, -⟩ := throughLastNewline_spec front
    rw [htake]
    simp only [Option.bind_eq_bind, Option.bind_some]
    split
    next => exact ⟨_, rfl, hfirst⟩
    next c before hreverse =>
      have hnewline : throughLastNewline front = before.reverse ++ [c] := by
        rw [← List.reverse_cons, ← hreverse, List.reverse_reverse]
      obtain ⟨hstart, hle⟩ := lineStart_of_front ht hcursor
      obtain ⟨col, hcol⟩ := exists_targetCol h seg hstart hle
      rw [hcol]
      obtain ⟨above, habove, -⟩ := throughLastNewline_spec before.reverse
      refine moveToDisplayColOnLine_effect h seg ?_ ?_ ?_ col
      · refine ⟨throughLastNewline before.reverse, above ++ ([c] ++ (line ++ back)), ?_, rfl⟩
        rw [ht, hfront, hnewline, ← List.append_assoc, ← habove]
        simp only [List.append_assoc]
      · refine ⟨before.reverse, [c] ++ (line ++ back), ?_, rfl⟩
        rw [ht, hfront, hnewline]
        simp only [List.append_assoc]
      · exact byteLen_le_of_prefix ⟨above, habove.symm⟩

theorem moveCursorDown_effect (seg : Segmenter) :
    ∃ s', s.moveCursorDown seg = some s' ∧ Effect nothing s s' := by
  have hlast : Effect nothing s { s with cursorPos := s.len, preferredCol := none } :=
    h.effect_cursor (Boundary.all _) (fun _ => h.outside_len) none
  unfold moveCursorDown
  split
  next idx line lines hline =>
    obtain ⟨hlines, hmem, hle⟩ := wrappedLine_spec h hline
    obtain ⟨stop, -, hstart, -, -⟩ := hlines line hmem
    obtain ⟨col, hcol⟩ := exists_targetCol h seg hstart hle
    rw [hcol]
    cases hnext : lines[idx + 1]? with
    | none => exact ⟨_, rfl, hlast⟩
    | some next =>
      exact moveToLine_effect h seg (hlines next (List.mem_of_getElem? hnext)) col
  next =>
    obtain ⟨front, back, ht, hcursor⟩ := h.cursor
    have htake : byteTake s.cursorPos s.text = some front := by
      rw [ht, ← hcursor, byteTake_append]
    have hdrop : byteDrop s.cursorPos s.text = some back := by
      rw [ht, ← hcursor, byteDrop_append]
    obtain ⟨hstart, hle⟩ := lineStart_of_front ht hcursor
    obtain ⟨col, hcol⟩ := exists_targetCol h seg hstart hle
    rw [htake, hdrop]
    simp only [Option.bind_eq_bind, Option.bind_some, hcol]
    -- what is behind the cursor: the rest of its line, the line below it, and the others
    have hback := List.takeWhile_append_dropWhile (p := fun c : Char => decide (c ≠ '\n'))
      (l := back)
    have hnot := List.head?_dropWhile_not (fun c : Char => decide (c ≠ '\n')) back
    split
    next => exact ⟨_, rfl, hlast⟩
    next c behind hrest =>
      rw [hrest] at hback hnot
      have hc : c = '\n' := by simpa using hnot
      have hbehind := List.takeWhile_append_dropWhile (p := fun c : Char => decide (c ≠ '\n'))
        (l := behind)
      generalize back.takeWhile (fun c : Char => decide (c ≠ '\n')) = rest at hback ⊢
      generalize behind.takeWhile (fun c : Char => decide (c ≠ '\n')) = below at hbehind ⊢
      generalize behind.dropWhile (fun c : Char => decide (c ≠ '\n')) = tail at hbehind
      have hlen : s.cursorPos + byteLen rest + 1 = byteLen (front ++ rest ++ ['\n']) := by
        rw [byteLen_append, byteLen_append, byteLen_newline, hcursor]
      rw [hlen, ← byteLen_append]
      refine moveToDisplayColOnLine_effect h seg ?_ ?_ ?_ col
      · refine ⟨_, behind, ?_, rfl⟩
        rw [ht, ← hback, hc]
        simp only [List.append_assoc, List.cons_append, List.nil_append]
      · refine ⟨_, tail, ?_, rfl⟩
        rw [ht, ← hback, hc, ← hbehind]
        simp only [List.append_assoc, List.cons_append, List.nil_append]
      · rw [byteLen_append (front ++ rest ++ ['\n'])]
        exact Nat.le_add_right _ _

end Move

section Lines

variable (h : s.Sound)

include h

theorem moveCursorToBeginningOfLine_effect (moveUpAtBol : Bool) :
    ∃ s', s.moveCursorToBeginningOfLine moveUpAtBol = some s' ∧ Effect nothing s s' := by
  obtain ⟨bol, hbol, -, -, hnewline⟩ := beginningOfLine_spec h.cursor
  unfold moveCursorToBeginningOfLine
  rw [hbol]
  show ∃ s', (if (moveUpAtBol && s.cursorPos == bol) = true then
    (s.beginningOfLine (s.cursorPos - 1)).bind fun above => some (s.setCursor above)
    else some (s.setCursor bol)) = some s' ∧ _
  split
  next hup =>
    simp only [Bool.and_eq_true, beq_iff_eq] at hup
    have habove : Boundary s.text (s.cursorPos - 1) := by
      by_cases hpos : 0 < bol
      · rw [hup.2]
        exact hnewline hpos
      · have hzero : s.cursorPos - 1 = 0 := by omega
        rw [hzero]
        exact Boundary.zero _
    obtain ⟨above, hline, -⟩ := beginningOfLine_spec habove
    rw [hline]
    exact ⟨_, rfl, h.effect_setCursor _⟩
  next => exact ⟨_, rfl, h.effect_setCursor _⟩

theorem moveCursorToEndOfLine_effect (moveDownAtEol : Bool) :
    ∃ s', s.moveCursorToEndOfLine moveDownAtEol = some s' ∧ Effect nothing s s' := by
  obtain ⟨eol, heol, -, -, hnewline⟩ := endOfLine_spec h.cursor
  unfold moveCursorToEndOfLine
  rw [heol]
  show ∃ s', (if (moveDownAtEol && s.cursorPos == eol) = true then
    (s.endOfLine (min (s.cursorPos + 1) s.len)).bind fun below => some (s.setCursor below)
    else some (s.setCursor eol)) = some s' ∧ _
  split
  next hdown =>
    simp only [Bool.and_eq_true, beq_iff_eq] at hdown
    have hbelow : Boundary s.text (min (s.cursorPos + 1) s.len) := by
      by_cases hlt : eol < s.len
      · rw [hdown.2, Nat.min_eq_left hlt]
        exact hnewline hlt
      · rw [Nat.min_eq_right (by omega)]
        exact Boundary.all s.text
    obtain ⟨below, hline, -⟩ := endOfLine_spec hbelow
    rw [hline]
    exact ⟨_, rfl, h.effect_setCursor _⟩
  next => exact ⟨_, rfl, h.effect_setCursor _⟩

end Lines

end TextArea

end CodexMonitor.Composer
