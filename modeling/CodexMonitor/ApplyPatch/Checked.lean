import CodexMonitor.ApplyPatch.Regions

namespace CodexMonitor.ApplyPatch

/-!
# Apply patch — no access out of range

The search and the replacement of lines once more, with every slice, index, removal, insertion
and subtraction as an operation that may fail.  None does.

* `Checked` — the operations and the code over them; `none` stands for a panic.
* `seekSequence_checked`, `chunkReplacements_checked`, `applyReplacements_checked` — each part
  returns what the unchecked code does.
* `newContentsFromChunks_returns` — so new contents, or an error, are always returned.
-/

namespace Checked

/-! ### Operations that may panic -/

/-- `l[first..stop]`. -/
def slice (l : List Text) (first stop : Nat) : Option (List Text) :=
  if first ≤ stop ∧ stop ≤ l.length then some ((l.drop first).take (stop - first)) else none

/-- `Vec::remove`. -/
def remove (l : List Text) (index : Nat) : Option (List Text) :=
  if index < l.length then some (l.eraseIdx index) else none

/-- `Vec::insert`. -/
def insert (l : List Text) (index : Nat) (line : Text) : Option (List Text) :=
  if index ≤ l.length then some (l.insertIdx index line) else none

/-- `a - b` on `usize`. -/
def sub (a b : Nat) : Option Nat := if b ≤ a then some (a - b) else none

/-! ### The search -/

/-- The lines of the pattern from `pIdx` on, up to the first that differs. -/
def linesMatch (view : Text → Text) (lines : List Text) (i : Nat) :
    Nat → List Text → Option Bool
  | _, [] => some true
  | pIdx, pat :: pattern =>
      match lines[i + pIdx]? with
      | none => none
      | some line =>
          if view line == view pat then linesMatch view lines i (pIdx + 1) pattern
          else some false

/-- The first index that matches. -/
def seekPass (matches' : Nat → Option Bool) : List Nat → Option (Option Nat)
  | [] => some none
  | i :: places =>
      match matches' i with
      | none => none
      | some true => some (some i)
      | some false => seekPass matches' places

/-- A pass that is only made if the one before finds nothing. -/
def orPass (pass next : Option (Option Nat)) : Option (Option Nat) :=
  match pass with
  | some none => next
  | found => found

def seekSequence (lines pattern : List Text) (start : Nat) (eof : Bool) :
    Option (Option Nat) :=
  if pattern.isEmpty then some (some start)
  else if lines.length < pattern.length then some none
  else
    let searchStart := if eof then lines.length - pattern.length else start
    let places := List.range' searchStart (lines.length - pattern.length + 1 - searchStart)
    orPass (seekPass (fun i => (slice lines i (i + pattern.length)).map (· == pattern)) places) <|
      orPass (seekPass (fun i => linesMatch Text.trimEnd lines i 0 pattern) places) <|
        orPass (seekPass (fun i => linesMatch Text.trim lines i 0 pattern) places) <|
          seekPass (fun i => linesMatch normalise lines i 0 pattern) places

/-! ### The replacements -/

def seekContext (originalLines : List Text) (path : AbsPath) (chunk : UpdateFileChunk)
    (lineIndex : Nat) : Option (Except Text Nat) :=
  match chunk.changeContext with
  | none => some (.ok lineIndex)
  | some ctxLine =>
      (seekSequence originalLines [ctxLine] lineIndex false).map fun found =>
        match found with
        | some idx => .ok (idx + 1)
        | none => .error ("Failed to find context '".toList ++ ctxLine ++ "' in ".toList
            ++ UnixPath.display path)

/-- The lines without the last one, `&l[..l.len() - 1]`. -/
def withoutLast (l : List Text) : Option (List Text) := (sub l.length 1).bind (slice l 0)

def locateChunk (originalLines : List Text) (chunk : UpdateFileChunk) (lineIndex : Nat) :
    Option (Option Replacement) :=
  (seekSequence originalLines chunk.oldLines lineIndex chunk.isEndOfFile).bind fun found =>
    match found with
    | some startIndex => some (some ⟨startIndex, chunk.oldLines.length, chunk.newLines⟩)
    | none =>
        if endsWithEmptyLine chunk.oldLines then
          (withoutLast chunk.oldLines).bind fun pattern =>
            (if endsWithEmptyLine chunk.newLines then withoutLast chunk.newLines
              else some chunk.newLines).bind fun newSlice =>
                (seekSequence originalLines pattern lineIndex chunk.isEndOfFile).map fun found =>
                  found.map fun startIndex => ⟨startIndex, pattern.length, newSlice⟩
        else some none

def chunkReplacement (originalLines : List Text) (path : AbsPath) (lineIndex : Nat)
    (chunk : UpdateFileChunk) : Option (Except Text (Replacement × Nat)) :=
  (seekContext originalLines path chunk lineIndex).bind fun sought =>
    match sought with
    | .error message => some (.error message)
    | .ok lineIndex =>
        if chunk.oldLines.isEmpty then
          (if endsWithEmptyLine originalLines then sub originalLines.length 1
            else some originalLines.length).map fun insertionIdx =>
              .ok (⟨insertionIdx, 0, chunk.newLines⟩, lineIndex)
        else
          (locateChunk originalLines chunk lineIndex).map fun located =>
            match located with
            | some replacement => .ok (replacement, replacement.startIndex + replacement.oldLen)
            | none => .error ("Failed to find expected lines in ".toList ++ UnixPath.display path
                ++ ":\n".toList ++ Text.joinWith ['\n'] chunk.oldLines)

def chunkReplacements (originalLines : List Text) (path : AbsPath) :
    Nat → List UpdateFileChunk → Option (Except Text (List Replacement))
  | _, [] => some (.ok [])
  | lineIndex, chunk :: chunks =>
      (chunkReplacement originalLines path lineIndex chunk).bind fun first =>
        match first with
        | .error message => some (.error message)
        | .ok (replacement, lineIndex) =>
            (chunkReplacements originalLines path lineIndex chunks).map fun rest =>
              match rest with
              | .error message => .error message
              | .ok replacements => .ok (replacement :: replacements)

def computeReplacements (originalLines : List Text) (path : AbsPath)
    (chunks : List UpdateFileChunk) : Option (Except Text (List Replacement)) :=
  (chunkReplacements originalLines path 0 chunks).map fun result =>
    result.map fun replacements =>
      replacements.insertionSort fun a b => a.startIndex ≤ b.startIndex

/-! ### Applying them -/

/-- The loop that removes `n` lines, as far as there are any. -/
def removeLines (start : Nat) : Nat → List Text → Option (List Text)
  | 0, lines => some lines
  | n + 1, lines =>
      (if start < lines.length then remove lines start else some lines).bind (removeLines start n)

/-- The loop that inserts the new lines, of which `offset` are behind us. -/
def insertLines (start : Nat) : Nat → List Text → List Text → Option (List Text)
  | _, [], lines => some lines
  | offset, newLine :: newLines, lines =>
      (insert lines (start + offset) newLine).bind (insertLines start (offset + 1) newLines)

def applyReplacement (lines : List Text) (replacement : Replacement) : Option (List Text) :=
  (removeLines replacement.startIndex replacement.oldLen lines).bind
    (insertLines replacement.startIndex 0 replacement.newLines)

def applyReplacements (lines : List Text) : List Replacement → Option (List Text)
  | [] => some lines
  | replacement :: replacements =>
      (applyReplacements lines replacements).bind fun lines => applyReplacement lines replacement

def newContentsFromChunks (path : AbsPath) (chunks : List UpdateFileChunk)
    (originalContents : Text) : Option (Except Text Text) :=
  let originalLines := fileLines originalContents
  (computeReplacements originalLines path chunks).bind fun result =>
    match result with
    | .error message => some (.error message)
    | .ok replacements =>
        (applyReplacements originalLines replacements).map fun newLines =>
          let newLines := if endsWithEmptyLine newLines then newLines else newLines ++ [[]]
          .ok (Text.joinWith ['\n'] newLines)

end Checked

/-! ### The search stays within the lines -/

variable {lines pattern : List Text} {start i cursor : Nat} {eof : Bool} {path : AbsPath}
  {chunk : UpdateFileChunk} {r : Replacement} {rs : List Replacement}

/-- The comparison line by line is that of the two slices. -/
theorem linesMatch_checked (view : Text → Text) (i pIdx : Nat)
    (hfits : i + pIdx + pattern.length ≤ lines.length) :
    Checked.linesMatch view lines i pIdx pattern =
      some (((lines.drop (i + pIdx)).take pattern.length).map view == pattern.map view) := by
  induction pattern generalizing pIdx with
  | nil => simp [Checked.linesMatch]
  | cons pat pattern ih =>
    rw [List.length_cons] at hfits
    have hindex : i + pIdx < lines.length := by omega
    have hsplit : lines.drop (i + pIdx) = lines[i + pIdx] :: lines.drop (i + (pIdx + 1)) :=
      List.drop_eq_getElem_cons hindex
    unfold Checked.linesMatch
    rw [List.getElem?_eq_getElem hindex, hsplit, ih (pIdx + 1) (by omega)]
    simp only [List.length_cons, List.take_succ_cons, List.map_cons, List.cons_beq_cons]
    cases view lines[i + pIdx] == view pat <;> rfl

theorem slice_checked (hfits : i + pattern.length ≤ lines.length) :
    (Checked.slice lines i (i + pattern.length)).map (· == pattern) =
      some (((lines.drop i).take pattern.length).map id == pattern.map id) := by
  unfold Checked.slice
  rw [if_pos ⟨Nat.le_add_right _ _, hfits⟩, Nat.add_sub_cancel_left, List.map_id, List.map_id]
  rfl

/-- A pass whose comparisons do not fail. -/
theorem seekPass_checked {matches' : Nat → Option Bool} {found : Nat → Bool} {places : List Nat}
    (h : ∀ i ∈ places, matches' i = some (found i)) :
    Checked.seekPass matches' places = some (places.find? found) := by
  induction places with
  | nil => rfl
  | cons i places ih =>
    have hrest := ih fun j hj => h j (List.mem_cons_of_mem i hj)
    unfold Checked.seekPass
    rw [h i List.mem_cons_self, List.find?_cons]
    cases found i with
    | true => rfl
    | false => exact hrest

theorem orPass_some (found : Option Nat) (next : Option Nat) :
    Checked.orPass (some found) (some next) = some (found.or next) := by
  cases found <;> rfl

/-- **The search** never leaves the lines. -/
theorem seekSequence_checked (lines pattern : List Text) (start : Nat) (eof : Bool) :
    Checked.seekSequence lines pattern start eof =
      some (seekSequence lines pattern start eof) := by
  unfold Checked.seekSequence seekSequence
  by_cases hnone : pattern.isEmpty
  · rw [if_pos hnone, if_pos hnone]
  rw [if_neg hnone, if_neg hnone]
  by_cases hlong : lines.length < pattern.length
  · rw [if_pos hlong, if_pos hlong]
  rw [if_neg hlong, if_neg hlong]
  have hfits : pattern.length ≤ lines.length := Nat.le_of_not_lt hlong
  simp only
  generalize (if eof = true then lines.length - pattern.length else start) = searchStart
  have hplaces : ∀ i ∈ List.range' searchStart (lines.length - pattern.length + 1 - searchStart),
      i + pattern.length ≤ lines.length := by
    intro i hi
    rw [List.mem_range'_1] at hi
    omega
  have hpass : ∀ view : Text → Text,
      Checked.seekPass (fun i => Checked.linesMatch view lines i 0 pattern)
        (List.range' searchStart (lines.length - pattern.length + 1 - searchStart)) =
          some (seekPass view lines pattern searchStart) := by
    intro view
    refine seekPass_checked fun i hi => ?_
    exact linesMatch_checked view i 0 (hplaces i hi)
  have hexact : Checked.seekPass
      (fun i => (Checked.slice lines i (i + pattern.length)).map (· == pattern))
        (List.range' searchStart (lines.length - pattern.length + 1 - searchStart)) =
          some (seekPass id lines pattern searchStart) :=
    seekPass_checked fun i hi => slice_checked (hplaces i hi)
  rw [hexact, hpass, hpass, hpass, orPass_some, orPass_some, orPass_some]

/-! ### The chunks stay within their lines -/

theorem withoutLast_checked {l : List Text} (h : endsWithEmptyLine l) :
    Checked.withoutLast l = some l.dropLast := by
  have hpos : 1 ≤ l.length := by
    cases l with
    | nil => cases h
    | cons line l => exact Nat.le_add_left 1 l.length
  unfold Checked.withoutLast Checked.sub
  rw [if_pos hpos, Option.bind_some, Checked.slice, if_pos ⟨Nat.zero_le _, Nat.sub_le _ _⟩,
    Nat.sub_zero, List.drop_zero, List.dropLast_eq_take]

theorem seekContext_checked (lines : List Text) (path : AbsPath) (chunk : UpdateFileChunk)
    (cursor : Nat) :
    Checked.seekContext lines path chunk cursor = some (seekContext lines path chunk cursor) := by
  unfold Checked.seekContext seekContext
  cases chunk.changeContext with
  | none => rfl
  | some ctxLine =>
    simp only [seekSequence_checked]
    cases seekSequence lines [ctxLine] cursor false <;> rfl

theorem locateChunk_checked (lines : List Text) (chunk : UpdateFileChunk) (cursor : Nat) :
    Checked.locateChunk lines chunk cursor = some (locateChunk lines chunk cursor) := by
  unfold Checked.locateChunk locateChunk
  rw [seekSequence_checked, Option.bind_some]
  cases seekSequence lines chunk.oldLines cursor chunk.isEndOfFile with
  | some startIndex => rfl
  | none =>
    simp only
    by_cases hretry : endsWithEmptyLine chunk.oldLines = true
    · have hnew : (if endsWithEmptyLine chunk.newLines = true then
            Checked.withoutLast chunk.newLines else some chunk.newLines) =
          some (if endsWithEmptyLine chunk.newLines = true then chunk.newLines.dropLast
            else chunk.newLines) := by
        by_cases hlast : endsWithEmptyLine chunk.newLines = true
        · rw [if_pos hlast, if_pos hlast, withoutLast_checked hlast]
        · rw [if_neg hlast, if_neg hlast]
      rw [if_pos hretry, if_pos hretry, withoutLast_checked hretry, Option.bind_some, hnew,
        Option.bind_some, seekSequence_checked, Option.map_some]
    · rw [if_neg hretry, if_neg hretry]

theorem chunkReplacement_checked (lines : List Text) (path : AbsPath) (cursor : Nat)
    (chunk : UpdateFileChunk) :
    Checked.chunkReplacement lines path cursor chunk =
      some (chunkReplacement lines path cursor chunk) := by
  unfold Checked.chunkReplacement chunkReplacement
  rw [seekContext_checked, Option.bind_some]
  cases seekContext lines path chunk cursor with
  | error message => rfl
  | ok from' =>
    simp only
    by_cases hadd : chunk.oldLines.isEmpty = true
    · rw [if_pos hadd, if_pos hadd]
      by_cases hempty : endsWithEmptyLine lines = true
      · have hpos : 1 ≤ lines.length := by
          cases lines with
          | nil => cases hempty
          | cons line lines => exact Nat.le_add_left 1 lines.length
        rw [if_pos hempty, if_pos hempty, Checked.sub, if_pos hpos]
        rfl
      · rw [if_neg hempty, if_neg hempty]
        rfl
    · rw [if_neg hadd, if_neg hadd, locateChunk_checked]
      cases locateChunk lines chunk from' <;> rfl

/-- **The chunks** one after the other. -/
theorem chunkReplacements_checked (lines : List Text) (path : AbsPath) (cursor : Nat)
    (chunks : List UpdateFileChunk) :
    Checked.chunkReplacements lines path cursor chunks =
      some (chunkReplacements lines path cursor chunks) := by
  induction chunks generalizing cursor with
  | nil => rfl
  | cons chunk chunks ih =>
    unfold Checked.chunkReplacements chunkReplacements
    rw [chunkReplacement_checked, Option.bind_some]
    cases chunkReplacement lines path cursor chunk with
    | error message => rfl
    | ok first =>
      obtain ⟨r, next⟩ := first
      simp only
      rw [ih]
      cases chunkReplacements lines path next chunks <;> rfl

theorem computeReplacements_checked (lines : List Text) (path : AbsPath)
    (chunks : List UpdateFileChunk) :
    Checked.computeReplacements lines path chunks =
      some (computeReplacements lines path chunks) := by
  unfold Checked.computeReplacements computeReplacements
  rw [chunkReplacements_checked, Option.map_some]

/-! ### The replacements stay within the lines that are left -/

theorem removeLines_checked (start n : Nat) (lines : List Text) :
    Checked.removeLines start n lines = some (lines.take start ++ lines.drop (start + n)) := by
  induction n generalizing lines with
  | zero => rw [Checked.removeLines, Nat.add_zero, List.take_append_drop]
  | succ n ih =>
    unfold Checked.removeLines
    by_cases hsome : start < lines.length
    · rw [if_pos hsome, Checked.remove, if_pos hsome, Option.bind_some, ih,
        List.eraseIdx_eq_take_drop_succ]
      have hlength : (lines.take start).length = start := by
        rw [List.length_take]
        omega
      congr 2
      · rw [List.take_append_of_le_length (Nat.le_of_eq hlength.symm), List.take_take,
          Nat.min_self]
      · rw [List.drop_append, List.drop_eq_nil_of_le (by omega), hlength, List.nil_append,
          Nat.add_sub_cancel_left, List.drop_drop]
        congr 1
        omega
    · have hle : lines.length ≤ start := Nat.le_of_not_lt hsome
      rw [if_neg hsome, Option.bind_some, ih, List.drop_eq_nil_of_le (by omega),
        List.drop_eq_nil_of_le (by omega)]

theorem insertIdx_eq_take_drop {n : Nat} (line : Text) (h : n ≤ lines.length) :
    lines.insertIdx n line = lines.take n ++ line :: lines.drop n := by
  induction n generalizing lines with
  | zero => rfl
  | succ n ih =>
    cases lines with
    | nil => exact absurd h (Nat.not_succ_le_zero n)
    | cons first lines =>
      rw [List.insertIdx_succ_cons, ih (Nat.le_of_succ_le_succ h)]
      rfl

theorem insertLines_checked (newLines : List Text) (start offset : Nat) (lines : List Text)
    (h : start + offset ≤ lines.length) :
    Checked.insertLines start offset newLines lines =
      some (lines.take (start + offset) ++ newLines ++ lines.drop (start + offset)) := by
  induction newLines generalizing offset lines with
  | nil => rw [Checked.insertLines, List.append_nil, List.take_append_drop]
  | cons newLine newLines ih =>
    have hlength : (lines.take (start + offset)).length = start + offset := by
      rw [List.length_take]
      omega
    unfold Checked.insertLines
    rw [Checked.insert, if_pos h, Option.bind_some, insertIdx_eq_take_drop newLine h,
      ih (offset + 1) _ (by rw [List.length_append, List.length_cons]; omega)]
    have hsplit : lines.take (start + offset) ++ newLine :: lines.drop (start + offset) =
        (lines.take (start + offset) ++ [newLine]) ++ lines.drop (start + offset) := by
      rw [List.append_assoc]
      rfl
    have hfront : (lines.take (start + offset) ++ [newLine]).length = start + (offset + 1) := by
      rw [List.length_append, hlength, List.length_singleton, Nat.add_assoc]
    rw [hsplit, ← hfront, List.take_left, List.drop_left, List.append_assoc, List.append_assoc,
      List.append_assoc]
    rfl

theorem applyReplacement_checked (h : r.startIndex ≤ lines.length) :
    Checked.applyReplacement lines r = some (applyReplacement lines r) := by
  have hlength : (lines.take r.startIndex).length = r.startIndex := by
    rw [List.length_take]
    omega
  unfold Checked.applyReplacement applyReplacement
  rw [removeLines_checked, Option.bind_some, insertLines_checked _ _ _ _
    (by rw [List.length_append]; omega), Nat.add_zero]
  congr 2
  · congr 1
    rw [List.take_append_of_le_length (Nat.le_of_eq hlength.symm), List.take_take, Nat.min_self]
  · rw [List.drop_append, List.drop_eq_nil_of_le (Nat.le_of_eq hlength), hlength, Nat.sub_self,
      List.drop_zero, List.nil_append]

theorem applyReplacements_cons (lines : List Text) (r : Replacement) (rs : List Replacement) :
    applyReplacements lines (r :: rs) = applyReplacement (applyReplacements lines rs) r := by
  unfold applyReplacements
  rw [List.reverse_cons, List.foldl_append]
  rfl

/-- A region that is replaced leaves what is before it. -/
theorem length_applyReplacement (h : r.startIndex ≤ lines.length) :
    r.startIndex ≤ (applyReplacement lines r).length := by
  unfold applyReplacement
  rw [List.length_append, List.length_append, List.length_take]
  omega

/-- **The replacements**, from the last to the first: what they leave still reaches every region
    that comes before. -/
theorem applyReplacements_checked (hsorted : rs.Pairwise StartsBefore)
    (hbounds : ∀ r ∈ rs, r.InBounds lines) :
    Checked.applyReplacements lines rs = some (applyReplacements lines rs) ∧
      ∀ n, (∀ r ∈ rs, n ≤ r.startIndex) → n ≤ lines.length →
        n ≤ (applyReplacements lines rs).length := by
  induction rs with
  | nil => exact ⟨rfl, fun n _ hn => hn⟩
  | cons r rs ih =>
    obtain ⟨hfirst, hrest⟩ := List.pairwise_cons.mp hsorted
    obtain ⟨hchecked, hlength⟩ := ih hrest fun r' hr' => hbounds r' (List.mem_cons_of_mem r hr')
    have hin : r.startIndex ≤ lines.length :=
      Nat.le_trans (Nat.le_add_right _ _) (hbounds r List.mem_cons_self)
    have hreach : r.startIndex ≤ (applyReplacements lines rs).length :=
      hlength _ (fun r' hr' => hfirst r' hr') hin
    rw [applyReplacements_cons]
    refine ⟨?_, ?_⟩
    · unfold Checked.applyReplacements
      rw [hchecked, Option.bind_some, applyReplacement_checked hreach]
    · intro n hn _
      exact Nat.le_trans (hn r List.mem_cons_self) (length_applyReplacement hreach)

/-- **Nothing panics.**  For all contents and chunks every access of the search and of the
    replacement is in range, and what is returned is what the unchecked code returns. -/
theorem newContentsFromChunks_returns (path : AbsPath) (chunks : List UpdateFileChunk)
    (originalContents : Text) :
    Checked.computeReplacements (fileLines originalContents) path chunks =
        some (computeReplacements (fileLines originalContents) path chunks) ∧
      Checked.newContentsFromChunks path chunks originalContents =
        some (newContentsFromChunks path chunks originalContents) := by
  refine ⟨computeReplacements_checked _ _ _, ?_⟩
  unfold Checked.newContentsFromChunks newContentsFromChunks
  simp only [computeReplacements_checked, Option.bind_some]
  cases hcompute : computeReplacements (fileLines originalContents) path chunks with
  | error message => rfl
  | ok replacements =>
    obtain ⟨hsorted, hbounds⟩ := computeReplacements_sorted hcompute
    obtain ⟨hchecked, -⟩ := applyReplacements_checked hsorted hbounds
    simp only [hchecked, Option.map_some]

end CodexMonitor.ApplyPatch
