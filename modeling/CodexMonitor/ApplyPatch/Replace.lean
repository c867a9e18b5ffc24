import CodexMonitor.ApplyPatch.Parser
import Mathlib.Data.List.Sort

namespace CodexMonitor.ApplyPatch

/-!
# Apply patch — new contents from chunks

`seek_sequence.rs` and the replacement half of `lib.rs`: each chunk is located in the
original lines, from where the last one ended, and the located regions are replaced all at
once.

* `seekSequence` — the first place a pattern occurs, in four passes of decreasing strictness.
* `computeReplacements` — the regions to replace, sorted by start.
* `newContentsFromChunks` — the text of the file with the regions replaced.
-/

/-! ### Finding lines -/

/-- Typographic dashes, quotes and spaces, as ASCII. -/
def normaliseChar (c : Char) : Char :=
  let n := c.toNat
  if (0x2010 ≤ n ∧ n ≤ 0x2015) ∨ n = 0x2212 then '-'
  else if 0x2018 ≤ n ∧ n ≤ 0x201B then '\''
  else if 0x201C ≤ n ∧ n ≤ 0x201F then '"'
  else if n = 0xA0 ∨ (0x2002 ≤ n ∧ n ≤ 0x200A) ∨ n = 0x202F ∨ n = 0x205F ∨ n = 0x3000 then ' '
  else c

def normalise (s : Text) : Text := s.trim.map normaliseChar

/-- One pass of the search: the first index from `searchStart` on where the lines and the
    pattern look the same through `view`. -/
def seekPass (view : Text → Text) (lines pattern : List Text) (searchStart : Nat) : Option Nat :=
  (List.range' searchStart (lines.length - pattern.length + 1 - searchStart)).find? fun i =>
    ((lines.drop i).take pattern.length).map view == pattern.map view

/-- `seek_sequence`: exact, then without trailing blanks, then trimmed, then normalised. -/
def seekSequence (lines pattern : List Text) (start : Nat) (eof : Bool) : Option Nat :=
  if pattern.isEmpty then some start
  else if lines.length < pattern.length then none
  else
    let searchStart := if eof then lines.length - pattern.length else start
    (seekPass id lines pattern searchStart).or <|
      (seekPass Text.trimEnd lines pattern searchStart).or <|
        (seekPass Text.trim lines pattern searchStart).or <|
          seekPass normalise lines pattern searchStart

/-! ### Replacements -/

/-- Lines to put in place of `oldLen` lines from `startIndex` on. -/
structure Replacement where
  startIndex : Nat
  oldLen : Nat
  newLines : List Text
  deriving DecidableEq, Repr

/-- Whether the last line is there and empty. -/
def endsWithEmptyLine (lines : List Text) : Bool := lines.getLast? == some []

/-- Where the context line of a chunk leaves the search, starting at `lineIndex`. -/
def seekContext (originalLines : List Text) (path : AbsPath) (chunk : UpdateFileChunk)
    (lineIndex : Nat) : Except Text Nat :=
  match chunk.changeContext with
  | none => .ok lineIndex
  | some ctxLine =>
      match seekSequence originalLines [ctxLine] lineIndex false with
      | some idx => .ok (idx + 1)
      | none => .error ("Failed to find context '".toList ++ ctxLine ++ "' in ".toList
          ++ UnixPath.display path)

/-- The region of a chunk's old lines from `lineIndex` on.  If it is not found and the old
    lines end with an empty one, that line stands for the final newline and is left out. -/
def locateChunk (originalLines : List Text) (chunk : UpdateFileChunk) (lineIndex : Nat) :
    Option Replacement :=
  match seekSequence originalLines chunk.oldLines lineIndex chunk.isEndOfFile with
  | some startIndex => some ⟨startIndex, chunk.oldLines.length, chunk.newLines⟩
  | none =>
      if endsWithEmptyLine chunk.oldLines then
        let pattern := chunk.oldLines.dropLast
        let newSlice :=
          if endsWithEmptyLine chunk.newLines then chunk.newLines.dropLast else chunk.newLines
        (seekSequence originalLines pattern lineIndex chunk.isEndOfFile).map fun startIndex =>
          ⟨startIndex, pattern.length, newSlice⟩
      else none

/-- The replacement of one chunk and the line index to go on from. -/
def chunkReplacement (originalLines : List Text) (path : AbsPath) (lineIndex : Nat)
    (chunk : UpdateFileChunk) : Except Text (Replacement × Nat) :=
  match seekContext originalLines path chunk lineIndex with
  | .error message => .error message
  | .ok lineIndex =>
      if chunk.oldLines.isEmpty then
        -- pure addition: at the end, before a final empty line
        let insertionIdx :=
          if endsWithEmptyLine originalLines then originalLines.length - 1
          else originalLines.length
        .ok (⟨insertionIdx, 0, chunk.newLines⟩, lineIndex)
      else
        match locateChunk originalLines chunk lineIndex with
        | some replacement => .ok (replacement, replacement.startIndex + replacement.oldLen)
        | none => .error ("Failed to find expected lines in ".toList ++ UnixPath.display path
            ++ ":\n".toList ++ Text.joinWith ['\n'] chunk.oldLines)

/-- The replacements of the chunks, each searched from where the one before ended. -/
def chunkReplacements (originalLines : List Text) (path : AbsPath) :
    Nat → List UpdateFileChunk → Except Text (List Replacement)
  | _, [] => .ok []
  | lineIndex, chunk :: chunks =>
      match chunkReplacement originalLines path lineIndex chunk with
      | .error message => .error message
      | .ok (replacement, lineIndex) =>
          match chunkReplacements originalLines path lineIndex chunks with
          | .error message => .error message
          | .ok replacements => .ok (replacement :: replacements)

/-- `compute_replacements`: sorted by start index, chunks with equal starts in patch order. -/
def computeReplacements (originalLines : List Text) (path : AbsPath)
    (chunks : List UpdateFileChunk) : Except Text (List Replacement) :=
  (chunkReplacements originalLines path 0 chunks).map fun replacements =>
    replacements.insertionSort fun a b => a.startIndex ≤ b.startIndex

/-- One replacement: the old lines from `startIndex` on go, as far as there are any, and the
    new ones come in. -/
def applyReplacement (lines : List Text) (replacement : Replacement) : List Text :=
  lines.take replacement.startIndex ++ replacement.newLines ++
    lines.drop (replacement.startIndex + replacement.oldLen)

/-- `apply_replacements`: last region first, so that earlier ones keep their positions. -/
def applyReplacements (lines : List Text) (replacements : List Replacement) : List Text :=
  replacements.reverse.foldl applyReplacement lines

/-- The lines of a file, without the empty piece after a final newline. -/
def fileLines (contents : Text) : List Text :=
  let lines := contents.splitOn '\n'
  if endsWithEmptyLine lines then lines.dropLast else lines

/-- The contents of the file at `path` after the chunks, from its contents before. -/
def newContentsFromChunks (path : AbsPath) (chunks : List UpdateFileChunk)
    (originalContents : Text) : Except Text Text :=
  let originalLines := fileLines originalContents
  match computeReplacements originalLines path chunks with
  | .error message => .error message
  | .ok replacements =>
      let newLines := applyReplacements originalLines replacements
      let newLines := if endsWithEmptyLine newLines then newLines else newLines ++ [[]]
      .ok (Text.joinWith ['\n'] newLines)

end CodexMonitor.ApplyPatch
