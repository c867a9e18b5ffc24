import CodexMonitor.Lib.Offsets
import CodexMonitor.Lib.StableSort

namespace CodexMonitor.Composer

open Text

/-!
# Composer — the text area

`bottom_pane/textarea.rs`: the text that a user edits, with elements in it that are edited as a
whole.  Positions are byte offsets; what would panic is `none`.

* `Segmenter` — graphemes, words, widths and wrapped lines.
* `shiftElements`, `expandRange` — the elements around an edit.
* `insertStrAt`, `replaceRangeRaw` — the two edits behind all others.
* `Op`, `TextArea.apply` — the operations.
-/

/-! ### Segmentation -/

/-- A line of a text, which ends one byte behind it. -/
def LineOf (t : Text) (line : Nat × Nat) : Prop :=
  ∃ stop, line.2 = stop + 1 ∧ Boundary t line.1 ∧ Boundary t stop ∧ line.1 ≤ stop

/-- The crates behind graphemes, word bounds, display widths and wrapping. -/
structure Segmenter where
  graphemes : Text → List Text
  graphemes_flatten : ∀ t, (graphemes t).flatten = t
  /-- The pieces of `split_word_bound_indices`. -/
  wordBounds : Text → List Text
  wordBounds_flatten : ∀ t, (wordBounds t).flatten = t
  width : Text → Nat
  /-- The lines of `wrap_ranges`. -/
  wrapRanges : Text → Nat → List (Nat × Nat)
  wrapRanges_lines : ∀ t width, ∀ line ∈ wrapRanges t width, LineOf t line
  /-- The order that `partition_point` needs. -/
  wrapRanges_sorted : ∀ t width, (wrapRanges t width).Pairwise (·.1 ≤ ·.1)

/-- The offsets at which pieces end, from an offset on. -/
def pieceEnds : Nat → List Text → List Nat
  | _, [] => []
  | start, piece :: pieces => (start + byteLen piece) :: pieceEnds (start + byteLen piece) pieces

def wordSeparators : Text := "`~!@#$%^&*()-=+[{]}\\|;:'\",.<>/?".toList

def isWordSeparator (c : Char) : Bool := wordSeparators.contains c

/-- One segment, cut where separators and other characters meet. -/
def splitSegment : Text → List Text
  | [] => []
  | c :: cs =>
      match splitSegment cs with
      | (d :: piece) :: pieces =>
          if isWordSeparator c = isWordSeparator d then (c :: d :: piece) :: pieces
          else [c] :: (d :: piece) :: pieces
      | pieces => [c] :: pieces

namespace Segmenter

variable (seg : Segmenter)

/-- `GraphemeCursor::prev_boundary` in a text. -/
def prevBoundary (t : Text) (pos : Nat) : Option Nat :=
  ((0 :: pieceEnds 0 (seg.graphemes t)).filter (· < pos)).getLast?

/-- `GraphemeCursor::next_boundary` in a text. -/
def nextBoundary (t : Text) (pos : Nat) : Option Nat :=
  (0 :: pieceEnds 0 (seg.graphemes t)).find? (pos < ·)

def splitWordPieces (run : Text) : List Text := (seg.wordBounds run).flatMap splitSegment

end Segmenter

/-! ### Elements -/

structure TextElement where
  id : Nat
  start : Nat
  stop : Nat
  name : Option Text := none
  deriving DecidableEq, Repr

/-- The position is strictly inside. -/
def TextElement.contains (e : TextElement) (pos : Nat) : Bool := e.start < pos && pos < e.stop

/-- The elements after an edit: those that it covers are removed, those behind it are moved. -/
def shiftElements (elements : List TextElement) (offset removed inserted : Nat) :
    List TextElement :=
  let stop := offset + removed
  (elements.filter fun e => !(offset ≤ e.start && e.stop ≤ stop)).map fun e =>
    if e.stop ≤ offset then e
    else if stop ≤ e.start then
      { e with start := e.start + inserted - removed, stop := e.stop + inserted - removed }
    else { e with start := min offset e.start, stop := offset + max inserted (e.stop - stop) }

/-- A range with an element that it meets. -/
def expandOver (range : Nat × Nat) (e : TextElement) : Nat × Nat :=
  if e.start < range.2 && range.1 < e.stop then (min range.1 e.start, max range.2 e.stop)
  else range

def expandPass (elements : List TextElement) (range : Nat × Nat) : Nat × Nat :=
  elements.foldl expandOver range

/-- The loop, which ends when a pass changes nothing. -/
def expandLoop (elements : List TextElement) : Nat → Nat × Nat → Nat × Nat
  | 0, range => range
  | fuel + 1, range =>
      if expandPass elements range = range then range
      else expandLoop elements fuel (expandPass elements range)

/-- `expand_range_to_element_boundaries`. -/
def expandRange (elements : List TextElement) (range : Nat × Nat) : Nat × Nat :=
  expandLoop elements (elements.length + 1) range

def sortElements (elements : List TextElement) : List TextElement :=
  elements.insertionSort fun e f => e.start ≤ f.start

/-! ### The text area -/

structure TextArea where
  text : Text := []
  cursorPos : Nat := 0
  /-- The width and the lines. -/
  wrapCache : Option (Nat × List (Nat × Nat)) := none
  preferredCol : Option Nat := none
  elements : List TextElement := []
  nextElementId : Nat := 1
  killBuffer : Text := []
  deriving DecidableEq, Repr

namespace TextArea

variable (seg : Segmenter) (s : TextArea)

def len : Nat := byteLen s.text

def findElementContaining (pos : Nat) : Option TextElement := s.elements.find? (·.contains pos)

def clampPosToCharBoundary (pos : Nat) : Nat := clampToCharBoundary s.text pos

def clampPosToNearestBoundary (pos : Nat) : Nat :=
  let pos := s.clampPosToCharBoundary pos
  match s.findElementContaining pos with
  | some e =>
      if pos - e.start ≤ e.stop - pos then s.clampPosToCharBoundary e.start
      else s.clampPosToCharBoundary e.stop
  | none => pos

/-- The same computation. -/
def clampPosForInsertion (pos : Nat) : Nat := s.clampPosToNearestBoundary pos

def adjustPosOutOfElements (pos : Nat) (preferStart : Bool) : Nat :=
  match s.findElementContaining pos with
  | some e => if preferStart then e.start else e.stop
  | none => pos

def setCursor (pos : Nat) : TextArea :=
  { s with cursorPos := s.clampPosToNearestBoundary (min pos s.len), preferredCol := none }

/-- `next_element_id.saturating_add(1)`. -/
def addElementWithId (start stop : Nat) (name : Option Text) : TextArea × Nat :=
  ({ s with
      elements := sortElements (s.elements ++ [⟨s.nextElementId, start, stop, name⟩])
      nextElementId := min (s.nextElementId + 1) (2 ^ 64 - 1) }, s.nextElementId)

/-! ### Edits -/

def insertStrAt (pos : Nat) (text : Text) : Option TextArea := do
  let pos := s.clampPosForInsertion pos
  let newText ← replaceRange s.text pos pos text
  return { s with
    text := newText
    wrapCache := none
    cursorPos := if pos ≤ s.cursorPos then s.cursorPos + byteLen text else s.cursorPos
    elements := shiftElements s.elements pos 0 (byteLen text)
    preferredCol := none }

def insertStr (text : Text) : Option TextArea := s.insertStrAt s.cursorPos text

/-- The cursor after an edit. -/
def cursorAfter (cursor start stop inserted : Nat) : Nat :=
  if cursor < start then cursor
  else if cursor ≤ stop then start + inserted
  else cursor + inserted - (stop - start)

def replaceRangeRaw (range : Nat × Nat) (text : Text) : Option TextArea :=
  if range.2 < range.1 then none
  else
    let start := min range.1 s.len
    let stop := min range.2 s.len
    if stop - start = 0 ∧ byteLen text = 0 then some s
    else do
      let newText ← Text.replaceRange s.text range.1 range.2 text
      let edited : TextArea := { s with
        text := newText
        wrapCache := none
        preferredCol := none
        elements := shiftElements s.elements start (stop - start) (byteLen text) }
      let cursor := min (cursorAfter s.cursorPos start stop (byteLen text)) edited.len
      return { edited with cursorPos := edited.clampPosToNearestBoundary cursor }

def replaceRange (range : Nat × Nat) (text : Text) : Option TextArea :=
  s.replaceRangeRaw (expandRange s.elements range) text

/-! ### Graphemes, lines and words -/

def prevAtomicBoundary (pos : Nat) : Nat :=
  if pos = 0 then 0
  else
    match s.elements.find? fun e => e.start < pos && pos ≤ e.stop with
    | some e => e.start
    | none =>
        match seg.prevBoundary s.text pos with
        | some b => s.adjustPosOutOfElements b true
        | none => 0

def nextAtomicBoundary (pos : Nat) : Nat :=
  if s.len ≤ pos then s.len
  else
    match s.elements.find? fun e => e.start ≤ pos && pos < e.stop with
    | some e => e.stop
    | none =>
        match seg.nextBoundary s.text pos with
        | some b => s.adjustPosOutOfElements b false
        | none => s.len

/-- The part that ends with the last line feed. -/
def throughLastNewline (t : Text) : Text := t.rdropWhile (· ≠ '\n')

def beginningOfLine (pos : Nat) : Option Nat :=
  (byteTake pos s.text).map fun front => byteLen (throughLastNewline front)

def endOfLine (pos : Nat) : Option Nat :=
  (byteDrop pos s.text).map fun back => pos + byteLen (back.takeWhile (· ≠ '\n'))

/-- The number of bytes that the pieces at the end of a run have: the last one, with all separators
    before it if it is made of separators. -/
def lastWordLen (pieces : List Text) : Nat :=
  match pieces.reverse with
  | [] => 0
  | piece :: before =>
      if piece.all isWordSeparator then
        byteLen (piece :: before.takeWhile fun piece => piece.all isWordSeparator).flatten
      else byteLen piece

/-- The number of bytes that the pieces at the start of a run have. -/
def firstWordLen (pieces : List Text) : Nat :=
  match pieces with
  | [] => 0
  | piece :: behind =>
      if piece.all isWordSeparator then
        byteLen (piece :: behind.takeWhile fun piece => piece.all isWordSeparator).flatten
      else byteLen piece

def beginningOfPreviousWord : Option Nat :=
  (byteTake s.cursorPos s.text).map fun front =>
    let words := front.rdropWhile isWhitespace
    if words.isEmpty then 0
    else
      let run := words.rtakeWhile fun c => !isWhitespace c
      let start := byteLen words - lastWordLen (seg.splitWordPieces run)
      s.adjustPosOutOfElements start true

def endOfNextWord : Option Nat :=
  (byteDrop s.cursorPos s.text).map fun suffix =>
    let words := suffix.dropWhile isWhitespace
    if words.isEmpty then s.len
    else
      let run := words.takeWhile fun c => !isWhitespace c
      let stop := s.cursorPos + (byteLen suffix - byteLen words) +
        firstWordLen (seg.splitWordPieces run)
      s.adjustPosOutOfElements stop false

/-! ### Deleting -/

/-- The steps of a loop, up to one that reaches `last`. -/
def iterateTo (next : Nat → Nat) (last : Nat → Bool) : Nat → Nat → Nat
  | 0, target => target
  | n + 1, target =>
      if last (next target) then next target else iterateTo next last n (next target)

def deleteBackward (n : Nat) : Option TextArea :=
  if n = 0 ∨ s.cursorPos = 0 then some s
  else
    let target := iterateTo (s.prevAtomicBoundary seg) (· == 0) n s.cursorPos
    s.replaceRange (target, s.cursorPos) []

def deleteForward (n : Nat) : Option TextArea :=
  if n = 0 ∨ s.len ≤ s.cursorPos then some s
  else
    let target := iterateTo (s.nextAtomicBoundary seg) (s.len ≤ ·) n s.cursorPos
    s.replaceRange (s.cursorPos, target) []

def killRange (range : Nat × Nat) : Option TextArea :=
  let range := expandRange s.elements range
  if range.2 ≤ range.1 then some s
  else do
    let removed ← slice s.text range.1 range.2
    if removed.isEmpty then return s
    else replaceRangeRaw { s with killBuffer := removed } range []

def deleteBackwardWord : Option TextArea := do
  let start ← s.beginningOfPreviousWord seg
  s.killRange (start, s.cursorPos)

def deleteForwardWord : Option TextArea := do
  let stop ← s.endOfNextWord seg
  if s.cursorPos < stop then s.killRange (s.cursorPos, stop) else return s

def killToEndOfLine : Option TextArea := do
  let eol ← s.endOfLine s.cursorPos
  if s.cursorPos = eol then
    if eol < s.len then s.killRange (s.cursorPos, eol + 1) else return s
  else s.killRange (s.cursorPos, eol)

def killToBeginningOfLine : Option TextArea := do
  let bol ← s.beginningOfLine s.cursorPos
  if s.cursorPos = bol then
    if 0 < bol then s.killRange (bol - 1, bol) else return s
  else s.killRange (bol, s.cursorPos)

def yank : Option TextArea := if s.killBuffer.isEmpty then some s else s.insertStr s.killBuffer

/-! ### Moving the cursor -/

def moveCursorLeft : TextArea :=
  { s with cursorPos := s.prevAtomicBoundary seg s.cursorPos, preferredCol := none }

def moveCursorRight : TextArea :=
  { s with cursorPos := s.nextAtomicBoundary seg s.cursorPos, preferredCol := none }

/-- `wrapped_lines`, which fills the cache. -/
def layout (width : Nat) : TextArea :=
  match s.wrapCache with
  | some (cached, _) =>
      if cached = width then s else { s with wrapCache := some (width, seg.wrapRanges s.text width) }
  | none => { s with wrapCache := some (width, seg.wrapRanges s.text width) }

/-- `wrapped_line_index_by_start`: the lines up to the position, in two parts around the last. -/
def wrappedLineIndexByStart (lines : List (Nat × Nat)) (pos : Nat) : Option Nat :=
  let idx := (lines.takeWhile fun line => line.1 ≤ pos).length
  if idx = 0 then none else some (idx - 1)

/-- The grapheme that the column is in: the bytes before it. -/
def displayOffset (targetCol : Nat) : Nat → Nat → List Text → Option Nat
  | _, _, [] => none
  | offset, widthSoFar, g :: gs =>
      if targetCol < widthSoFar + seg.width g then some offset
      else displayOffset targetCol (offset + byteLen g) (widthSoFar + seg.width g) gs

def moveToDisplayColOnLine (lineStart lineEnd targetCol : Nat) : Option TextArea := do
  let line ← slice s.text lineStart lineEnd
  let pos := match displayOffset seg targetCol 0 0 (seg.graphemes line) with
    | some offset => lineStart + offset
    | none => lineEnd
  return { s with cursorPos := s.clampPosToNearestBoundary pos }

/-- The column that vertical moves aim at. -/
def targetCol (lineStart : Nat) : Option Nat :=
  match s.preferredCol with
  | some col => some col
  | none => (slice s.text lineStart s.cursorPos).map seg.width

/-- The wrapped line with the cursor, its number, and all lines. -/
def wrappedLine : Option (Nat × (Nat × Nat) × List (Nat × Nat)) := do
  let (_, lines) ← s.wrapCache
  let idx ← wrappedLineIndexByStart lines s.cursorPos
  let line ← lines[idx]?
  return (idx, line, lines)

def moveCursorUp : Option TextArea :=
  match s.wrappedLine with
  | some (idx, line, lines) => do
      let col ← s.targetCol seg line.1
      match lines[idx - 1]? with
      | some prev =>
          if 0 < idx then
            moveToDisplayColOnLine seg { s with preferredCol := some col } prev.1 (prev.2 - 1) col
          else return { s with cursorPos := 0, preferredCol := none }
      | none => return { s with cursorPos := 0, preferredCol := none }
  | none => do
      let front ← byteTake s.cursorPos s.text
      match (throughLastNewline front).reverse with
      | [] => return { s with cursorPos := 0, preferredCol := none }
      | _ :: before => do
          let col ← s.targetCol seg (byteLen (throughLastNewline front))
          let prevLine := before.reverse
          moveToDisplayColOnLine seg { s with preferredCol := some col }
            (byteLen (throughLastNewline prevLine)) (byteLen prevLine) col

def moveCursorDown : Option TextArea :=
  match s.wrappedLine with
  | some (idx, line, lines) => do
      let col ← s.targetCol seg line.1
      match lines[idx + 1]? with
      | some next =>
          moveToDisplayColOnLine seg { s with preferredCol := some col } next.1 (next.2 - 1) col
      | none => return { s with cursorPos := s.len, preferredCol := none }
  | none => do
      let front ← byteTake s.cursorPos s.text
      let col ← s.targetCol seg (byteLen (throughLastNewline front))
      let back ← byteDrop s.cursorPos s.text
      match back.dropWhile (· ≠ '\n') with
      | [] => return { s with cursorPos := s.len, preferredCol := none }
      | _ :: behind =>
          let nextLineStart := s.cursorPos + byteLen (back.takeWhile (· ≠ '\n')) + 1
          moveToDisplayColOnLine seg { s with preferredCol := some col } nextLineStart
            (nextLineStart + byteLen (behind.takeWhile (· ≠ '\n'))) col

def moveCursorToBeginningOfLine (moveUpAtBol : Bool) : Option TextArea := do
  let bol ← s.beginningOfLine s.cursorPos
  if moveUpAtBol && s.cursorPos == bol then
    let above ← s.beginningOfLine (s.cursorPos - 1)
    return s.setCursor above
  else return s.setCursor bol

def moveCursorToEndOfLine (moveDownAtEol : Bool) : Option TextArea := do
  let eol ← s.endOfLine s.cursorPos
  if moveDownAtEol && s.cursorPos == eol then
    let below ← s.endOfLine (min (s.cursorPos + 1) s.len)
    return s.setCursor below
  else return s.setCursor eol

/-! ### Whole texts and elements -/

/-- The element of a range that is given from outside, if it is not empty. -/
def rebuildElements (s : TextArea) : List (Nat × Nat) → TextArea
  | [] => s
  | range :: ranges =>
      let start := s.clampPosToCharBoundary (min range.1 s.len)
      let stop := s.clampPosToCharBoundary (min range.2 s.len)
      if stop ≤ start then rebuildElements s ranges
      else
        rebuildElements { s with
          elements := s.elements ++ [⟨s.nextElementId, start, stop, none⟩]
          nextElementId := min (s.nextElementId + 1) (2 ^ 64 - 1) } ranges

def setTextInner (text : Text) (elements : Option (List (Nat × Nat))) : TextArea :=
  let s := { s with text, cursorPos := min s.cursorPos (byteLen text), elements := [] }
  let s := match elements with
    | none => s
    | some ranges =>
        let rebuilt := rebuildElements s ranges
        { rebuilt with elements := sortElements rebuilt.elements }
  { s with
    cursorPos := s.clampPosToNearestBoundary s.cursorPos
    wrapCache := none
    preferredCol := none }

/-- `text_elements`: the ranges of the elements, and their texts. -/
def textElements : List ((Nat × Nat) × Option Text) :=
  s.elements.map fun e => ((e.start, e.stop), slice s.text e.start e.stop)

/-- The elements around one whose payload is replaced. -/
def shiftAround (start stop inserted : Nat) (e : TextElement) : TextElement :=
  if inserted = stop - start then e
  else if e.stop ≤ start then e
  else if stop ≤ e.start then
    { e with
      start := e.start + inserted - (stop - start)
      stop := e.stop + inserted - (stop - start) }
  else
    { e with
      start := min start e.start
      stop := max (start + inserted) (e.stop + inserted - (stop - start)) }

def replaceElementPayload (old new : Text) : Option (TextArea × Bool) :=
  match s.elements.findIdx? fun e => slice s.text e.start e.stop == some old with
  | none => some (s, false)
  | some idx =>
      match s.elements[idx]? with
      | none => none
      | some e =>
          if e.stop < e.start ∨ s.len < e.stop then some (s, false)
          else do
            let newText ← Text.replaceRange s.text e.start e.stop new
            let front := (s.elements.take idx).map (shiftAround e.start e.stop (byteLen new))
            let back := (s.elements.drop (idx + 1)).map (shiftAround e.start e.stop (byteLen new))
            let edited : TextArea := { s with
              text := newText
              wrapCache := none
              preferredCol := none
              elements := front ++ { e with stop := e.start + byteLen new } :: back }
            let cursor := cursorAfter s.cursorPos e.start e.stop (byteLen new)
            return ({ edited with
              cursorPos := edited.clampPosToNearestBoundary cursor
              elements := sortElements edited.elements }, true)

/-- `insert_element`, and `insert_named_element` with a name. -/
def insertElementWithId (text : Text) (name : Option Text) : Option (TextArea × Nat) := do
  let start := s.clampPosForInsertion s.cursorPos
  let inserted ← s.insertStrAt start text
  let stop := start + byteLen text
  let (marked, id) := inserted.addElementWithId start stop name
  return (marked.setCursor stop, id)

def insertElement (text : Text) : Option (TextArea × Nat) := s.insertElementWithId text none

def insertNamedElement (text id : Text) : Option TextArea :=
  (s.insertElementWithId text (some id)).map (·.1)

def replaceElementById (id text : Text) : Option (TextArea × Bool) :=
  match s.elements.find? fun e => e.name == some id with
  | none => some (s, false)
  | some e => do
      let replaced ← s.replaceRangeRaw (e.start, e.stop) text
      return ({ replaced with
        elements := replaced.elements.filter fun e => e.name != some id }, true)

def updateNamedElementById (id text : Text) : Option (TextArea × Bool) :=
  match s.elements.find? fun e => e.name == some id with
  | none => some (s, false)
  | some e => do
      let replaced ← s.replaceRangeRaw (e.start, e.stop) text
      return ((replaced.addElementWithId e.start (e.start + byteLen text) (some id)).1, true)

def addElementRange (range : Nat × Nat) : TextArea × Option Nat :=
  let start := s.clampPosToCharBoundary (min range.1 s.len)
  let stop := s.clampPosToCharBoundary (min range.2 s.len)
  if stop ≤ start then (s, none)
  else if s.elements.any fun e => e.start == start && e.stop == stop then (s, none)
  else if s.elements.any fun e => start < e.stop && e.start < stop then (s, none)
  else
    let (marked, id) := s.addElementWithId start stop none
    (marked, some id)

def removeElementRange (range : Nat × Nat) : TextArea × Bool :=
  let start := s.clampPosToCharBoundary (min range.1 s.len)
  let stop := s.clampPosToCharBoundary (min range.2 s.len)
  if stop ≤ start then (s, false)
  else
    let kept := s.elements.filter fun e => e.start != start || e.stop != stop
    ({ s with elements := kept }, s.elements.length != kept.length)

end TextArea

/-! ### Operations -/

/-- The operations, with those that keys are bound to. -/
inductive Op
  | setTextClearingElements (text : Text)
  | setTextWithElements (text : Text) (elements : List (Nat × Nat))
  | insertStr (text : Text)
  | insertStrAt (pos : Nat) (text : Text)
  | replaceRange (range : Nat × Nat) (text : Text)
  | setCursor (pos : Nat)
  | layout (width : Nat)
  | deleteBackward (n : Nat)
  | deleteForward (n : Nat)
  | deleteBackwardWord
  | deleteForwardWord
  | killToEndOfLine
  | killToBeginningOfLine
  | yank
  | moveCursorLeft
  | moveCursorRight
  | moveCursorUp
  | moveCursorDown
  | moveCursorToPreviousWord
  | moveCursorToNextWord
  | moveCursorToBeginningOfLine (moveUpAtBol : Bool)
  | moveCursorToEndOfLine (moveDownAtEol : Bool)
  | replaceElementPayload (old new : Text)
  | insertElement (text : Text)
  | insertNamedElement (text id : Text)
  | replaceElementById (id text : Text)
  | updateNamedElementById (id text : Text)
  | addElementRange (range : Nat × Nat)
  | removeElementRange (range : Nat × Nat)
  deriving DecidableEq

/-- The state after an operation; `none` for a panic. -/
def TextArea.apply (seg : Segmenter) (s : TextArea) : Op → Option TextArea
  | .setTextClearingElements text => some (s.setTextInner text none)
  | .setTextWithElements text elements => some (s.setTextInner text (some elements))
  | .insertStr text => s.insertStr text
  | .insertStrAt pos text => s.insertStrAt pos text
  | .replaceRange range text => s.replaceRange range text
  | .setCursor pos => some (s.setCursor pos)
  | .layout width => some (s.layout seg width)
  | .deleteBackward n => s.deleteBackward seg n
  | .deleteForward n => s.deleteForward seg n
  | .deleteBackwardWord => s.deleteBackwardWord seg
  | .deleteForwardWord => s.deleteForwardWord seg
  | .killToEndOfLine => s.killToEndOfLine
  | .killToBeginningOfLine => s.killToBeginningOfLine
  | .yank => s.yank
  | .moveCursorLeft => some (s.moveCursorLeft seg)
  | .moveCursorRight => some (s.moveCursorRight seg)
  | .moveCursorUp => s.moveCursorUp seg
  | .moveCursorDown => s.moveCursorDown seg
  | .moveCursorToPreviousWord => (s.beginningOfPreviousWord seg).map s.setCursor
  | .moveCursorToNextWord => (s.endOfNextWord seg).map s.setCursor
  | .moveCursorToBeginningOfLine moveUpAtBol => s.moveCursorToBeginningOfLine moveUpAtBol
  | .moveCursorToEndOfLine moveDownAtEol => s.moveCursorToEndOfLine moveDownAtEol
  | .replaceElementPayload old new => (s.replaceElementPayload old new).map (·.1)
  | .insertElement text => (s.insertElement text).map (·.1)
  | .insertNamedElement text id => s.insertNamedElement text id
  | .replaceElementById id text => (s.replaceElementById id text).map (·.1)
  | .updateNamedElementById id text => (s.updateNamedElementById id text).map (·.1)
  | .addElementRange range => some (s.addElementRange range).1
  | .removeElementRange range => some (s.removeElementRange range).1

end CodexMonitor.Composer
