import Mathlib.Data.Char
import Mathlib.Data.List.Lex
import CodexMonitor.Lib.Text
import CodexMonitor.Lib.Tasks
import CodexMonitor.Lib.Machine

namespace CodexMonitor.TurnDiff

/-!
# Turn diff — tracking the files that a turn changes

`turn_diff_tracker.rs`: before each patch the tracker records the files that the patch names,
with what they contain when they are first seen, and follows their moves.  The diff of the turn
compares what was recorded with the files as they are.

* `FileSystem`, `FileChange`, `Patch` — files, and the changes of a patch.
* `TurnDiffTracker.onPatchBegin` — what is recorded before a patch.
* `TurnDiffTracker.fileEntries`, `getUnifiedDiff` — the entries of the diff.
* `turnMachine` — a turn: one patch after the other.

The identifiers of blobs are a parameter: `git hash-object`, or the SHA-1 of the blob where git
has no answer.  Internal names, which the source draws at random, are counted.
-/

/-! ### Files -/

abbrev Path := Text
abbrev Bytes := List UInt8

inductive FileMode
  | regular
  | executable
  | symlink
  deriving DecidableEq, Repr

/-- A file; of a link the bytes are those of its target. -/
structure File where
  mode : FileMode
  bytes : Bytes
  deriving DecidableEq, Repr

/-- The files that exist and can be read. -/
abbrev FileSystem := Path → Option File

namespace FileSystem

/-- What a file contains, if it exists. -/
def content (fs : FileSystem) (path : Path) : Option Bytes := (fs path).map File.bytes

/-- A file that exists keeps its mode. -/
def write (fs : FileSystem) (path : Path) (bytes : Bytes) : FileSystem :=
  Function.update fs path (some ⟨((fs path).map File.mode).getD .regular, bytes⟩)

def remove (fs : FileSystem) (path : Path) : FileSystem := Function.update fs path none

end FileSystem

/-! ### Patches -/

/-- `FileChange`; an update comes with the content that its diff leads to. -/
inductive FileChange
  | add (content : Bytes)
  | delete (content : Bytes)
  | update (unifiedDiff : Text) (newContent : Bytes) (movePath : Option Path)
  deriving DecidableEq, Repr

def FileChange.moveDest : FileChange → Option Path
  | .update _ _ movePath => movePath
  | _ => none

/-- A path with its change, an entry of the map that a patch is. -/
abbrev Change := Path × FileChange

/-- The paths that a change names. -/
def Change.names (change : Change) : List Path := change.1 :: change.2.moveDest.toList

/-- The change of the file system: a move writes its destination and removes the path. -/
def FileSystem.applyChange (fs : FileSystem) : Change → FileSystem
  | (path, .add content) => fs.write path content
  | (path, .delete _) => fs.remove path
  | (path, .update _ newContent none) => fs.write path newContent
  | (path, .update _ newContent (some dest)) => (fs.write dest newContent).remove path

/-- A patch: its changes in the order in which the tracker iterates over the map, and in the
    order in which they are applied. -/
structure Patch where
  changes : List Change
  applied : List Change
  distinct : (changes.map Prod.fst).Nodup
  perm : applied.Perm changes

def FileSystem.applyPatch (fs : FileSystem) (patch : Patch) : FileSystem :=
  patch.applied.foldl FileSystem.applyChange fs

/-! ### The tracker -/

def zeroOid : Text := List.replicate 40 '0'

structure BaselineFileInfo where
  path : Path
  content : Bytes
  mode : FileMode
  oid : Text
  deriving DecidableEq, Repr

/-- The maps of the tracker, and the next internal name. -/
structure TurnDiffTracker where
  externalToTempName : Registry Path Nat := ∅
  baselineFileInfo : Registry Nat BaselineFileInfo := ∅
  tempNameToCurrentPath : Registry Nat Path := ∅
  next : Nat := 0

/-- A baseline without content. -/
def missingBaseline (path : Path) : BaselineFileInfo := ⟨path, [], .regular, zeroOid⟩

section Tracking

variable (blobOid : Path → File → Text)

/-- The file as it is on disk; a file that does not exist is represented by `/dev/null`. -/
def snapshot (fs : FileSystem) (path : Path) : BaselineFileInfo :=
  match fs path with
  | some file => ⟨path, file.bytes, file.mode, blobOid path file⟩
  | none => missingBaseline path

namespace TurnDiffTracker

/-- A path seen for the first time gets an internal name and a baseline. -/
def ensureTracked (t : TurnDiffTracker) (fs : FileSystem) (path : Path) : TurnDiffTracker :=
  match t.externalToTempName.lookup path with
  | some _ => t
  | none =>
      { externalToTempName := t.externalToTempName.insert path t.next
        baselineFileInfo := t.baselineFileInfo.insert t.next (snapshot blobOid fs path)
        tempNameToCurrentPath := t.tempNameToCurrentPath.insert t.next path
        next := t.next + 1 }

/-- The internal name moves on to the destination. -/
def recordMove (t : TurnDiffTracker) (path dest : Path) : TurnDiffTracker :=
  let (t, internal) := match t.externalToTempName.lookup path with
    | some internal => (t, internal)
    | none =>
        ({ t with
          baselineFileInfo := t.baselineFileInfo.insert t.next (missingBaseline path)
          next := t.next + 1 }, t.next)
  { t with
    tempNameToCurrentPath := t.tempNameToCurrentPath.insert internal dest
    externalToTempName := (t.externalToTempName.erase path).insert dest internal }

/-- The body of the loop of `on_patch_begin`. -/
def onChange (t : TurnDiffTracker) (fs : FileSystem) (change : Change) : TurnDiffTracker :=
  let t := t.ensureTracked blobOid fs change.1
  match change.2.moveDest with
  | some dest => t.recordMove change.1 dest
  | none => t

def onPatchBegin (t : TurnDiffTracker) (fs : FileSystem) (changes : List Change) :
    TurnDiffTracker :=
  changes.foldl (fun t change => t.onChange blobOid fs change) t

def getPathForInternal (t : TurnDiffTracker) (internal : Nat) : Option Path :=
  (t.tempNameToCurrentPath.lookup internal).or
    ((t.baselineFileInfo.lookup internal).map BaselineFileInfo.path)

/-! ### The diff -/

/-- The line on the mode of a file. -/
inductive ModeLine
  | newFile (mode : FileMode)
  | deletedFile (mode : FileMode)
  | changed (oldMode newMode : FileMode)
  | unchanged
  deriving DecidableEq, Repr

end TurnDiffTracker

/-- An entry of the diff: the two paths of its first line, the line on the mode, the two
    identifiers of its index line, and what is compared line by line. -/
structure FileEntry where
  baselinePath : Path
  currentPath : Path
  modeLine : TurnDiffTracker.ModeLine
  leftOid : Text
  rightOid : Text
  left : Option Bytes
  right : Option Bytes
  deriving DecidableEq, Repr

namespace TurnDiffTracker

/-- `get_file_diff`; without a difference there is no entry. -/
def getFileDiff (t : TurnDiffTracker) (fs : FileSystem) (internal : Nat) : Option FileEntry :=
  let info := (t.baselineFileInfo.lookup internal).getD (missingBaseline [])
  match t.getPathForInternal internal with
  | none => none
  | some current =>
      let currentMode := ((fs current).map File.mode).getD .regular
      let right := fs.content current
      let rightOid := ((fs current).map (blobOid current)).getD zeroOid
      let leftPresent := info.oid != zeroOid
      let left := if leftPresent then some info.content else none
      if left = right then none
      else
        let modeLine :=
          if !leftPresent && right.isSome then .newFile currentMode
          else if leftPresent && right.isNone then .deletedFile info.mode
          else if info.mode != currentMode then .changed info.mode currentMode
          else .unchanged
        some ⟨info.path, current, modeLine, info.oid, rightOid, left, right⟩

/-- The entries, sorted by the current path as it is displayed. -/
def fileEntries (display : Path → Text) (t : TurnDiffTracker) (fs : FileSystem) :
    List FileEntry :=
  let names := t.baselineFileInfo.keys.mergeSort fun a b =>
    decide (((t.getPathForInternal a).map display).getD [] ≤
      ((t.getPathForInternal b).map display).getD [])
  names.filterMap (t.getFileDiff blobOid fs)

def getUnifiedDiff (display : Path → Text) (t : TurnDiffTracker) (fs : FileSystem) :
    Option (List FileEntry) :=
  let entries := t.fileEntries blobOid display fs
  if entries.isEmpty then none else some entries

end TurnDiffTracker

/-! ### A turn -/

/-- A turn: the files at its start and now, the tracker, and the moves so far, in their order. -/
structure TurnState where
  start : FileSystem
  fs : FileSystem
  tracker : TurnDiffTracker := {}
  moves : List (Path × Path) := []

def Change.moves (change : Change) : List (Path × Path) :=
  change.2.moveDest.toList.map fun dest => (change.1, dest)

def TurnState.applyPatch (s : TurnState) (patch : Patch) : TurnState :=
  { s with
    fs := s.fs.applyPatch patch
    tracker := s.tracker.onPatchBegin blobOid s.fs patch.changes
    moves := s.moves ++ patch.changes.flatMap Change.moves }

def turnMachine (start : FileSystem) : Machine TurnState Patch where
  init := { start := start, fs := start }
  step := fun s patch => some (s.applyPatch blobOid patch)

end Tracking

end CodexMonitor.TurnDiff
