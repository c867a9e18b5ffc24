import CodexMonitor.ApplyPatch.Replace

namespace CodexMonitor.ApplyPatch

/-!
# Apply patch — applying hunks to files

`apply_hunks_to_files` of `lib.rs`: the hunks are applied one after another, each to the
files as the ones before it left them.

The file system is a plain map from absolute paths to contents (`Files`): a write always
goes through, so the retry with missing parent directories is never needed; reading,
looking up and removing fail on an absent path; there are no directories.
-/

/-! ### Files -/

/-- The contents of each file that is there. -/
abbrev Files := AbsPath → Option Text

inductive IoErrorKind where
  | notFound
  | invalidInput
  deriving DecidableEq, Repr

inductive ApplyPatchError where
  | parseError (source : ParseError)
  | ioError (context : Text) (source : IoErrorKind)
  | computeReplacements (message : Text)
  | implicitInvocation
  deriving DecidableEq, Repr

namespace Files

def readFileText (files : Files) (path : AbsPath) : Except IoErrorKind Text :=
  match files path with
  | some contents => .ok contents
  | none => .error .notFound

/-- The contents of `path` set to `contents`. -/
def writeFile (files : Files) (path : AbsPath) (contents : Text) : Files :=
  Function.update files path (some contents)

/-- `get_metadata(..).is_directory`. -/
def isDirectory (files : Files) (path : AbsPath) : Except IoErrorKind Bool :=
  (files.readFileText path).map fun _ => false

def remove (files : Files) (path : AbsPath) : Except IoErrorKind Files :=
  (files.readFileText path).map fun _ => Function.update files path none

/-- Removing a path that must be a file. -/
def removeFile (files : Files) (path : AbsPath) : Except IoErrorKind Files :=
  match files.isDirectory path with
  | .error err => .error err
  | .ok true => .error .invalidInput
  | .ok false => files.remove path

theorem removeFile_ok {files files' : Files} {path : AbsPath}
    (h : files.removeFile path = .ok files') : files' = Function.update files path none := by
  unfold removeFile isDirectory remove readFileText at h
  cases hpath : files path with
  | none =>
    rw [hpath] at h
    cases h
  | some contents =>
    rw [hpath] at h
    exact (Except.ok.inj h).symm

end Files

/-! ### Deriving new contents -/

structure AppliedPatch where
  originalContents : Text
  newContents : Text
  deriving DecidableEq, Repr

/-- `derive_new_contents_from_chunks`. -/
def deriveNewContentsFromChunks (path : AbsPath) (chunks : List UpdateFileChunk) (files : Files) :
    Except ApplyPatchError AppliedPatch :=
  match files.readFileText path with
  | .error err =>
      .error (.ioError ("Failed to read file to update ".toList ++ UnixPath.display path) err)
  | .ok originalContents =>
      match newContentsFromChunks path chunks originalContents with
      | .error message => .error (.computeReplacements message)
      | .ok newContents => .ok ⟨originalContents, newContents⟩

/-- What an update makes of a file depends on that file only. -/
theorem deriveNewContents_congr {path : AbsPath} {chunks : List UpdateFileChunk}
    {files files' : Files} (h : files path = files' path) :
    deriveNewContentsFromChunks path chunks files =
      deriveNewContentsFromChunks path chunks files' := by
  unfold deriveNewContentsFromChunks Files.readFileText
  rw [h]

/-! ### Applying hunks -/

inductive ApplyHunksError where
  | noFilesModified
  | io (context : Text) (source : IoErrorKind)
  | patch (source : ApplyPatchError)
  deriving DecidableEq, Repr

/-- The paths affected, as the patch spells them. -/
structure AffectedPaths where
  added : List Text := []
  modified : List Text := []
  deleted : List Text := []
  deriving DecidableEq, Repr

def AffectedPaths.push (affected : AffectedPaths) (hunk : Hunk) : AffectedPaths :=
  match hunk with
  | .addFile _ _ => { affected with added := affected.added ++ [hunk.path] }
  | .deleteFile _ => { affected with deleted := affected.deleted ++ [hunk.path] }
  | .updateFile _ _ _ => { affected with modified := affected.modified ++ [hunk.path] }

section Apply

variable (home : Option AbsPath) (cwd : AbsPath)

/-- One hunk: the files after it, and whether it went through. -/
def applyHunk (files : Files) (hunk : Hunk) : Files × Except ApplyHunksError Unit :=
  let path := hunk.resolvePath home cwd
  match hunk with
  | .addFile _ contents => (files.writeFile path contents, .ok ())
  | .deleteFile _ =>
      match files.removeFile path with
      | .error err => (files, .error (.io ("Failed to delete file ".toList
          ++ UnixPath.display path) err))
      | .ok files => (files, .ok ())
  | .updateFile _ movePath chunks =>
      match deriveNewContentsFromChunks path chunks files with
      | .error err => (files, .error (.patch err))
      | .ok applied =>
          match movePath with
          | some dest =>
              -- the destination is written before the source is removed
              let files := files.writeFile (UnixPath.resolve home dest cwd) applied.newContents
              match files.removeFile path with
              | .error err => (files, .error (.io ("Failed to remove original ".toList
                  ++ UnixPath.display path) err))
              | .ok files => (files, .ok ())
          | none => (files.writeFile path applied.newContents, .ok ())

def applyHunksFrom : Files → AffectedPaths → List Hunk →
    Files × Except ApplyHunksError AffectedPaths
  | files, affected, [] => (files, .ok affected)
  | files, affected, hunk :: hunks =>
      match applyHunk home cwd files hunk with
      | (files, .error err) => (files, .error err)
      | (files, .ok ()) => applyHunksFrom files (affected.push hunk) hunks

/-- `apply_hunks_to_files`. -/
def applyHunksToFiles (files : Files) (hunks : List Hunk) :
    Files × Except ApplyHunksError AffectedPaths :=
  if hunks.isEmpty then (files, .error .noFilesModified)
  else applyHunksFrom home cwd files {} hunks

end Apply

end CodexMonitor.ApplyPatch
