import CodexMonitor.Lib.UnixPath

namespace CodexMonitor.ApplyPatch

/-!
# Apply patch — the patch format

`apply-patch/src/parser.rs`: a patch text is split into lines, its begin and end markers are
checked, and the lines between them are parsed into **hunks**, one after another.

* `parseUpdateFileChunk` — one chunk of an update hunk.
* `parseOneHunk` — one hunk and the number of lines it takes.
* `parsePatchText` — the whole text, in strict, lenient or streaming mode.

Each loop of the parser takes at least one line a round.  The loops here run on a fuel that
starts at the number of lines; `updateChunks_succ_fuel` and `parseHunks_succ_fuel` show that
more would change nothing.
-/

/-! ### Hunks -/

/-- The old lines are to be replaced by the new ones, somewhere after the context line. -/
structure UpdateFileChunk where
  changeContext : Option Text
  oldLines : List Text
  newLines : List Text
  isEndOfFile : Bool
  deriving DecidableEq, Repr

/-- Paths are kept as the patch spells them. -/
inductive Hunk where
  | addFile (path contents : Text)
  | deleteFile (path : Text)
  | updateFile (path : Text) (movePath : Option Text) (chunks : List UpdateFileChunk)
  deriving DecidableEq, Repr

/-- The path affected by a hunk: the destination, if the hunk moves its file. -/
def Hunk.path : Hunk → Text
  | .addFile path _ => path
  | .deleteFile path => path
  | .updateFile _ (some path) _ => path
  | .updateFile path none _ => path

/-- `resolve_path`: the file a hunk is about; for an update, the file it reads. -/
def Hunk.resolvePath (home : Option AbsPath) (cwd : AbsPath) (hunk : Hunk) : AbsPath :=
  match hunk with
  | .updateFile path _ _ => UnixPath.resolve home path cwd
  | hunk => UnixPath.resolve home hunk.path cwd

inductive ParseError where
  | invalidPatchError (message : Text)
  | invalidHunkError (message : Text) (lineNumber : Nat)
  deriving DecidableEq, Repr

structure ApplyPatchArgs where
  patch : Text
  hunks : List Hunk
  workdir : Option Text
  deriving DecidableEq, Repr

inductive ParseMode where
  | strict
  | lenient
  | streaming
  deriving DecidableEq, Repr

/-! ### Markers -/

def beginPatchMarker : Text := "*** Begin Patch".toList
def endPatchMarker : Text := "*** End Patch".toList
def addFileMarker : Text := "*** Add File: ".toList
def deleteFileMarker : Text := "*** Delete File: ".toList
def updateFileMarker : Text := "*** Update File: ".toList
def moveToMarker : Text := "*** Move to: ".toList
def eofMarker : Text := "*** End of File".toList
def changeContextMarker : Text := "@@ ".toList
def emptyChangeContextMarker : Text := "@@".toList

/-! ### Chunks -/

def noLinesMessage : Text := "Update hunk does not contain any lines".toList

/-- The diff lines of a chunk, after its context marker: `parsed` of them are already in
    the chunk. -/
def chunkBody (lineNumber : Nat) :
    UpdateFileChunk → Nat → List Text → Except ParseError (UpdateFileChunk × Nat)
  | chunk, parsed, [] => .ok (chunk, parsed)
  | chunk, parsed, line :: rest =>
      if line = eofMarker then
        if parsed = 0 then .error (.invalidHunkError noLinesMessage (lineNumber + 1))
        else .ok ({ chunk with isEndOfFile := true }, parsed + 1)
      else
        match line with
        | [] =>
            chunkBody lineNumber { chunk with oldLines := chunk.oldLines ++ [[]],
                                              newLines := chunk.newLines ++ [[]] } (parsed + 1) rest
        | ' ' :: content =>
            chunkBody lineNumber { chunk with oldLines := chunk.oldLines ++ [content],
                                              newLines := chunk.newLines ++ [content] }
              (parsed + 1) rest
        | '+' :: content =>
            chunkBody lineNumber { chunk with newLines := chunk.newLines ++ [content] }
              (parsed + 1) rest
        | '-' :: content =>
            chunkBody lineNumber { chunk with oldLines := chunk.oldLines ++ [content] }
              (parsed + 1) rest
        | other =>
            -- the start of the next hunk, unless this one has no line yet
            if parsed = 0 then
              .error (.invalidHunkError
                ("Unexpected line found in update hunk: '".toList ++ other ++
                  ("'. Every line should start with ' ' (context line), '+' (added line), " ++
                    "or '-' (removed line)").toList) (lineNumber + 1))
            else .ok (chunk, parsed)

/-- The context marker of a chunk, and the number of lines it takes. -/
def chunkContext (line : Text) (lineNumber : Nat) (allowMissingContext : Bool) :
    Except ParseError (Option Text × Nat) :=
  if line = emptyChangeContextMarker then .ok (none, 1)
  else
    match line.stripStart changeContextMarker with
    | some context => .ok (some context, 1)
    | none =>
        if allowMissingContext then .ok (none, 0)
        else .error (.invalidHunkError
          ("Expected update hunk to start with a @@ context marker, got: '".toList ++ line
            ++ "'".toList) lineNumber)

/-- `parse_update_file_chunk`: the chunk and the number of lines it takes. -/
def parseUpdateFileChunk (lines : List Text) (lineNumber : Nat) (allowMissingContext : Bool) :
    Except ParseError (UpdateFileChunk × Nat) :=
  match lines with
  | [] => .error (.invalidHunkError noLinesMessage lineNumber)
  | first :: _ =>
      match chunkContext first lineNumber allowMissingContext with
      | .error err => .error err
      | .ok (changeContext, startIndex) =>
          -- a context marker with nothing behind it
          if lines.length ≤ startIndex then
            .error (.invalidHunkError noLinesMessage (lineNumber + 1))
          else
            match chunkBody lineNumber ⟨changeContext, [], [], false⟩ 0 (lines.drop startIndex) with
            | .error err => .error err
            | .ok (chunk, parsed) => .ok (chunk, parsed + startIndex)

/-! ### Hunks, one by one -/

/-- The chunks of an update hunk, up to the next header: the lines left are `lines`, and
    `parsed` lines of the hunk are behind us. -/
def updateChunks (lineNumber : Nat) (allowIncomplete : Bool) :
    Nat → List UpdateFileChunk → Nat → List Text → Except ParseError (List UpdateFileChunk × Nat)
  | 0, chunks, parsed, _ => .ok (chunks, parsed)
  | _ + 1, chunks, parsed, [] => .ok (chunks, parsed)
  | fuel + 1, chunks, parsed, line :: rest =>
      if line.trim.isEmpty then
        updateChunks lineNumber allowIncomplete fuel chunks (parsed + 1) rest
      -- the header of the next hunk
      else if line.head? = some '*' then .ok (chunks, parsed)
      -- in a patch still being streamed a lone at-sign may become a marker
      else if allowIncomplete = true ∧ line = ['@'] then .ok (chunks, parsed)
      else
        match parseUpdateFileChunk (line :: rest) (lineNumber + parsed) chunks.isEmpty with
        | .ok (chunk, taken) =>
            updateChunks lineNumber allowIncomplete fuel (chunks ++ [chunk]) (parsed + taken)
              ((line :: rest).drop taken)
        | .error (.invalidHunkError message number) =>
            -- what streamed in so far is kept
            if allowIncomplete && !chunks.isEmpty then .ok (chunks, parsed)
            else .error (.invalidHunkError message number)
        | .error err => .error err

/-- The lines an add hunk adds: those that start with a plus, up to the first that does not. -/
def addedLines : List Text → List Text
  | ('+' :: content) :: rest => content :: addedLines rest
  | _ => []

/-- `parse_one_hunk`: the hunk at the start of `first :: rest`, and the number of lines it
    takes. -/
def parseOneHunk (first : Text) (rest : List Text) (lineNumber : Nat) (allowIncomplete : Bool) :
    Except ParseError (Hunk × Nat) :=
  let firstLine := first.trim
  match firstLine.stripStart addFileMarker with
  | some path =>
      let added := addedLines rest
      .ok (.addFile path (added.flatMap fun line => line ++ ['\n']), added.length + 1)
  | none =>
      match firstLine.stripStart deleteFileMarker with
      | some path => .ok (.deleteFile path, 1)
      | none =>
          match firstLine.stripStart updateFileMarker with
          | some path =>
              -- the destination, if given, is the line below the header
              let movePath := rest.head?.bind fun line => line.stripStart moveToMarker
              let moveLines := if movePath.isSome then 1 else 0
              let remaining := rest.drop moveLines
              match updateChunks lineNumber allowIncomplete remaining.length [] (1 + moveLines)
                  remaining with
              | .error err => .error err
              | .ok (chunks, parsed) =>
                  if chunks.isEmpty then
                    .error (.invalidHunkError
                      ("Update file hunk for path '".toList ++ path ++ "' is empty".toList)
                      lineNumber)
                  else .ok (.updateFile path movePath chunks, parsed)
          | none =>
              .error (.invalidHunkError
                ("'".toList ++ firstLine ++
                  ("' is not a valid hunk header. Valid hunk headers: '*** Add File: \x7bpath\x7d', " ++
                    "'*** Delete File: \x7bpath\x7d', '*** Update File: \x7bpath\x7d'").toList)
                lineNumber)

/-- The hunks of the lines between the markers. -/
def parseHunks (allowIncomplete : Bool) :
    Nat → Nat → List Text → Except ParseError (List Hunk)
  | 0, _, _ => .ok []
  | _ + 1, _, [] => .ok []
  | fuel + 1, lineNumber, first :: rest =>
      match parseOneHunk first rest lineNumber allowIncomplete with
      | .error err => .error err
      | .ok (hunk, taken) =>
          match parseHunks allowIncomplete fuel (lineNumber + taken)
              ((first :: rest).drop taken) with
          | .error err => .error err
          | .ok hunks => .ok (hunk :: hunks)

/-! ### The fuel is enough -/

section Fuel

variable {lineNumber : Nat} {allowIncomplete : Bool}

/-- One round of a chunk body: it stops here, or takes the line and goes on. -/
theorem chunkBody_cons (lineNumber : Nat) (chunk : UpdateFileChunk) (parsed : Nat) (line : Text)
    (rest : List Text) :
    (∃ err, chunkBody lineNumber chunk parsed (line :: rest) = .error err) ∨
      (0 < parsed ∧ ∃ last n, parsed ≤ n ∧
        chunkBody lineNumber chunk parsed (line :: rest) = .ok (last, n)) ∨
      ∃ next, chunkBody lineNumber chunk parsed (line :: rest) =
        chunkBody lineNumber next (parsed + 1) rest := by
  generalize hr : chunkBody lineNumber chunk parsed (line :: rest) = r
  unfold chunkBody at hr
  by_cases heof : line = eofMarker
  · -- the end-of-file marker ends the chunk, but cannot begin it
    rw [if_pos heof] at hr
    split at hr
    · exact .inl ⟨_, hr.symm⟩
    · exact .inr (.inl ⟨by omega, _, _, by omega, hr.symm⟩)
  · rw [if_neg heof] at hr
    split at hr
    · exact .inr (.inr ⟨_, hr.symm⟩)
    · exact .inr (.inr ⟨_, hr.symm⟩)
    · exact .inr (.inr ⟨_, hr.symm⟩)
    · exact .inr (.inr ⟨_, hr.symm⟩)
    · split at hr
      · exact .inl ⟨_, hr.symm⟩
      · exact .inr (.inl ⟨by omega, _, _, le_rfl, hr.symm⟩)

theorem chunkBody_le {chunk last : UpdateFileChunk} {parsed n : Nat} {lines : List Text}
    (h : chunkBody lineNumber chunk parsed lines = .ok (last, n)) : parsed ≤ n := by
  induction lines generalizing chunk parsed with
  | nil =>
    cases h
    exact le_rfl
  | cons line rest ih =>
    rcases chunkBody_cons lineNumber chunk parsed line rest with
      ⟨err, herr⟩ | ⟨-, last', n', hle, hok⟩ | ⟨next, hnext⟩
    · rw [herr] at h
      cases h
    · rw [hok] at h
      cases h
      exact hle
    · rw [hnext] at h
      have := ih h
      omega

/-- A chunk takes at least one line. -/
theorem parseUpdateFileChunk_pos {lines : List Text} {allow : Bool} {chunk : UpdateFileChunk}
    {taken : Nat} (h : parseUpdateFileChunk lines lineNumber allow = .ok (chunk, taken)) :
    0 < taken := by
  unfold parseUpdateFileChunk at h
  split at h
  · cases h
  · rename_i first rest
    split at h
    · cases h
    · rename_i context startIndex hctx
      split_ifs at h with hlen
      split at h
      · cases h
      · rename_i body parsed hbody
        cases h
        rcases Nat.eq_zero_or_pos startIndex with rfl | hpos
        · -- without a context marker the first line is a diff line
          rw [List.drop_zero] at hbody
          rcases chunkBody_cons lineNumber ⟨context, [], [], false⟩ 0 first rest with
            ⟨err, herr⟩ | ⟨habs, -⟩ | ⟨next, hnext⟩
          · rw [herr] at hbody
            cases hbody
          · exact absurd habs (lt_irrefl 0)
          · rw [hnext] at hbody
            have := chunkBody_le hbody
            omega
        · omega

/-- A round of the chunk loop leaves fewer lines, so more fuel changes nothing. -/
theorem updateChunks_succ_fuel (fuel : Nat) (chunks : List UpdateFileChunk) (parsed : Nat)
    (lines : List Text) (h : lines.length ≤ fuel) :
    updateChunks lineNumber allowIncomplete (fuel + 1) chunks parsed lines =
      updateChunks lineNumber allowIncomplete fuel chunks parsed lines := by
  induction fuel generalizing chunks parsed lines with
  | zero =>
    obtain rfl : lines = [] := List.length_eq_zero_iff.mp (by omega)
    rfl
  | succ fuel ih =>
    cases lines with
    | nil => rfl
    | cons line rest =>
      unfold updateChunks
      have hrest : rest.length ≤ fuel := by simpa using h
      rw [ih chunks (parsed + 1) rest hrest]
      split
      · rfl
      · split
        · rfl
        · split
          · rfl
          · split
            · -- only a parsed chunk goes round the loop with other lines left
              rename_i chunk taken hchunk
              refine ih _ _ _ ?_
              have := parseUpdateFileChunk_pos hchunk
              simp only [List.length_drop, List.length_cons]
              omega
            · rfl
            · rfl

theorem updateChunks_le {fuel : Nat} {chunks chunks' : List UpdateFileChunk} {parsed parsed' : Nat}
    {lines : List Text}
    (h : updateChunks lineNumber allowIncomplete fuel chunks parsed lines =
      .ok (chunks', parsed')) :
    parsed ≤ parsed' := by
  induction fuel generalizing chunks parsed lines with
  | zero =>
    cases h
    exact le_rfl
  | succ fuel ih =>
    cases lines with
    | nil =>
      cases h
      exact le_rfl
    -- a blank line and a chunk count on, everything else stops here
    | cons line rest =>
      unfold updateChunks at h
      split at h
      · have := ih h
        omega
      · split at h
        · cases h
          exact le_rfl
        · split at h
          · cases h
            exact le_rfl
          · split at h
            · have := ih h
              omega
            · split at h
              · cases h
                exact le_rfl
              · cases h
            · cases h

/-- A hunk takes at least its header line. -/
theorem parseOneHunk_pos {first : Text} {rest : List Text} {hunk : Hunk} {taken : Nat}
    (h : parseOneHunk first rest lineNumber allowIncomplete = .ok (hunk, taken)) : 0 < taken := by
  simp only [parseOneHunk] at h
  split at h
  · cases h
    omega
  · split at h
    · cases h
      omega
    · split at h
      · split at h
        · cases h
        · -- the count of an update starts at its header
          rename_i chunks parsed hchunks
          have := updateChunks_le hchunks
          split_ifs at h
          cases h
          omega
      · cases h

/-- A round of the hunk loop leaves fewer lines, so more fuel changes nothing. -/
theorem parseHunks_succ_fuel (fuel number : Nat) (lines : List Text) (h : lines.length ≤ fuel) :
    parseHunks allowIncomplete (fuel + 1) number lines =
      parseHunks allowIncomplete fuel number lines := by
  induction fuel generalizing number lines with
  | zero =>
    obtain rfl : lines = [] := List.length_eq_zero_iff.mp (by omega)
    rfl
  | succ fuel ih =>
    cases lines with
    | nil => rfl
    | cons first rest =>
      unfold parseHunks
      split
      · rfl
      · -- the hunk has taken a line, so the rest fits the smaller fuel
        rename_i hunk taken hhunk
        have := parseOneHunk_pos hhunk
        rw [ih (number + taken) ((first :: rest).drop taken) (by
          simp only [List.length_drop, List.length_cons] at h ⊢
          omega)]

end Fuel

/-! ### Boundaries -/

/-- The lines of a patch and the lines between its markers. -/
abbrev Boundaries := List Text × List Text

def checkStartAndEndLinesStrict (firstLine lastLine : Option Text) : Except ParseError Unit :=
  match firstLine.map Text.trim, lastLine.map Text.trim with
  | some first, some last =>
      if first = beginPatchMarker ∧ last = endPatchMarker then .ok ()
      else if first ≠ beginPatchMarker then
        .error (.invalidPatchError "The first line of the patch must be '*** Begin Patch'".toList)
      else .error (.invalidPatchError "The last line of the patch must be '*** End Patch'".toList)
  | some first, none =>
      if first ≠ beginPatchMarker then
        .error (.invalidPatchError "The first line of the patch must be '*** Begin Patch'".toList)
      else .error (.invalidPatchError "The last line of the patch must be '*** End Patch'".toList)
  | none, _ =>
      .error (.invalidPatchError "The last line of the patch must be '*** End Patch'".toList)

def checkPatchBoundariesStrict (lines : List Text) : Except ParseError Boundaries :=
  match checkStartAndEndLinesStrict lines.head? lines.getLast? with
  | .error err => .error err
  | .ok () => .ok (lines, lines.tail.dropLast)

/-- The heredoc markers some models leave around the patch. -/
def isHeredocStart (line : Text) : Bool :=
  line == "<<EOF".toList || line == "<<'EOF'".toList || line == "<<\"EOF\"".toList

def checkPatchBoundariesLenient (lines : List Text) : Except ParseError Boundaries :=
  match checkPatchBoundariesStrict lines with
  | .ok boundaries => .ok boundaries
  | .error err =>
      if 4 ≤ lines.length ∧ lines.head?.any isHeredocStart = true ∧
          lines.getLast?.any (fun last => last.endsWith "EOF".toList) = true then
        checkPatchBoundariesStrict lines.tail.dropLast
      else .error err

def checkPatchBoundariesStreaming (lines : List Text) : Except ParseError Boundaries :=
  match lines with
  | first :: rest =>
      if first.trim = beginPatchMarker then
        if lines.getLast?.any (fun last => last.trim = endPatchMarker) = true then
          .ok (lines, rest.dropLast)
        else .ok (lines, rest)
      else checkPatchBoundariesStrict lines
  | [] => checkPatchBoundariesStrict lines

/-! ### The whole patch -/

def parsePatchText (patch : Text) (mode : ParseMode) : Except ParseError ApplyPatchArgs :=
  let lines := patch.trim.lines
  let boundaries := match mode with
    | .strict => checkPatchBoundariesStrict lines
    | .lenient => checkPatchBoundariesLenient lines
    | .streaming => checkPatchBoundariesStreaming lines
  match boundaries with
  | .error err => .error err
  | .ok (patchLines, hunkLines) =>
      match parseHunks (mode = .streaming) hunkLines.length 2 hunkLines with
      | .error err => .error err
      | .ok hunks => .ok ⟨Text.joinWith ['\n'] patchLines, hunks, none⟩

/-- `parse_patch`: lenient. -/
def parsePatch (patch : Text) : Except ParseError ApplyPatchArgs := parsePatchText patch .lenient

def parsePatchStreaming (patch : Text) : Except ParseError ApplyPatchArgs :=
  parsePatchText patch .streaming

end CodexMonitor.ApplyPatch
