import CodexMonitor.ApplyPatch.LineReader
import CodexMonitor.Lib.Lines

namespace CodexMonitor.ApplyPatch

/-!
# Apply patch — the hunk that is being read

Between the header of a hunk and the line that ends it, what has been read of the hunk is final:
its lines are the first lines of the hunk that comes out.

* `reach`, `readLines_append` — the place the reader is at after some lines.
* `Place.Begins` — what has been read of a hunk.
* `leadsTo_step`, `begins_readLines` — one line keeps it, and so do all lines.
* `parsePatchText_ok_iff` — what the parser accepts, in terms of the reader.
-/

variable {streaming : Bool} {place place' : Place} {number : Nat} {line line' : Text}
  {lines rest : List Text} {update : OpenUpdate} {chunk chunk' : UpdateFileChunk}

/-! ### The place after some lines -/

/-- The lines one after the other, without the end: the hunks that are complete and the place. -/
def reach (streaming : Bool) : Place → Nat → List Text → Reading
  | place, _, [] => .ok ([], place)
  | place, number, line :: rest =>
      match place.step streaming number line with
      | .error stuck => .error stuck
      | .ok (hunks, next) => completing (.ok hunks) (reach streaming next (number + 1) rest)

theorem readLines_append (streaming : Bool) (place : Place) (number : Nat)
    (lines rest : List Text) :
    readLines streaming place number (lines ++ rest) =
      resume streaming (reach streaming place number lines) (number + lines.length) rest := by
  induction lines generalizing place number with
  | nil => exact (resume_nil place).symm
  | cons line lines ih =>
    rw [List.cons_append, readLines_cons, reach, List.length_cons]
    cases place.step streaming number line with
    | error stuck => rfl
    | ok result =>
      obtain ⟨hunks, next⟩ := result
      simp only
      rw [resume_completing, resume, ih, Nat.add_assoc, Nat.add_comm 1]
      rfl

theorem resume_ok {reading : Reading} {hunks : List Hunk}
    (h : resume streaming reading number rest = .ok hunks) :
    ∃ complete next others, reading = .ok (complete, next) ∧
      readLines streaming next number rest = .ok others ∧ hunks = complete ++ others := by
  cases reading with
  | error stuck => cases h
  | ok result =>
    obtain ⟨complete, next⟩ := result
    have hread : prepending complete (readLines streaming next number rest) = .ok hunks := h
    cases hrest : readLines streaming next number rest with
    | error stuck =>
      rw [hrest] at hread
      cases hread
    | ok others =>
      rw [hrest] at hread
      exact ⟨complete, next, others, rfl, hrest, (Except.ok.inj hread).symm⟩

theorem completing_ok {hunks : Except Stuck (List Hunk)} {reading : Reading}
    {complete : List Hunk} (h : completing hunks reading = .ok (complete, place)) :
    ∃ first others, hunks = .ok first ∧ reading = .ok (others, place) ∧
      complete = first ++ others := by
  cases hunks with
  | error stuck => cases h
  | ok first =>
    cases reading with
    | error stuck => cases h
    | ok result =>
      obtain ⟨rfl, rfl⟩ := Prod.mk.inj (Except.ok.inj h)
      exact ⟨first, result.1, rfl, rfl, rfl⟩

theorem close_ok {hunks : List Hunk} (h : update.close = .ok hunks) :
    update.chunks ≠ [] ∧ hunks = [.updateFile update.path update.movePath update.chunks] := by
  unfold OpenUpdate.close at h
  split at h
  · cases h
  · next hsome =>
    refine ⟨?_, (Except.ok.inj h).symm⟩
    rintro hnil
    rw [hnil] at hsome
    exact hsome rfl

/-- **What a line of an update hunk does** where a chunk may start: it is left out, it ends the
    hunk, it is a context marker, or it is the first diff line. -/
theorem readUpdate_cases {result : List Hunk × Place}
    (h : readUpdate streaming update number line = .ok result) :
    (line.trim = [] ∧ result = ([], .updating false update)) ∨
      (completing update.close (readHeader number line) = .ok result ∧
        (streaming = true ∨ line.head? = some '*')) ∨
      (∃ context, contextOf line = some context ∧ result = ([], .marked update context)) ∨
      (update.chunks = [] ∧ ∃ chunk, diffLine ⟨none, [], [], false⟩ line = some chunk ∧
        result = ([], .inChunk update chunk)) := by
  unfold readUpdate at h
  split at h
  · next hblank => exact .inl ⟨List.isEmpty_iff.mp hblank, (Except.ok.inj h).symm⟩
  · split at h
    · next hstar => exact .inr (.inl ⟨h, .inr hstar⟩)
    · split at h
      · next hlone => exact .inr (.inl ⟨h, .inl hlone.1⟩)
      · split at h
        · next context hcontext =>
          exact .inr (.inr (.inl ⟨context, hcontext, (Except.ok.inj h).symm⟩))
        · split at h
          · next hchunks =>
            split at h
            · next chunk hdiff =>
              exact .inr (.inr (.inr
                ⟨List.isEmpty_iff.mp hchunks, chunk, hdiff, (Except.ok.inj h).symm⟩))
            · cases h
          · split at h
            · next hstreaming => exact .inr (.inl ⟨h, .inl hstreaming⟩)
            · cases h

theorem readLines_cons_ok {hunks : List Hunk}
    (h : readLines streaming place number (line :: rest) = .ok hunks) :
    ∃ result others, place.step streaming number line = .ok result ∧
      readLines streaming result.2 (number + 1) rest = .ok others ∧
        hunks = result.1 ++ others := by
  rw [readLines_cons] at h
  obtain ⟨complete, next, others, hstep, hrest, rfl⟩ := resume_ok h
  exact ⟨(complete, next), others, hstep, hrest, rfl⟩

/-! ### Lines that start nothing -/

/-- Whether a line goes to a chunk depends on its first character. -/
theorem diffLine_isSome (chunk : UpdateFileChunk) (line : Text) :
    (diffLine chunk line).isSome =
      line.head?.all fun c => c == ' ' || c == '+' || c == '-' := by
  unfold diffLine
  split
  · rfl
  · rfl
  · rfl
  · rfl
  · next hempty hspace hplus hminus =>
    cases line with
    | nil => exact absurd rfl hempty
    | cons c content =>
      have hspace' : c ≠ ' ' := fun heq => hspace content (by rw [heq])
      have hplus' : c ≠ '+' := fun heq => hplus content (by rw [heq])
      have hminus' : c ≠ '-' := fun heq => hminus content (by rw [heq])
      simp [hspace', hplus', hminus']

theorem diffLine_head (hhead : line'.head? = line.head?) (chunk chunk' : UpdateFileChunk) :
    (diffLine chunk' line').isSome = (diffLine chunk line).isSome := by
  rw [diffLine_isSome, diffLine_isSome, hhead]

/-- The markers of headers. -/
def headerMarkers : List Text := [addFileMarker, deleteFileMarker, updateFileMarker]

/-- A header starts with one of them. -/
theorem marker_of_readHeader {result : List Hunk × Place}
    (h : readHeader number line = .ok result) : ∃ marker ∈ headerMarkers, marker <+: line.trim := by
  unfold readHeader at h
  split at h
  · rename_i rest hrest
    exact ⟨addFileMarker, by decide, rest, (Text.stripStart_eq_some_iff.mp hrest).symm⟩
  · split at h
    · rename_i rest hrest
      exact ⟨deleteFileMarker, by decide, rest, (Text.stripStart_eq_some_iff.mp hrest).symm⟩
    · split at h
      · rename_i rest hrest
        exact ⟨updateFileMarker, by decide, rest, (Text.stripStart_eq_some_iff.mp hrest).symm⟩
      · cases h

/-- A line that goes on as another marker is no header. -/
theorem readHeader_other {marker : Text} {result : List Hunk × Place}
    (hmarker : ∀ header ∈ headerMarkers, ¬ header <+: marker ∧ ¬ marker <+: header)
    (hline : line.trim <+: marker ∨ marker <+: line.trim) :
    readHeader number line ≠ .ok result := by
  intro h
  obtain ⟨header, hmem, hheader⟩ := marker_of_readHeader h
  obtain ⟨hno, hno'⟩ := hmarker header hmem
  rcases hline with hcut | hgrown
  · exact hno (hheader.trans hcut)
  · rcases List.prefix_or_prefix_of_prefix hheader hgrown with hshort | hlong
    · exact hno hshort
    · exact hno' hlong

/-- A hunk that has no chunk does not end. -/
theorem not_completing {result : List Hunk × Place} {reading : Reading}
    (hchunks : update.chunks = []) : completing update.close reading ≠ .ok result := by
  intro h
  obtain ⟨first, others, hclose, -, -⟩ := completing_ok h
  exact (close_ok hclose).1 hchunks

/-- No header starts with an at-sign. -/
theorem head?_of_completing {result : List Hunk × Place} {complete : Except Stuck (List Hunk)}
    (h : completing complete (readHeader number line) = .ok result) : line.head? ≠ some '@' := by
  intro hsign
  have htrim : line.trim.head? = some '@' := Text.head?_trimBy (by decide) hsign
  obtain ⟨first, others, -, hheader, -⟩ := completing_ok h
  rw [readHeader_of_head (by rw [htrim]; decide)] at hheader
  cases hheader

/-- Nor does a diff line. -/
theorem head?_of_diffLine_some (h : diffLine chunk line = some chunk') :
    line.head? ≠ some '@' := by
  intro hsign
  have hdiff := diffLine_isSome chunk line
  rw [h, hsign] at hdiff
  cases hdiff

/-- A marker that is no header starts nothing in an update hunk. -/
theorem readUpdate_other {marker : Text} {result : List Hunk × Place}
    (hmarker : ∀ header ∈ headerMarkers, ¬ header <+: marker ∧ ¬ marker <+: header)
    (hline : line.trim <+: marker ∨ marker <+: line.trim) (hne : line.trim ≠ [])
    (hstar : line.head? = some '*') : readUpdate streaming update number line ≠ .ok result := by
  intro h
  rcases readUpdate_cases h with
    ⟨hblank, -⟩ | ⟨hclosing, -⟩ | ⟨context, hcontext, -⟩ | ⟨-, chunk, hdiff, -⟩
  · exact hne hblank
  · obtain ⟨first, others, -, hheader, -⟩ := completing_ok hclosing
    exact readHeader_other hmarker hline hheader
  · rw [head?_of_contextOf hcontext] at hstar
    cases hstar
  · exact head?_of_diffLine hdiff hstar

theorem eofMarker_other :
    ∀ header ∈ headerMarkers, ¬ header <+: eofMarker ∧ ¬ eofMarker <+: header := by
  decide

theorem endPatchMarker_other :
    ∀ header ∈ headerMarkers, ¬ header <+: endPatchMarker ∧ ¬ endPatchMarker <+: header := by
  decide

/-! ### What has been read -/

/-- The chunk goes on as the other one. -/
structure UpdateFileChunk.Begins (chunk last : UpdateFileChunk) : Prop where
  changeContext : last.changeContext = chunk.changeContext
  oldLines : chunk.oldLines <+: last.oldLines
  newLines : chunk.newLines <+: last.newLines

/-- The contents of an added file with the lines. -/
def addedContents (added : List Text) : Text := added.flatMap fun line => line ++ ['\n']

/-- What is being read will be the hunk. -/
def Place.Begins : Place → Hunk → Prop
  | .between, _ => False
  | .adding path added, hunk => ∃ more, hunk = .addFile path (addedContents (added ++ more))
  | .updating belowHeader update, hunk =>
      ∃ movePath chunks, hunk = .updateFile update.path movePath (update.chunks ++ chunks) ∧
        (belowHeader = false → movePath = update.movePath)
  | .marked update context, hunk =>
      ∃ last chunks, hunk =
          .updateFile update.path update.movePath (update.chunks ++ last :: chunks) ∧
        last.changeContext = context
  | .inChunk update chunk, hunk =>
      ∃ last chunks, hunk =
          .updateFile update.path update.movePath (update.chunks ++ last :: chunks) ∧
        chunk.Begins last

theorem UpdateFileChunk.Begins.refl (chunk : UpdateFileChunk) : chunk.Begins chunk :=
  ⟨rfl, List.prefix_refl _, List.prefix_refl _⟩

theorem UpdateFileChunk.Begins.trans {last : UpdateFileChunk} (h : chunk.Begins chunk')
    (h' : chunk'.Begins last) : chunk.Begins last :=
  ⟨h'.changeContext.trans h.changeContext, h.oldLines.trans h'.oldLines,
    h.newLines.trans h'.newLines⟩

theorem begins_diffLine (h : diffLine chunk line = some chunk') : chunk.Begins chunk' := by
  unfold diffLine at h
  split at h
  · obtain rfl := Option.some.inj h
    exact ⟨rfl, List.prefix_append _ _, List.prefix_append _ _⟩
  · obtain rfl := Option.some.inj h
    exact ⟨rfl, List.prefix_append _ _, List.prefix_append _ _⟩
  · obtain rfl := Option.some.inj h
    exact ⟨rfl, List.prefix_refl _, List.prefix_append _ _⟩
  · obtain rfl := Option.some.inj h
    exact ⟨rfl, List.prefix_append _ _, List.prefix_refl _⟩
  · cases h

/-- What is complete starts with the hunk that is being read, or nothing is complete and reading
    goes on. -/
def Place.LeadsTo (place : Place) (complete : List Hunk) (next : Place) : Prop :=
  (∃ hunk more, complete = hunk :: more ∧ place.Begins hunk) ∨
    (complete = [] ∧ next ≠ .between ∧ ∀ hunk, next.Begins hunk → place.Begins hunk)

theorem begins_updating {belowHeader : Bool} {hunk : Hunk}
    (h : Place.Begins (.updating false update) hunk) :
    Place.Begins (.updating belowHeader update) hunk := by
  obtain ⟨movePath, chunks, rfl, hmove⟩ := h
  exact ⟨movePath, chunks, rfl, fun _ => hmove rfl⟩

theorem begins_inChunk {last : UpdateFileChunk} {hunk : Hunk} (hchunk : chunk.Begins last)
    (h : Place.Begins (.updating false (update.add last)) hunk) :
    Place.Begins (.inChunk update chunk) hunk := by
  obtain ⟨movePath, chunks, rfl, hmove⟩ := h
  obtain rfl := hmove rfl
  refine ⟨last, chunks, ?_, hchunk⟩
  unfold OpenUpdate.add
  simp only
  rw [List.append_assoc, List.singleton_append]

theorem Place.LeadsTo.mono {complete : List Hunk} {next : Place}
    (h : place'.LeadsTo complete next) (hbegins : ∀ hunk, place'.Begins hunk → place.Begins hunk) :
    place.LeadsTo complete next := by
  rcases h with ⟨hunk, more, rfl, hhunk⟩ | ⟨rfl, hopen, hnext⟩
  · exact .inl ⟨hunk, more, rfl, hbegins hunk hhunk⟩
  · exact .inr ⟨rfl, hopen, fun hunk hhunk => hbegins hunk (hnext hunk hhunk)⟩

theorem leadsTo_readUpdate {complete : List Hunk}
    (h : readUpdate streaming update number line = .ok (complete, place')) :
    Place.LeadsTo (.updating false update) complete place' := by
  rcases readUpdate_cases h with
    ⟨-, heq⟩ | ⟨hclosing, -⟩ | ⟨context, -, heq⟩ | ⟨-, chunk, -, heq⟩
  · obtain ⟨rfl, rfl⟩ := Prod.mk.inj heq
    exact .inr ⟨rfl, Place.noConfusion, fun hunk hhunk => hhunk⟩
  · obtain ⟨first, others, hclose, -, rfl⟩ := completing_ok hclosing
    obtain ⟨-, rfl⟩ := close_ok hclose
    refine .inl ⟨_, others, rfl, update.movePath, [], ?_, fun _ => rfl⟩
    rw [List.append_nil]
  · obtain ⟨rfl, rfl⟩ := Prod.mk.inj heq
    refine .inr ⟨rfl, Place.noConfusion, ?_⟩
    rintro hunk ⟨last, chunks, rfl, -⟩
    exact ⟨update.movePath, last :: chunks, rfl, fun _ => rfl⟩
  · obtain ⟨rfl, rfl⟩ := Prod.mk.inj heq
    refine .inr ⟨rfl, Place.noConfusion, ?_⟩
    rintro hunk ⟨last, chunks, rfl, -⟩
    exact ⟨update.movePath, last :: chunks, rfl, fun _ => rfl⟩

/-- **One line**: what has been read stays. -/
theorem leadsTo_step {complete : List Hunk} (hopen : place ≠ .between)
    (h : place.step streaming number line = .ok (complete, place')) :
    place.LeadsTo complete place' := by
  unfold Place.step at h
  cases place with
  | between => exact absurd rfl hopen
  | adding path added =>
    simp only at h
    split at h
    · next content =>
      obtain ⟨rfl, rfl⟩ := Prod.mk.inj (Except.ok.inj h)
      refine .inr ⟨rfl, Place.noConfusion, ?_⟩
      rintro hunk ⟨more, rfl⟩
      exact ⟨content :: more, by rw [List.append_assoc, List.singleton_append]⟩
    · obtain ⟨first, others, hfirst, -, rfl⟩ := completing_ok h
      obtain rfl := Except.ok.inj hfirst
      refine .inl ⟨_, others, rfl, [], ?_⟩
      rw [List.append_nil]
      rfl
  | updating belowHeader update =>
    simp only at h
    split at h
    · obtain ⟨rfl, rfl⟩ := Prod.mk.inj (Except.ok.inj h)
      refine .inr ⟨rfl, Place.noConfusion, ?_⟩
      rintro hunk ⟨movePath, chunks, rfl, -⟩
      refine ⟨movePath, chunks, rfl, ?_⟩
      rintro rfl
      rename_i hpath
      cases hpath
    · exact (leadsTo_readUpdate h).mono fun hunk => begins_updating
  | marked update context =>
    simp only at h
    split at h
    · next chunk hdiff =>
      obtain ⟨rfl, rfl⟩ := Prod.mk.inj (Except.ok.inj h)
      refine .inr ⟨rfl, Place.noConfusion, ?_⟩
      rintro hunk ⟨last, chunks, rfl, hlast⟩
      exact ⟨last, chunks, rfl, ((begins_diffLine hdiff).trans hlast).changeContext⟩
    · cases h
  | inChunk update chunk =>
    simp only at h
    split at h
    · next chunk' hdiff =>
      obtain ⟨rfl, rfl⟩ := Prod.mk.inj (Except.ok.inj h)
      refine .inr ⟨rfl, Place.noConfusion, ?_⟩
      rintro hunk ⟨last, chunks, rfl, hlast⟩
      exact ⟨last, chunks, rfl, (begins_diffLine hdiff).trans hlast⟩
    · split at h
      · obtain ⟨rfl, rfl⟩ := Prod.mk.inj (Except.ok.inj h)
        have hchunk : chunk.Begins { chunk with isEndOfFile := true } :=
          ⟨rfl, List.prefix_refl _, List.prefix_refl _⟩
        exact .inr ⟨rfl, Place.noConfusion, fun hunk => begins_inChunk hchunk⟩
      · exact (leadsTo_readUpdate h).mono fun hunk => begins_inChunk (.refl chunk)

/-- At the end the hunk is the only one. -/
theorem begins_finish {hunks : List Hunk} (hopen : place ≠ .between)
    (h : place.finish streaming number = .ok hunks) :
    ∃ hunk, hunks = [hunk] ∧ place.Begins hunk := by
  unfold Place.finish at h
  cases place with
  | between => exact absurd rfl hopen
  | adding path added =>
    refine ⟨_, (Except.ok.inj h).symm, [], ?_⟩
    rw [List.append_nil]
    rfl
  | updating belowHeader update =>
    obtain ⟨-, rfl⟩ := close_ok h
    exact ⟨_, rfl, update.movePath, [], by rw [List.append_nil], fun _ => rfl⟩
  | marked update context => cases h
  | inChunk update chunk =>
    obtain ⟨-, rfl⟩ := close_ok h
    exact ⟨_, rfl, chunk, [], rfl, .refl chunk⟩

/-- **All lines**: the first hunk is the one that is being read. -/
theorem begins_readLines {hunks : List Hunk} (hopen : place ≠ .between)
    (h : readLines streaming place number lines = .ok hunks) :
    ∃ hunk more, hunks = hunk :: more ∧ place.Begins hunk := by
  induction lines generalizing place number hunks with
  | nil =>
    obtain ⟨hunk, rfl, hhunk⟩ := begins_finish hopen h
    exact ⟨hunk, [], rfl, hhunk⟩
  | cons line rest ih =>
    obtain ⟨result, others, hstep, hrest, rfl⟩ := readLines_cons_ok h
    rcases leadsTo_step hopen hstep with ⟨hunk, more, heq, hhunk⟩ | ⟨heq, hopen', hnext⟩
    · exact ⟨hunk, more ++ others, by rw [heq, List.cons_append], hhunk⟩
    · obtain ⟨hunk, more, rfl, hhunk⟩ := ih hopen' hrest
      exact ⟨hunk, more, by rw [heq, List.nil_append], hnext hunk hhunk⟩

/-! ### What the parser accepts -/

/-- What has both markers. -/
theorem checkStartAndEndLinesStrict_ok {first last : Option Text}
    (h : checkStartAndEndLinesStrict first last = .ok ()) :
    first.map Text.trim = some beginPatchMarker ∧ last.map Text.trim = some endPatchMarker := by
  unfold checkStartAndEndLinesStrict at h
  split at h
  · next firstTrim lastTrim hfirst hlast =>
    split at h
    · next hboth =>
      rw [hfirst, hlast, hboth.1, hboth.2]
      exact ⟨rfl, rfl⟩
    · split at h <;> cases h
  · split at h <;> cases h
  · cases h

theorem checkPatchBoundariesStrict_ok {patchLines : List Text} {boundaries : Boundaries}
    (h : checkPatchBoundariesStrict patchLines = .ok boundaries) :
    ∃ first rest, patchLines = first :: rest ∧ first.trim = beginPatchMarker ∧
      (∃ last, (first :: rest).getLast? = some last ∧ last.trim = endPatchMarker) ∧
        boundaries = (first :: rest, rest.dropLast) := by
  unfold checkPatchBoundariesStrict at h
  split at h
  · cases h
  · next hmarkers =>
    obtain ⟨hfirst, hlast⟩ := checkStartAndEndLinesStrict_ok hmarkers
    cases patchLines with
    | nil => cases hfirst
    | cons first rest =>
      obtain ⟨last, hlast', htrim⟩ := Option.map_eq_some_iff.mp hlast
      exact ⟨first, rest, rfl, Option.some.inj hfirst, ⟨last, hlast', htrim⟩,
        (Except.ok.inj h).symm⟩

/-- The hunks of the lines between the markers. -/
theorem parseHunks_ok_iff {hunkLines : List Text} {number : Nat} {hunks : List Hunk} :
    parseHunks streaming hunkLines.length number hunkLines = .ok hunks ↔
      readLines streaming .between number hunkLines = .ok hunks := by
  have hagrees := parseHunks_readLines streaming hunkLines.length number hunkLines (Nat.le_refl _)
  cases hread : readLines streaming .between number hunkLines with
  | ok hunks' =>
    rw [hread] at hagrees
    have hok : parseHunks streaming hunkLines.length number hunkLines = .ok hunks' := hagrees
    rw [hok, Except.ok.injEq, Except.ok.injEq]
  | error stuck =>
    rw [hread] at hagrees
    obtain ⟨message, hfail⟩ := hagrees
    rw [hfail]
    constructor
    · intro h
      cases h
    · intro h
      cases h

/-- The lines of a patch and those between its markers, in each mode. -/
def checkPatchBoundaries (lines : List Text) : ParseMode → Except ParseError Boundaries
  | .strict => checkPatchBoundariesStrict lines
  | .lenient => checkPatchBoundariesLenient lines
  | .streaming => checkPatchBoundariesStreaming lines

/-- **What a parse accepts**, and what it returns. -/
theorem parsePatchText_ok_iff {patch : Text} {mode : ParseMode} {args : ApplyPatchArgs} :
    parsePatchText patch mode = .ok args ↔
      ∃ patchLines hunkLines,
        checkPatchBoundaries patch.trim.lines mode = .ok (patchLines, hunkLines) ∧
          readLines (mode = .streaming) .between 2 hunkLines = .ok args.hunks ∧
            args = ⟨Text.joinWith ['\n'] patchLines, args.hunks, none⟩ := by
  cases hboundaries : checkPatchBoundaries patch.trim.lines mode with
  | error err =>
    have hfailed : parsePatchText patch mode = .error err := by
      unfold checkPatchBoundaries at hboundaries
      unfold parsePatchText
      cases mode <;> (simp only at hboundaries ⊢; rw [hboundaries])
    rw [hfailed]
    constructor
    · intro h
      cases h
    · rintro ⟨_, _, hcontra, -⟩
      cases hcontra
  | ok boundaries =>
    obtain ⟨patchLines, hunkLines⟩ := boundaries
    have hparsed : parsePatchText patch mode =
        (parseHunks (mode = .streaming) hunkLines.length 2 hunkLines).map fun hunks =>
          ⟨Text.joinWith ['\n'] patchLines, hunks, none⟩ := by
      unfold checkPatchBoundaries at hboundaries
      unfold parsePatchText
      cases mode <;>
        (simp only at hboundaries ⊢; rw [hboundaries]; simp only; cases parseHunks _ _ _ _ <;> rfl)
    rw [hparsed]
    constructor
    · intro h
      cases hhunks : parseHunks (mode = .streaming) hunkLines.length 2 hunkLines with
      | error err =>
        rw [hhunks] at h
        cases h
      | ok hunks =>
        rw [hhunks] at h
        obtain rfl := Except.ok.inj h
        exact ⟨patchLines, hunkLines, rfl, parseHunks_ok_iff.mp hhunks, rfl⟩
    · rintro ⟨_, _, hsame, hread, hargs⟩
      obtain ⟨rfl, rfl⟩ := Prod.mk.inj (Except.ok.inj hsame)
      rw [parseHunks_ok_iff.mpr hread]
      exact congrArg Except.ok hargs.symm

end CodexMonitor.ApplyPatch
