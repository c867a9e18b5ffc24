import CodexMonitor.ApplyPatch.Parser

namespace CodexMonitor.ApplyPatch

/-!
# Apply patch — reading a patch line by line

The parser of `parser.rs` takes hunks and chunks from a list of lines.  The same patches can be
read one line at a time: the place the reader is at says what the next line may be, a line may
complete a hunk, and the first line that fits nowhere is the one a reader of the patch would
point at.

* `Place` — where the reader is, with what it has of a hunk.
* `Place.step`, `Place.finish` — the next line, and the end of the lines.
* `readLines` — all lines; a `Stuck` names the line the reader cannot take.
* `parseHunks_readLines` — the parser reads the same hunks, and fails where the reader is
  stuck.
-/

/-! ### The reader -/

/-- Why no further line can be taken: the line is no header, the hunk has no chunk, the line does
    not start a chunk, or it is no diff line; or the first line of a hunk, without a context
    marker, is no diff line. -/
inductive StuckKind where
  | header
  | emptyUpdate
  | context
  | diff
  | bare
  deriving DecidableEq, Repr

/-- The line that cannot be taken, as a number. -/
structure Stuck where
  kind : StuckKind
  line : Nat
  deriving DecidableEq, Repr

/-- An update hunk that is being read: the number of its header and the chunks so far. -/
structure OpenUpdate where
  line : Nat
  path : Text
  movePath : Option Text
  chunks : List UpdateFileChunk
  deriving DecidableEq, Repr

/-- Where the reader is: between hunks, in an add hunk, in an update hunk where a chunk may
    start (right below the header a destination may come first), right below a context marker, or
    in a chunk that has a line. -/
inductive Place where
  | between
  | adding (path : Text) (added : List Text)
  | updating (belowHeader : Bool) (update : OpenUpdate)
  | marked (update : OpenUpdate) (context : Option Text)
  | inChunk (update : OpenUpdate) (chunk : UpdateFileChunk)
  deriving DecidableEq, Repr

namespace OpenUpdate

/-- The hunk ends here; it needs a chunk. -/
def close (update : OpenUpdate) : Except Stuck (List Hunk) :=
  if update.chunks.isEmpty then .error ⟨.emptyUpdate, update.line⟩
  else .ok [.updateFile update.path update.movePath update.chunks]

def add (update : OpenUpdate) (chunk : UpdateFileChunk) : OpenUpdate :=
  { update with chunks := update.chunks ++ [chunk] }

end OpenUpdate

/-- The chunk with one more line, if the line is a diff line. -/
def diffLine (chunk : UpdateFileChunk) : Text → Option UpdateFileChunk
  | [] =>
      some { chunk with oldLines := chunk.oldLines ++ [[]], newLines := chunk.newLines ++ [[]] }
  | ' ' :: content =>
      some { chunk with oldLines := chunk.oldLines ++ [content],
                        newLines := chunk.newLines ++ [content] }
  | '+' :: content => some { chunk with newLines := chunk.newLines ++ [content] }
  | '-' :: content => some { chunk with oldLines := chunk.oldLines ++ [content] }
  | _ => none

/-- The context of a context marker. -/
def contextOf (line : Text) : Option (Option Text) :=
  if line = emptyChangeContextMarker then some none
  else (line.stripStart changeContextMarker).map some

/-- What a line completes, and the place after it. -/
abbrev Reading := Except Stuck (List Hunk × Place)

/-- A line that has to be a header. -/
def readHeader (number : Nat) (line : Text) : Reading :=
  match line.trim.stripStart addFileMarker with
  | some path => .ok ([], .adding path [])
  | none =>
      match line.trim.stripStart deleteFileMarker with
      | some path => .ok ([.deleteFile path], .between)
      | none =>
          match line.trim.stripStart updateFileMarker with
          | some path => .ok ([], .updating true ⟨number, path, none, []⟩)
          | none => .error ⟨.header, number⟩

/-- Hunks that are complete, before what comes next. -/
def completing (hunks : Except Stuck (List Hunk)) (next : Reading) : Reading :=
  match hunks, next with
  | .error stuck, _ => .error stuck
  | .ok _, .error stuck => .error stuck
  | .ok hunks, .ok (more, place) => .ok (hunks ++ more, place)

/-- A line of an update hunk where a chunk may start.  In a patch that is still streaming a line
    that starts none is tried as a header. -/
def readUpdate (streaming : Bool) (update : OpenUpdate) (number : Nat) (line : Text) : Reading :=
  if line.trim.isEmpty then .ok ([], .updating false update)
  else if line.head? = some '*' then completing update.close (readHeader number line)
  else if streaming = true ∧ line = ['@'] then completing update.close (readHeader number line)
  else
    match contextOf line with
    | some context => .ok ([], .marked update context)
    | none =>
        if update.chunks.isEmpty then
          match diffLine ⟨none, [], [], false⟩ line with
          | some chunk => .ok ([], .inChunk update chunk)
          | none => .error ⟨.bare, number⟩
        else if streaming then completing update.close (readHeader number line)
        else .error ⟨.context, number⟩

/-- The line below a context marker is missing, or no diff line; while the patch is streaming the
    marker is tried as a header then, unless it starts the first chunk. -/
def unmarked (streaming : Bool) (update : OpenUpdate) (number : Nat) : Stuck :=
  if streaming && !update.chunks.isEmpty then ⟨.header, number - 1⟩ else ⟨.diff, number⟩

namespace Place

/-- **The next line.** -/
def step (streaming : Bool) (place : Place) (number : Nat) (line : Text) : Reading :=
  match place with
  | .between => readHeader number line
  | .adding path added =>
      match line with
      | '+' :: content => .ok ([], .adding path (added ++ [content]))
      | _ =>
          completing (.ok [.addFile path (added.flatMap fun line => line ++ ['\n'])])
            (readHeader number line)
  | .updating belowHeader update =>
      match if belowHeader then line.stripStart moveToMarker else none with
      | some path => .ok ([], .updating false { update with movePath := some path })
      | none => readUpdate streaming update number line
  | .marked update context =>
      match diffLine ⟨context, [], [], false⟩ line with
      | some chunk => .ok ([], .inChunk update chunk)
      | none => .error (unmarked streaming update number)
  | .inChunk update chunk =>
      match diffLine chunk line with
      | some chunk => .ok ([], .inChunk update chunk)
      | none =>
          if line = eofMarker then
            .ok ([], .updating false (update.add { chunk with isEndOfFile := true }))
          else readUpdate streaming (update.add chunk) number line

/-- **The end of the lines**, where the next one would have the number. -/
def finish (streaming : Bool) (place : Place) (number : Nat) : Except Stuck (List Hunk) :=
  match place with
  | .between => .ok []
  | .adding path added => .ok [.addFile path (added.flatMap fun line => line ++ ['\n'])]
  | .updating _ update => update.close
  | .marked update _ => .error (unmarked streaming update number)
  | .inChunk update chunk => (update.add chunk).close

end Place

/-- What is complete already, before the rest. -/
def prepending (hunks : List Hunk) : Except Stuck (List Hunk) → Except Stuck (List Hunk)
  | .error stuck => .error stuck
  | .ok more => .ok (hunks ++ more)

/-- **All lines**, from a place on; the first has the number. -/
def readLines (streaming : Bool) : Place → Nat → List Text → Except Stuck (List Hunk)
  | place, number, [] => place.finish streaming number
  | place, number, line :: rest =>
      match place.step streaming number line with
      | .error stuck => .error stuck
      | .ok (hunks, next) => prepending hunks (readLines streaming next (number + 1) rest)

/-- The number that the parser reports: it takes the first line of a hunk for the one below a
    context marker. -/
def Stuck.reported (stuck : Stuck) : Nat :=
  if stuck.kind = .bare then stuck.line + 1 else stuck.line

/-- The parser's result is what the reader says. -/
def Agrees (parsed : Except ParseError (List Hunk)) (read : Except Stuck (List Hunk)) : Prop :=
  match read with
  | .ok hunks => parsed = .ok hunks
  | .error stuck => ∃ message, parsed = .error (.invalidHunkError message stuck.reported)

/-! ### Chunks -/

variable {streaming : Bool} {update : OpenUpdate} {chunk next : UpdateFileChunk} {line : Text}
  {rest lines : List Text} {number parsed : Nat}

/-- The rest of the lines after what a line completes. -/
def resume (streaming : Bool) (reading : Reading) (number : Nat) (rest : List Text) :
    Except Stuck (List Hunk) :=
  match reading with
  | .error stuck => .error stuck
  | .ok (hunks, next) => prepending hunks (readLines streaming next number rest)

theorem readLines_cons (streaming : Bool) (place : Place) (number : Nat) (line : Text)
    (rest : List Text) :
    readLines streaming place number (line :: rest) =
      resume streaming (place.step streaming number line) (number + 1) rest := rfl

theorem readLines_updating (streaming : Bool) (update : OpenUpdate) (number : Nat) (line : Text)
    (rest : List Text) :
    readLines streaming (.updating false update) number (line :: rest) =
      resume streaming (readUpdate streaming update number line) (number + 1) rest := rfl

@[simp] theorem prepending_nil (read : Except Stuck (List Hunk)) : prepending [] read = read := by
  cases read <;> rfl

theorem prepending_prepending (a b : List Hunk) (read : Except Stuck (List Hunk)) :
    prepending a (prepending b read) = prepending (a ++ b) read := by
  cases read with
  | error stuck => rfl
  | ok hunks => exact congrArg Except.ok (List.append_assoc a b hunks).symm

/-- What follows complete hunks. -/
def following (hunks read : Except Stuck (List Hunk)) : Except Stuck (List Hunk) :=
  match hunks with
  | .error stuck => .error stuck
  | .ok hunks => prepending hunks read

theorem resume_completing (hunks : Except Stuck (List Hunk)) (reading : Reading) :
    resume streaming (completing hunks reading) number rest =
      following hunks (resume streaming reading number rest) := by
  cases hunks with
  | error stuck => rfl
  | ok hunks =>
    cases reading with
    | error stuck => rfl
    | ok result => exact (prepending_prepending hunks result.1 _).symm

theorem resume_nil (place : Place) :
    resume streaming (.ok ([], place)) number rest = readLines streaming place number rest :=
  prepending_nil _

theorem ne_eofMarker (h : line.head? ≠ some '*') : line ≠ eofMarker := by
  rintro rfl
  exact h rfl

theorem diffLine_eofMarker (chunk : UpdateFileChunk) : diffLine chunk eofMarker = none := rfl

theorem head?_of_diffLine (h : diffLine chunk line = some next) : line.head? ≠ some '*' := by
  unfold diffLine at h
  split at h
  all_goals simp at h ⊢

/-- A diff line goes to the chunk. -/
theorem chunkBody_diffLine (h : diffLine chunk line = some next) :
    chunkBody number chunk parsed (line :: rest) = chunkBody number next (parsed + 1) rest := by
  have hne : line ≠ eofMarker := ne_eofMarker (head?_of_diffLine h)
  unfold diffLine at h
  split at h
  · obtain rfl := Option.some.inj h
    rw [chunkBody, if_neg hne]
  · obtain rfl := Option.some.inj h
    rw [chunkBody, if_neg hne]
  · obtain rfl := Option.some.inj h
    rw [chunkBody, if_neg hne]
  · obtain rfl := Option.some.inj h
    rw [chunkBody, if_neg hne]
  · cases h

/-- Any other line ends a chunk that has lines, and is an error in one that has none. -/
theorem chunkBody_other (h : diffLine chunk line = none) (number parsed : Nat)
    (rest : List Text) :
    (0 < parsed → chunkBody number chunk parsed (line :: rest) =
      .ok (if line = eofMarker then ({ chunk with isEndOfFile := true }, parsed + 1)
        else (chunk, parsed))) ∧
      (parsed = 0 → ∃ message, chunkBody number chunk parsed (line :: rest) =
        .error (.invalidHunkError message (number + 1))) := by
  unfold chunkBody
  by_cases heof : line = eofMarker
  · rw [if_pos heof, if_pos heof]
    constructor
    · intro hpos
      rw [if_neg (by omega)]
    · intro hzero
      rw [if_pos hzero]
      exact ⟨_, rfl⟩
  · rw [if_neg heof, if_neg heof]
    unfold diffLine at h
    split at h
    · cases h
    · cases h
    · cases h
    · cases h
    · constructor
      · intro hpos
        have hne : ¬ parsed = 0 := by omega
        simp only [if_neg hne]
      · intro hzero
        simp only [if_pos hzero, Except.error.injEq, ParseError.invalidHunkError.injEq, and_true]
        exact ⟨_, rfl⟩

/-- **The body of a chunk** that has a line. -/
theorem chunkBody_readLines (streaming : Bool) (number : Nat) (update : OpenUpdate)
    (chunk : UpdateFileChunk) (parsed n : Nat) (lines : List Text) (hpos : 0 < parsed) :
    ∃ last taken, chunkBody number chunk parsed lines = .ok (last, parsed + taken) ∧
      taken ≤ lines.length ∧ readLines streaming (.inChunk update chunk) n lines =
        readLines streaming (.updating false (update.add last)) (n + taken)
          (lines.drop taken) := by
  induction lines generalizing chunk parsed n with
  | nil => exact ⟨chunk, 0, rfl, Nat.le_refl _, rfl⟩
  | cons line rest ih =>
    cases hdiff : diffLine chunk line with
    | some next =>
      obtain ⟨last, taken, hbody, hle, hread⟩ := ih next (parsed + 1) (n + 1) (Nat.succ_pos _)
      refine ⟨last, taken + 1, ?_, Nat.succ_le_succ hle, ?_⟩
      · rw [chunkBody_diffLine hdiff, hbody]
        congr 2
        omega
      · rw [readLines_cons]
        unfold Place.step
        simp only [hdiff]
        rw [resume_nil, hread, Nat.add_assoc, Nat.add_comm 1 taken]
        rfl
    | none =>
      have hbody := (chunkBody_other hdiff number parsed rest).1 hpos
      by_cases heof : line = eofMarker
      · rw [if_pos heof] at hbody
        refine ⟨_, 1, hbody, by simp, ?_⟩
        rw [readLines_cons]
        unfold Place.step
        simp only [hdiff]
        rw [if_pos heof, resume_nil]
        rfl
      · rw [if_neg heof] at hbody
        refine ⟨_, 0, hbody, Nat.zero_le _, ?_⟩
        rw [readLines_cons]
        unfold Place.step
        simp only [hdiff]
        rw [if_neg heof]
        rfl

/-- The context marker of the parser. -/
theorem chunkContext_eq (line : Text) (number : Nat) (allow : Bool) :
    (∃ context, contextOf line = some context ∧
      chunkContext line number allow = .ok (context, 1)) ∨
      (contextOf line = none ∧ (allow = true ∧ chunkContext line number allow = .ok (none, 0) ∨
        allow = false ∧ ∃ message, chunkContext line number allow =
          .error (.invalidHunkError message number))) := by
  unfold contextOf chunkContext
  by_cases hempty : line = emptyChangeContextMarker
  · rw [if_pos hempty, if_pos hempty]
    exact .inl ⟨none, rfl, rfl⟩
  · rw [if_neg hempty, if_neg hempty]
    cases line.stripStart changeContextMarker with
    | some context => exact .inl ⟨some context, rfl, rfl⟩
    | none =>
      cases allow with
      | true => exact .inr ⟨rfl, .inl ⟨rfl, rfl⟩⟩
      | false => exact .inr ⟨rfl, .inr ⟨rfl, _, rfl⟩⟩

/-- **A chunk with a context marker.** -/
theorem parseUpdateFileChunk_marked {context : Option Text} (update : OpenUpdate)
    (hcontext : contextOf line = some context) (number : Nat) (allow : Bool)
    (rest : List Text) :
    (∃ chunk taken, parseUpdateFileChunk (line :: rest) number allow = .ok (chunk, taken) ∧
      taken ≤ (line :: rest).length ∧
        readLines streaming (.marked update context) (number + 1) rest =
          readLines streaming (.updating false (update.add chunk)) (number + taken)
            ((line :: rest).drop taken)) ∨
      ∃ message, parseUpdateFileChunk (line :: rest) number allow =
          .error (.invalidHunkError message (number + 1)) ∧
        readLines streaming (.marked update context) (number + 1) rest =
          .error (unmarked streaming update (number + 1)) := by
  have hmarker : chunkContext line number allow = .ok (context, 1) := by
    rcases chunkContext_eq line number allow with ⟨context', hsome, hok⟩ | ⟨hnone, -⟩
    · rw [hok, Option.some.inj (hcontext.symm.trans hsome)]
    · rw [hcontext] at hnone
      cases hnone
  unfold parseUpdateFileChunk
  simp only [hmarker]
  cases rest with
  | nil => exact .inr ⟨_, rfl, rfl⟩
  | cons below rest =>
    have hlong : ¬ (line :: below :: rest).length ≤ 1 := by simp
    simp only [if_neg hlong]
    have hdrop : (line :: below :: rest).drop 1 = below :: rest := rfl
    rw [hdrop, readLines_cons]
    unfold Place.step
    cases hdiff : diffLine ⟨context, [], [], false⟩ below with
    | none =>
      obtain ⟨message, hbody⟩ := (chunkBody_other hdiff number 0 rest).2 rfl
      refine .inr ⟨message, by rw [hbody], ?_⟩
      simp only [hdiff]
      rfl
    | some next =>
      obtain ⟨last, taken, hbody, hle, hread⟩ :=
        chunkBody_readLines streaming number update next 1
          (number + 1 + 1) rest Nat.one_pos
      refine .inl ⟨last, taken + 1 + 1, ?_, ?_, ?_⟩
      · rw [chunkBody_diffLine hdiff, hbody, Nat.add_comm 1 taken]
      · simp only [List.length_cons]
        omega
      · simp only [hdiff]
        rw [resume_nil, hread]
        congr 1
        omega

/-- **A chunk without a context marker**, at the start of a hunk. -/
theorem parseUpdateFileChunk_bare (streaming : Bool) (update : OpenUpdate)
    (hcontext : contextOf line = none) (number : Nat) (rest : List Text) :
    match diffLine ⟨none, [], [], false⟩ line with
    | some next =>
        ∃ chunk taken, parseUpdateFileChunk (line :: rest) number true = .ok (chunk, taken) ∧
          taken ≤ (line :: rest).length ∧
            readLines streaming (.inChunk update next) (number + 1) rest =
              readLines streaming (.updating false (update.add chunk)) (number + taken)
                ((line :: rest).drop taken)
    | none =>
        ∃ message, parseUpdateFileChunk (line :: rest) number true =
          .error (.invalidHunkError message (number + 1)) := by
  have hbare : chunkContext line number true = .ok (none, 0) := by
    rcases chunkContext_eq line number true with ⟨context', hsome, -⟩ | ⟨-, ⟨-, hok⟩ | ⟨hno, -⟩⟩
    · rw [hcontext] at hsome
      cases hsome
    · exact hok
    · cases hno
  have hlong : ¬ (line :: rest).length ≤ 0 := by simp
  unfold parseUpdateFileChunk
  simp only [hbare, if_neg hlong, List.drop_zero]
  cases hdiff : diffLine ⟨none, [], [], false⟩ line with
  | none =>
    obtain ⟨message, hbody⟩ := (chunkBody_other hdiff number 0 rest).2 rfl
    refine ⟨message, ?_⟩
    rw [hbody]
  | some next =>
    obtain ⟨last, taken, hbody, hle, hread⟩ :=
      chunkBody_readLines streaming number update next 1
        (number + 1) rest Nat.one_pos
    refine ⟨last, taken + 1, ?_, ?_, ?_⟩
    · rw [chunkBody_diffLine hdiff, hbody, Nat.add_comm 1 taken]
    · simp only [List.length_cons]
      omega
    · rw [hread]
      congr 1
      omega

/-! ### Hunks -/

theorem following_ok_nil (hunks : Except Stuck (List Hunk)) :
    following hunks (.ok []) = hunks := by
  cases hunks with
  | error stuck => rfl
  | ok hunks => exact congrArg Except.ok (List.append_nil hunks)

/-- Headers start with a star. -/
theorem readHeader_of_head (h : line.trim.head? ≠ some '*') (number : Nat) :
    readHeader number line = .error ⟨.header, number⟩ := by
  have hno : ∀ marker : Text, marker.head? = some '*' → line.trim.stripStart marker = none := by
    intro marker hmarker
    cases hstrip : line.trim.stripStart marker with
    | none => rfl
    | some rest =>
      rw [Text.stripStart_eq_some_iff.mp hstrip, List.head?_append, hmarker] at h
      exact absurd rfl h
  unfold readHeader
  rw [hno addFileMarker rfl, hno deleteFileMarker rfl, hno updateFileMarker rfl]

/-- Context markers start with an at-sign. -/
theorem head?_of_contextOf {context : Option Text} (h : contextOf line = some context) :
    line.head? = some '@' := by
  unfold contextOf at h
  by_cases hempty : line = emptyChangeContextMarker
  · rw [hempty]
    rfl
  · rw [if_neg hempty] at h
    obtain ⟨rest, hrest, -⟩ := Option.map_eq_some_iff.mp h
    rw [Text.stripStart_eq_some_iff.mp hrest]
    rfl

theorem readHeader_of_contextOf {context : Option Text} (h : contextOf line = some context)
    (number : Nat) : readHeader number line = .error ⟨.header, number⟩ := by
  refine readHeader_of_head ?_ number
  have htrim : line.trim.head? = some '@' :=
    Text.head?_trimBy (by decide) (head?_of_contextOf h)
  rw [htrim]
  decide

/-- What one run of the chunk loop has in common with the reader: the chunks and the lines they
    take, or the line where both stop. -/
def ChunksAgree (streaming : Bool) (update : OpenUpdate) (parsed : Nat) (lines : List Text)
    (result : Except ParseError (List UpdateFileChunk × Nat)) : Prop :=
  (∃ chunks taken, result = .ok (chunks, parsed + taken) ∧ taken ≤ lines.length ∧
    readLines streaming (.updating false update) (update.line + parsed) lines =
      following { update with chunks := chunks }.close
        (readLines streaming .between (update.line + parsed + taken) (lines.drop taken))) ∨
    ∃ message stuck, result = .error (.invalidHunkError message stuck.reported) ∧
      readLines streaming (.updating false update) (update.line + parsed) lines = .error stuck

/-- The hunk ends before the line. -/
theorem chunksAgree_stop (update : OpenUpdate) (parsed : Nat) (line : Text) (rest : List Text)
    (h : readUpdate streaming update (update.line + parsed) line =
      completing update.close (readHeader (update.line + parsed) line)) :
    ChunksAgree streaming update parsed (line :: rest) (.ok (update.chunks, parsed)) := by
  refine .inl ⟨update.chunks, 0, rfl, Nat.zero_le _, ?_⟩
  rw [readLines_updating, h, resume_completing]
  rfl

/-- A chunk goes to the hunk. -/
theorem chunksAgree_chunk {chunk : UpdateFileChunk} {taken : Nat}
    {result : Except ParseError (List UpdateFileChunk × Nat)}
    (hle : taken ≤ lines.length)
    (hread : readLines streaming (.updating false update) (update.line + parsed) lines =
      readLines streaming (.updating false (update.add chunk)) (update.line + parsed + taken)
        (lines.drop taken))
    (hrest : ChunksAgree streaming (update.add chunk) (parsed + taken) (lines.drop taken) result) :
    ChunksAgree streaming update parsed lines result := by
  have hline : (update.add chunk).line = update.line := rfl
  rcases hrest with ⟨chunks, more, hresult, hmore, hfollow⟩ | ⟨message, stuck, hresult, hstuck⟩
  · rw [List.length_drop] at hmore
    refine .inl ⟨chunks, taken + more, ?_, by omega, ?_⟩
    · rw [hresult, Nat.add_assoc]
    · rw [hline, ← Nat.add_assoc, List.drop_drop] at hfollow
      rw [hread, hfollow, Nat.add_assoc (update.line + parsed)]
      rfl
  · rw [hline, ← Nat.add_assoc] at hstuck
    exact .inr ⟨message, stuck, hresult, hread.trans hstuck⟩

/-- The chunk loop agrees with the reader on lines that fit the fuel. -/
def LoopAgrees (streaming : Bool) (fuel : Nat) : Prop :=
  ∀ (update : OpenUpdate) (parsed : Nat) (lines : List Text), lines.length ≤ fuel →
    ChunksAgree streaming update parsed lines
      (updateChunks update.line streaming fuel update.chunks parsed lines)

/-- What the loop does with a line that is not blank and no header. -/
def takeChunk (streaming : Bool) (fuel : Nat) (update : OpenUpdate) (parsed : Nat) (line : Text)
    (rest : List Text) : Except ParseError (List UpdateFileChunk × Nat) :=
  match parseUpdateFileChunk (line :: rest) (update.line + parsed) update.chunks.isEmpty with
  | .ok (chunk, taken) =>
      updateChunks update.line streaming fuel (update.chunks ++ [chunk]) (parsed + taken)
        ((line :: rest).drop taken)
  | .error (.invalidHunkError message number) =>
      if streaming && !update.chunks.isEmpty then .ok (update.chunks, parsed)
      else .error (.invalidHunkError message number)
  | .error err => .error err

section Rounds

variable {fuel : Nat} {context : Option Text}

/-- A chunk that is parsed, and the rest of the loop. -/
theorem takeChunk_ok {chunk : UpdateFileChunk} {taken : Nat} (ih : LoopAgrees streaming fuel)
    (hfuel : rest.length ≤ fuel)
    (hparse : parseUpdateFileChunk (line :: rest) (update.line + parsed) update.chunks.isEmpty =
      .ok (chunk, taken))
    (hle : taken ≤ (line :: rest).length)
    (hread : readLines streaming (.updating false update) (update.line + parsed) (line :: rest) =
      readLines streaming (.updating false (update.add chunk)) (update.line + parsed + taken)
        ((line :: rest).drop taken)) :
    ChunksAgree streaming update parsed (line :: rest)
      (takeChunk streaming fuel update parsed line rest) := by
  have hpos := parseUpdateFileChunk_pos hparse
  unfold takeChunk
  rw [hparse]
  refine chunksAgree_chunk hle hread ?_
  refine ih (update.add chunk) (parsed + taken) _ ?_
  rw [List.length_drop, List.length_cons]
  omega

/-- The marker of a chunk that is not complete is no header. -/
theorem readLines_between_marker (hcontext : contextOf line = some context) (number : Nat) :
    readLines streaming .between number (line :: rest) = .error ⟨.header, number⟩ := by
  rw [readLines_cons]
  unfold Place.step
  rw [readHeader_of_contextOf hcontext]
  rfl

/-- **A round with a context marker.** -/
theorem takeChunk_marked (ih : LoopAgrees streaming fuel) (hfuel : rest.length ≤ fuel)
    (hcontext : contextOf line = some context)
    (hread : readUpdate streaming update (update.line + parsed) line =
      .ok ([], .marked update context)) :
    ChunksAgree streaming update parsed (line :: rest)
      (takeChunk streaming fuel update parsed line rest) := by
  have hupdate : readLines streaming (.updating false update) (update.line + parsed)
      (line :: rest) =
        readLines streaming (.marked update context) (update.line + parsed + 1) rest := by
    rw [readLines_updating, hread, resume_nil]
  rcases parseUpdateFileChunk_marked update hcontext (update.line + parsed)
    update.chunks.isEmpty rest with
    ⟨chunk, taken, hparse, hle, hrest⟩ | ⟨message, hparse, hstuck⟩
  · exact takeChunk_ok ih hfuel hparse hle (hupdate.trans hrest)
  · unfold takeChunk
    rw [hparse]
    simp only
    by_cases hkept : (streaming && !update.chunks.isEmpty) = true
    · rw [if_pos hkept]
      refine .inl ⟨update.chunks, 0, rfl, Nat.zero_le _, ?_⟩
      rw [hupdate, hstuck, unmarked, if_pos hkept, Nat.add_zero, List.drop_zero,
        readLines_between_marker hcontext]
      rw [Bool.and_eq_true, Bool.not_eq_true'] at hkept
      unfold OpenUpdate.close
      rw [hkept.2, if_neg (by simp)]
      rfl
    · rw [if_neg hkept]
      refine .inr ⟨message, ⟨.diff, update.line + parsed + 1⟩, rfl, ?_⟩
      rw [hupdate, hstuck, unmarked, if_neg hkept]

/-- **A round without one**: it starts the first chunk, or no chunk at all. -/
theorem takeChunk_bare (ih : LoopAgrees streaming fuel) (hfuel : rest.length ≤ fuel)
    (hcontext : contextOf line = none)
    (hread : readUpdate streaming update (update.line + parsed) line =
      if update.chunks.isEmpty then
        match diffLine ⟨none, [], [], false⟩ line with
        | some chunk => .ok ([], .inChunk update chunk)
        | none => .error ⟨.bare, update.line + parsed⟩
      else if streaming then completing update.close (readHeader (update.line + parsed) line)
      else .error ⟨.context, update.line + parsed⟩) :
    ChunksAgree streaming update parsed (line :: rest)
      (takeChunk streaming fuel update parsed line rest) := by
  have hupdate := readLines_updating streaming update (update.line + parsed) line rest
  cases hfirst : update.chunks.isEmpty with
  | true =>
    rw [hfirst, if_pos rfl] at hread
    have hbare := parseUpdateFileChunk_bare streaming update hcontext (update.line + parsed) rest
    cases hdiff : diffLine ⟨none, [], [], false⟩ line with
    | some next =>
      rw [hdiff] at hbare hread
      obtain ⟨chunk, taken, hparse, hle, hrest⟩ := hbare
      rw [hread, resume_nil] at hupdate
      rw [← hfirst] at hparse
      exact takeChunk_ok ih hfuel hparse hle (hupdate.trans hrest)
    | none =>
      rw [hdiff] at hbare hread
      obtain ⟨message, hparse⟩ := hbare
      unfold takeChunk
      rw [hfirst, hparse]
      refine .inr ⟨message, ⟨.bare, update.line + parsed⟩, ?_, ?_⟩
      · simp only [Bool.not_true, Bool.and_false, Bool.false_eq_true, if_false]
        rfl
      · rw [hupdate, hread]
        rfl
  | false =>
    rw [hfirst, if_neg (by simp)] at hread
    have hparse : ∃ message, parseUpdateFileChunk (line :: rest) (update.line + parsed) false =
        .error (.invalidHunkError message (update.line + parsed)) := by
      rcases chunkContext_eq line (update.line + parsed) false with
        ⟨context, hsome, -⟩ | ⟨-, ⟨hyes, -⟩ | ⟨-, message, herror⟩⟩
      · rw [hcontext] at hsome
        cases hsome
      · cases hyes
      · refine ⟨message, ?_⟩
        unfold parseUpdateFileChunk
        simp only [herror]
    obtain ⟨message, hparse⟩ := hparse
    unfold takeChunk
    rw [hfirst, hparse]
    cases streaming with
    | true => exact chunksAgree_stop update parsed line rest hread
    | false =>
      refine .inr ⟨message, ⟨.context, update.line + parsed⟩, rfl, ?_⟩
      rw [hupdate, hread]
      rfl

end Rounds

/-- **The chunk loop** and the reader. -/
theorem updateChunks_readLines (streaming : Bool) (fuel : Nat) : LoopAgrees streaming fuel := by
  induction fuel with
  | zero =>
    intro update parsed lines hfuel
    obtain rfl : lines = [] := List.length_eq_zero_iff.mp (Nat.le_zero.mp hfuel)
    exact .inl ⟨update.chunks, 0, rfl, Nat.le_refl _, (following_ok_nil _).symm⟩
  | succ fuel ih =>
    intro update parsed lines hfuel
    cases lines with
    | nil => exact .inl ⟨update.chunks, 0, rfl, Nat.le_refl _, (following_ok_nil _).symm⟩
    | cons line rest =>
      rw [List.length_cons] at hfuel
      have hrest : rest.length ≤ fuel := Nat.le_of_succ_le_succ hfuel
      unfold updateChunks
      by_cases hblank : line.trim.isEmpty = true
      · rw [if_pos hblank]
        -- a blank line is skipped
        have hskip : readLines streaming (.updating false update) (update.line + parsed)
            (line :: rest) =
              readLines streaming (.updating false update) (update.line + parsed + 1) rest := by
          rw [readLines_updating, readUpdate, if_pos hblank, resume_nil]
        rcases ih update (parsed + 1) rest hrest with
          ⟨chunks, taken, hresult, hle, hfollow⟩ | ⟨message, stuck, hresult, hstuck⟩
        · refine .inl ⟨chunks, taken + 1, ?_, Nat.succ_le_succ hle, ?_⟩
          · rw [hresult]
            congr 2
            omega
          · rw [hskip, Nat.add_assoc, hfollow]
            congr 2
            omega
        · exact .inr ⟨message, stuck, hresult, hskip.trans hstuck⟩
      rw [if_neg hblank]
      by_cases hstar : line.head? = some '*'
      · rw [if_pos hstar]
        refine chunksAgree_stop update parsed line rest ?_
        rw [readUpdate, if_neg hblank, if_pos hstar]
      rw [if_neg hstar]
      by_cases hat : streaming = true ∧ line = ['@']
      · rw [if_pos hat]
        refine chunksAgree_stop update parsed line rest ?_
        rw [readUpdate, if_neg hblank, if_neg hstar, if_pos hat]
      rw [if_neg hat]
      show ChunksAgree _ _ _ _ (takeChunk streaming fuel update parsed line rest)
      cases hcontext : contextOf line with
      | some context =>
        refine takeChunk_marked ih hrest hcontext ?_
        rw [readUpdate, if_neg hblank, if_neg hstar, if_neg hat, hcontext]
      | none =>
        refine takeChunk_bare ih hrest hcontext ?_
        rw [readUpdate, if_neg hblank, if_neg hstar, if_neg hat, hcontext]

/-- The lines an add hunk adds. -/
theorem readLines_adding (streaming : Bool) (path : Text) (added : List Text) (number : Nat)
    (lines : List Text) :
    (addedLines lines).length ≤ lines.length ∧
      readLines streaming (.adding path added) number lines =
        prepending [.addFile path ((added ++ addedLines lines).flatMap fun line => line ++ ['\n'])]
          (readLines streaming .between (number + (addedLines lines).length)
            (lines.drop (addedLines lines).length)) := by
  induction lines generalizing added number with
  | nil =>
    refine ⟨Nat.le_refl _, ?_⟩
    rw [show addedLines [] = [] from rfl, List.append_nil]
    rfl
  | cons line rest ih =>
    by_cases hplus : line.head? = some '+'
    · obtain ⟨content, rfl⟩ := List.head?_eq_some_iff.mp hplus
      obtain ⟨hle, hread⟩ := ih (added ++ [content]) (number + 1)
      refine ⟨Nat.succ_le_succ hle, ?_⟩
      rw [readLines_cons]
      unfold Place.step
      simp only
      rw [resume_nil, hread, addedLines, List.length_cons, List.append_assoc, Nat.add_assoc,
        Nat.add_comm 1]
      rfl
    · have hnone : addedLines (line :: rest) = [] := by
        unfold addedLines
        split
        · next heq =>
          obtain ⟨rfl, -⟩ := List.cons.inj heq
          exact absurd rfl hplus
        · rfl
      refine ⟨by rw [hnone]; exact Nat.zero_le _, ?_⟩
      rw [hnone, readLines_cons]
      unfold Place.step
      simp only
      split
      · exact absurd rfl hplus
      · rw [resume_completing, List.append_nil]
        rfl

/-- **One hunk**: the parser and the reader take the same lines for it, or stop at the same
    line. -/
theorem parseOneHunk_readLines (streaming : Bool) (first : Text) (rest : List Text)
    (number : Nat) :
    (∃ hunk taken, parseOneHunk first rest number streaming = .ok (hunk, taken) ∧
      readLines streaming .between number (first :: rest) =
        prepending [hunk] (readLines streaming .between (number + taken)
          ((first :: rest).drop taken))) ∨
      ∃ message stuck, parseOneHunk first rest number streaming =
          .error (.invalidHunkError message stuck.reported) ∧
        readLines streaming .between number (first :: rest) = .error stuck := by
  rw [readLines_cons]
  unfold parseOneHunk Place.step readHeader
  simp only
  cases first.trim.stripStart addFileMarker with
  | some path =>
    simp only
    obtain ⟨-, hread⟩ := readLines_adding streaming path [] (number + 1) rest
    refine .inl ⟨_, _, rfl, ?_⟩
    rw [resume_nil, hread, Nat.add_assoc, Nat.add_comm 1]
    rfl
  | none =>
    simp only
    cases first.trim.stripStart deleteFileMarker with
    | some path => exact .inl ⟨_, 1, rfl, rfl⟩
    | none =>
      simp only
      cases first.trim.stripStart updateFileMarker with
      | none =>
        refine .inr ⟨_, ⟨.header, number⟩, rfl, rfl⟩
      | some path =>
        simp only
        rw [resume_nil]
        -- the destination, if given, is the line below the header
        obtain ⟨movePath, moveLines, remaining, hmove, hlines, hremaining, hread⟩ :
            ∃ (movePath : Option Text) (moveLines : Nat) (remaining : List Text),
              (rest.head?.bind fun line => line.stripStart moveToMarker) = movePath ∧
                (if movePath.isSome then 1 else 0) = moveLines ∧
                  rest.drop moveLines = remaining ∧
                    readLines streaming (.updating true ⟨number, path, none, []⟩) (number + 1)
                        rest =
                      readLines streaming (.updating false ⟨number, path, movePath, []⟩)
                        (number + (1 + moveLines)) remaining := by
          cases rest with
          | nil => exact ⟨none, 0, [], rfl, rfl, rfl, rfl⟩
          | cons below rest =>
            cases hdest : below.stripStart moveToMarker with
            | none =>
              refine ⟨none, 0, below :: rest, hdest, rfl, rfl, ?_⟩
              rw [readLines_cons, readLines_cons]
              unfold Place.step
              simp only [if_true, hdest, Bool.false_eq_true, if_false, Nat.add_zero]
            | some dest =>
              refine ⟨some dest, 1, rest, hdest, rfl, rfl, ?_⟩
              rw [readLines_cons]
              unfold Place.step
              simp only [if_true, hdest]
              rw [resume_nil]
        rw [hread, hmove, hlines, hremaining]
        rcases updateChunks_readLines streaming remaining.length ⟨number, path, movePath, []⟩
          (1 + moveLines) remaining (Nat.le_refl _) with
          ⟨chunks, taken, hresult, hle, hfollow⟩ | ⟨message, stuck, hresult, hstuck⟩
        · simp only at hresult hfollow
          rw [hresult, hfollow]
          unfold OpenUpdate.close
          cases hnone : chunks.isEmpty with
          | true =>
            simp only [hnone, if_true]
            exact .inr ⟨_, ⟨.emptyUpdate, number⟩, rfl, rfl⟩
          | false =>
            simp only [hnone, Bool.false_eq_true, if_false]
            refine .inl ⟨_, _, rfl, ?_⟩
            unfold following
            congr 2
            · omega
            · rw [← hremaining, List.drop_drop, Nat.add_comm 1 moveLines, Nat.add_right_comm]
              rfl
        · simp only at hresult hstuck
          rw [hresult, hstuck]
          exact .inr ⟨message, stuck, rfl, rfl⟩

/-- **The parser reads what the reader reads**, and fails where the reader is stuck. -/
theorem parseHunks_readLines (streaming : Bool) (fuel number : Nat) (lines : List Text)
    (hfuel : lines.length ≤ fuel) :
    Agrees (parseHunks streaming fuel number lines)
      (readLines streaming .between number lines) := by
  induction fuel generalizing number lines with
  | zero =>
    obtain rfl : lines = [] := List.length_eq_zero_iff.mp (Nat.le_zero.mp hfuel)
    rfl
  | succ fuel ih =>
    cases lines with
    | nil => rfl
    | cons first rest =>
      unfold parseHunks
      rcases parseOneHunk_readLines streaming first rest number with
        ⟨hunk, taken, hparse, hread⟩ | ⟨message, stuck, hparse, hstuck⟩
      · have hpos := parseOneHunk_pos hparse
        have hrest := ih (number + taken) ((first :: rest).drop taken) (by
          rw [List.length_drop, List.length_cons]
          rw [List.length_cons] at hfuel
          omega)
        rw [hread, hparse]
        simp only
        cases hmore : readLines streaming .between (number + taken)
          ((first :: rest).drop taken) with
        | error stuck =>
          rw [hmore] at hrest
          obtain ⟨message, hfail⟩ := hrest
          rw [hfail]
          exact ⟨message, rfl⟩
        | ok hunks =>
          rw [hmore] at hrest
          have hok : parseHunks streaming fuel (number + taken) ((first :: rest).drop taken) =
            .ok hunks := hrest
          rw [hok]
          rfl
      · rw [hparse, hstuck]
        exact ⟨message, rfl⟩

end CodexMonitor.ApplyPatch
