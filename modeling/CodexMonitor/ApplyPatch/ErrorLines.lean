import CodexMonitor.ApplyPatch.LineReader

namespace CodexMonitor.ApplyPatch

/-!
# Apply patch — the line an error names

An `InvalidHunkError` names a line by its number, with the begin marker as line one.  It is the
first line that cannot be taken, but for one case: where a hunk starts without a context marker,
the number is that of the line below.

* `firstStuck` — the first line of a patch that cannot be taken.
* `readLines_bounded` — its number is that of a line between the header that is open and the end.
* `invalidHunkError_line` — the number that is reported.
-/

/-! ### Where the reader can be stuck -/

/-- The number of the header of the update hunk that is being read. -/
def Place.headerLine : Place → Nat
  | .between => 0
  | .adding _ _ => 0
  | .updating _ update => update.line
  | .marked update _ => update.line
  | .inChunk update _ => update.line

/-- A line is stuck at its own number or at that of a header above it. -/
def Bounded (number : Nat) (reading : Reading) : Prop :=
  match reading with
  | .error stuck => stuck.line ≤ number
  | .ok (_, place) => place.headerLine ≤ number

variable {streaming : Bool} {update : OpenUpdate} {line : Text} {number : Nat} {place : Place}
  {lines : List Text} {stuck : Stuck}

theorem bounded_readHeader (number : Nat) (line : Text) :
    Bounded number (readHeader number line) := by
  unfold readHeader
  split
  · exact Nat.zero_le _
  · split
    · exact Nat.zero_le _
    · split
      · exact Nat.le_refl _
      · exact Nat.le_refl _

theorem close_line (h : update.close = .error stuck) : stuck = ⟨.emptyUpdate, update.line⟩ := by
  unfold OpenUpdate.close at h
  split at h
  · exact (Except.error.inj h).symm
  · cases h

theorem bounded_completing {hunks : Except Stuck (List Hunk)} {reading : Reading}
    (hhunks : ∀ stuck, hunks = .error stuck → stuck.line ≤ number)
    (hreading : Bounded number reading) : Bounded number (completing hunks reading) := by
  cases hunks with
  | error stuck => exact hhunks stuck rfl
  | ok hunks =>
    cases reading with
    | error stuck => exact hreading
    | ok result => exact hreading

theorem bounded_close (hline : update.line ≤ number) (line : Text) :
    Bounded number (completing update.close (readHeader number line)) := by
  refine bounded_completing ?_ (bounded_readHeader number line)
  intro stuck hclose
  rw [close_line hclose]
  exact hline

theorem bounded_readUpdate (streaming : Bool) (hline : update.line ≤ number) (line : Text) :
    Bounded number (readUpdate streaming update number line) := by
  unfold readUpdate
  split
  · exact hline
  · split
    · exact bounded_close hline line
    · split
      · exact bounded_close hline line
      · split
        · exact hline
        · split
          · split
            · exact hline
            · exact Nat.le_refl _
          · split
            · exact bounded_close hline line
            · exact Nat.le_refl _

theorem unmarked_line_le (streaming : Bool) (update : OpenUpdate) (number : Nat) :
    (unmarked streaming update number).line ≤ number := by
  unfold unmarked
  split
  · exact Nat.sub_le _ _
  · exact Nat.le_refl _

/-- **One line**: the reader is stuck at it or at the header above it. -/
theorem bounded_step (streaming : Bool) (hplace : place.headerLine ≤ number) (line : Text) :
    Bounded number (place.step streaming number line) := by
  unfold Place.step
  cases place with
  | between => exact bounded_readHeader number line
  | adding path added =>
    simp only
    split
    · exact Nat.zero_le _
    · refine bounded_completing ?_ (bounded_readHeader number _)
      intro stuck hclose
      cases hclose
  | updating belowHeader update =>
    simp only
    split
    · exact hplace
    · exact bounded_readUpdate streaming hplace line
  | marked update context =>
    simp only
    split
    · exact hplace
    · exact unmarked_line_le streaming update number
  | inChunk update chunk =>
    simp only
    split
    · exact hplace
    · split
      · exact hplace
      · have hline : (update.add chunk).line ≤ number := hplace
        exact bounded_readUpdate streaming hline line

/-- At the end no line is stuck that is only the first of its hunk. -/
theorem finish_line (hplace : place.headerLine ≤ number)
    (h : place.finish streaming number = .error stuck) :
    stuck.line ≤ number ∧ stuck.kind ≠ .bare := by
  unfold Place.finish at h
  cases place with
  | between => cases h
  | adding path added => cases h
  | updating belowHeader update =>
    rw [close_line h]
    exact ⟨hplace, StuckKind.noConfusion⟩
  | marked update context =>
    obtain rfl := Except.error.inj h
    refine ⟨unmarked_line_le streaming update number, ?_⟩
    unfold unmarked
    split
    · exact StuckKind.noConfusion
    · exact StuckKind.noConfusion
  | inChunk update chunk =>
    rw [close_line h]
    exact ⟨hplace, StuckKind.noConfusion⟩

/-- **All lines**: the reader is stuck at one of them, at the end, or at a header above; a first
    line of a hunk is one of the lines. -/
theorem readLines_bounded (hplace : place.headerLine ≤ number)
    (h : readLines streaming place number lines = .error stuck) :
    stuck.reported ≤ number + lines.length := by
  induction lines generalizing place number with
  | nil =>
    obtain ⟨hle, hkind⟩ := finish_line hplace h
    unfold Stuck.reported
    rw [if_neg hkind]
    exact hle
  | cons line rest ih =>
    have hbounded := bounded_step streaming hplace line
    rw [readLines_cons] at h
    rw [List.length_cons]
    cases hstep : place.step streaming number line with
    | error stuck' =>
      rw [hstep] at h hbounded
      obtain rfl := Except.error.inj h
      have hle : stuck'.line ≤ number := hbounded
      unfold Stuck.reported
      split
      · omega
      · omega
    | ok result =>
      obtain ⟨hunks, next⟩ := result
      rw [hstep] at h hbounded
      have hle : next.headerLine ≤ number := hbounded
      unfold resume at h
      cases hrest : readLines streaming next (number + 1) rest with
      | error stuck' =>
        simp only [hrest] at h
        obtain rfl := Except.error.inj h
        have hreported := ih (by omega) hrest
        omega
      | ok hunks =>
        simp only [hrest] at h
        cases h

/-! ### What the parser reports -/

/-- The lines between the markers of a patch. -/
def hunkLines (patch : Text) : List Text := patch.trim.lines.tail.dropLast

/-- **The first line of a patch that cannot be taken**, numbered from the begin marker on. -/
def firstStuck (patch : Text) : Option Stuck :=
  match readLines false .between 2 (hunkLines patch) with
  | .error stuck => some stuck
  | .ok _ => none

/-- The line that cannot be taken is the first one of an update hunk, and is neither a context
    marker nor a diff line. -/
def StuckAtBareStart (patch : Text) : Prop := ∃ number, firstStuck patch = some ⟨.bare, number⟩

/-- A patch with markers has both of them. -/
theorem length_hunkLines {patch : Text} {boundaries : Boundaries}
    (h : checkPatchBoundariesStrict patch.trim.lines = .ok boundaries) :
    boundaries = (patch.trim.lines, hunkLines patch) ∧
      (hunkLines patch).length + 2 = patch.trim.lines.length := by
  unfold checkPatchBoundariesStrict at h
  cases hcheck : checkStartAndEndLinesStrict patch.trim.lines.head? patch.trim.lines.getLast? with
  | error err =>
    rw [hcheck] at h
    cases h
  | ok passed =>
    rw [hcheck] at h
    refine ⟨(Except.ok.inj h).symm, ?_⟩
    unfold hunkLines
    cases hlines : patch.trim.lines with
    | nil =>
      rw [hlines] at hcheck
      cases hcheck
    | cons first rest =>
      cases rest with
      | nil =>
        -- one line cannot be both markers
        rw [hlines] at hcheck
        unfold checkStartAndEndLinesStrict at hcheck
        simp only [List.head?_cons, List.getLast?_singleton, Option.map_some] at hcheck
        by_cases hfirst : first.trim = beginPatchMarker
        · have hlast : first.trim ≠ endPatchMarker := by
            rw [hfirst]
            decide
          rw [if_neg fun hboth => hlast hboth.2, if_neg (not_not.mpr hfirst)] at hcheck
          cases hcheck
        · rw [if_neg fun hboth => hfirst hboth.1, if_pos hfirst] at hcheck
          cases hcheck
      | cons second rest => simp

/-- **The number that is reported** is at most the number of lines of the patch, and it is that of
    the first line that cannot be taken, exactly if that line is not the first line of an update
    hunk that starts without a context marker. -/
theorem invalidHunkError_line {patch message : Text} {number : Nat}
    (h : parsePatchText patch .strict = .error (.invalidHunkError message number)) :
    number ≤ patch.trim.lines.length ∧
      ((firstStuck patch).map Stuck.line = some number ↔ ¬ StuckAtBareStart patch) := by
  unfold parsePatchText at h
  simp only at h
  cases hcheck : checkPatchBoundariesStrict patch.trim.lines with
  | error err =>
    rw [hcheck] at h
    -- the markers are no hunks, and their errors have no line
    unfold checkPatchBoundariesStrict checkStartAndEndLinesStrict at hcheck
    simp only at h hcheck
    obtain rfl := Except.error.inj h
    split at hcheck
    · next hstart =>
      obtain rfl := Except.error.inj hcheck
      split at hstart
      · split at hstart
        · cases hstart
        · split at hstart <;> cases hstart
      · split at hstart <;> cases hstart
      · cases hstart
    · cases hcheck
  | ok boundaries =>
    obtain ⟨rfl, hlength⟩ := length_hunkLines hcheck
    rw [hcheck] at h
    have hagrees := parseHunks_readLines false (hunkLines patch).length 2 (hunkLines patch)
      (Nat.le_refl _)
    have hmode : decide (ParseMode.strict = ParseMode.streaming) = false := by decide
    simp only [hmode] at h
    unfold StuckAtBareStart firstStuck
    cases hread : readLines false .between 2 (hunkLines patch) with
    | ok hunks =>
      rw [hread] at hagrees
      have hok : parseHunks false (hunkLines patch).length 2 (hunkLines patch) = .ok hunks :=
        hagrees
      rw [hok] at h
      cases h
    | error stuck =>
      rw [hread] at hagrees
      obtain ⟨message', hfail⟩ := hagrees
      rw [hfail] at h
      obtain ⟨-, rfl⟩ := ParseError.invalidHunkError.inj (Except.error.inj h)
      have hbound := readLines_bounded (Nat.zero_le 2) hread
      refine ⟨by omega, ?_⟩
      simp only [Option.map_some, Option.some.injEq]
      unfold Stuck.reported
      constructor
      · rintro hline ⟨number, rfl⟩
        simp at hline
      · intro hother
        rw [if_neg]
        intro hbare
        refine hother ⟨stuck.line, ?_⟩
        rw [← hbare]

/-- A patch with a line that is no diff line, behind the lines that are given. -/
def badLinePatch (before : String) : Text :=
  ("*** Begin Patch\n*** Update File: f\n" ++ before ++ "bad\n*** End Patch").toList

/-- What the parser says about that line. -/
def badLineMessage : Text :=
  ("Unexpected line found in update hunk: 'bad'. Every line should start with ' ' " ++
    "(context line), '+' (added line), or '-' (removed line)").toList

/-- Below a context marker it is the fourth line, and this is what is reported. -/
theorem invalidHunkError_line_marked :
    4 ≤ (badLinePatch "@@\n").trim.lines.length ∧
      ((firstStuck (badLinePatch "@@\n")).map Stuck.line = some 4 ↔
        ¬ StuckAtBareStart (badLinePatch "@@\n")) :=
  invalidHunkError_line (show parsePatchText (badLinePatch "@@\n") .strict =
    .error (.invalidHunkError badLineMessage 4) by decide +kernel)

/-- Without one it is the third line, and the fourth is reported. -/
theorem bareStart_reported :
    parsePatchText (badLinePatch "") .strict = .error (.invalidHunkError badLineMessage 4) ∧
      (firstStuck (badLinePatch "")).map Stuck.line = some 3 := by
  decide +kernel

end CodexMonitor.ApplyPatch
