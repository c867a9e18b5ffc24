import CodexMonitor.ApplyPatch.OpenHunks

namespace CodexMonitor.ApplyPatch

/-!
# Apply patch — the patch that is parsed again

`parse_patch` returns the lines of the patch, joined by line feeds, and this text is what the
applying process parses.  The lines have lost one carriage return already, and lose another one.

* `Place.LosesEnding` — a line that needs its second carriage return.
* `keeps_step` — a line that does not is read alike without it.
* `Diverges`, `diverges_step` — one that does never leads to the same hunks.
* `parsePatch_again_iff` — which patches are parsed alike again.
-/

/-! ### Lines that need a carriage return -/

/-- Where a chunk may start, the line is neither blank nor a header. -/
def StartsChunk (line : Text) : Prop := line.trim ≠ [] ∧ line.head? ≠ some '*'

/-- **The line ends in a carriage return that its hunk keeps**: an added line, a destination, a
    diff line or a context; or, below a diff line, it is nothing else. -/
def Place.LosesEnding (place : Place) (line : Text) : Prop :=
  line.getLast? = some '\r' ∧
    match place with
    | .between => False
    | .adding _ _ => line.head? = some '+'
    | .updating belowHeader _ =>
        (belowHeader = true ∧ moveToMarker <+: line) ∨ StartsChunk line
    | .marked _ _ => True
    | .inChunk _ chunk =>
        (diffLine chunk line).isSome = true ∨ line = ['\r'] ∨ StartsChunk line

/-- No line needs its carriage return. -/
def EndingsKept (place : Place) (number : Nat) (lines : List Text) : Prop :=
  ∀ above line below complete next, lines = above ++ line :: below →
    reach false place number above = .ok (complete, next) → ¬ next.LosesEnding line

variable {place next : Place} {number : Nat} {line : Text} {lines rest : List Text}
  {update : OpenUpdate} {chunk last : UpdateFileChunk} {complete hunks : List Hunk}
  {result : List Hunk × Place}

theorem endingsKept_cons (hstep : place.step false number line = .ok (complete, next)) :
    EndingsKept place number (line :: rest) ↔
      ¬ place.LosesEnding line ∧ EndingsKept next (number + 1) rest := by
  constructor
  · intro h
    refine ⟨h [] line rest [] place rfl rfl, ?_⟩
    intro above line' below others last hlines hreach
    refine h (line :: above) line' below (complete ++ others) last ?_ ?_
    · rw [hlines, List.cons_append]
    · rw [reach, hstep]
      simp only
      rw [hreach]
      rfl
  · rintro ⟨hline, hrest⟩ above line' below others last hlines hreach
    cases above with
    | nil =>
      obtain ⟨rfl, rfl⟩ := List.cons.inj hlines
      obtain ⟨-, rfl⟩ := Prod.mk.inj (Except.ok.inj hreach)
      exact hline
    | cons first above =>
      rw [List.cons_append] at hlines
      obtain ⟨rfl, rfl⟩ := List.cons.inj hlines
      rw [reach, hstep] at hreach
      obtain ⟨-, others', -, hreach', -⟩ := completing_ok hreach
      exact hrest above line' below others' last rfl hreach'

/-! ### Lines that do not -/

theorem readHeader_stripCr (number : Nat) (line : Text) :
    readHeader number line.stripCr = readHeader number line := by
  unfold readHeader
  rw [Text.trim_stripCr]

theorem keeps_readUpdate (h : ¬ StartsChunk line) :
    readUpdate false update number line.stripCr = readUpdate false update number line := by
  unfold readUpdate
  rw [Text.trim_stripCr]
  by_cases hblank : line.trim.isEmpty
  · rw [if_pos hblank, if_pos hblank]
  · have hstar : line.head? = some '*' := by
      by_contra hother
      exact h ⟨fun hnil => hblank (List.isEmpty_iff.mpr hnil), hother⟩
    have hne : line ≠ ['\r'] := by
      rintro rfl
      cases hstar
    rw [if_neg hblank, if_neg hblank, if_pos hstar, if_pos ((Text.head?_stripCr hne).trans hstar),
      readHeader_stripCr]

/-- Without its carriage return a line that is no diff line does not become one, unless nothing
    else is on it. -/
theorem diffLine_stripCr_none (hne : line ≠ ['\r']) (h : diffLine chunk line = none) :
    diffLine chunk line.stripCr = none := by
  have hsame := diffLine_head (Text.head?_stripCr hne) chunk chunk
  rw [h] at hsame
  exact Option.isSome_eq_false_iff.mp hsame |> Option.isNone_iff_eq_none.mp

/-- The marker at the end of a file does not stand with a carriage return. -/
theorem stripCr_ne_eofMarker (hlast : line.getLast? = some '\r')
    (h : readUpdate false update number line = .ok result) : line.stripCr ≠ eofMarker := by
  intro heof
  have htrim : line.trim = eofMarker := by
    rw [← Text.trim_stripCr, heof]
    decide
  have hne : line ≠ ['\r'] := by
    rintro rfl
    cases heof
  refine readUpdate_other eofMarker_other (.inl ⟨[], ?_⟩) ?_ ?_ h
  · rw [htrim, List.append_nil]
  · rw [htrim]
    decide
  · rw [← Text.head?_stripCr hne, heof]
    rfl

/-- **A line that does not need its carriage return** is read alike without it. -/
theorem keeps_step (h : place.step false number line = .ok result)
    (hkept : ¬ place.LosesEnding line) :
    place.step false number line.stripCr = .ok result := by
  by_cases hlast : line.getLast? = some '\r'
  · unfold Place.step at h ⊢
    cases place with
    | between =>
      rw [readHeader_stripCr]
      exact h
    | adding path added =>
      have hplus : line.head? ≠ some '+' := fun hplus => hkept ⟨hlast, hplus⟩
      have hplus' : line.stripCr.head? ≠ some '+' := by
        by_cases hne : line = ['\r']
        · rw [hne]
          decide
        · rw [Text.head?_stripCr hne]
          exact hplus
      simp only at h ⊢
      split at h
      · exact absurd rfl hplus
      · split
        · next heq =>
          rw [heq] at hplus'
          exact absurd rfl hplus'
        · rw [readHeader_stripCr]
          exact h
    | updating belowHeader update =>
      have hmove : ¬ (belowHeader = true ∧ moveToMarker <+: line) :=
        fun hmove => hkept ⟨hlast, .inl hmove⟩
      have hstart : ¬ StartsChunk line := fun hstart => hkept ⟨hlast, .inr hstart⟩
      simp only at h ⊢
      split at h
      · next path hpath =>
        cases belowHeader with
        | false => cases hpath
        | true => exact absurd ⟨rfl, path, (Text.stripStart_eq_some_iff.mp hpath).symm⟩ hmove
      · split
        · next path hpath =>
          cases belowHeader with
          | false => cases hpath
          | true =>
            have hcut : moveToMarker <+: line.stripCr :=
              ⟨path, (Text.stripStart_eq_some_iff.mp hpath).symm⟩
            exact absurd ⟨rfl, hcut.trans (Text.stripCr_begins line)⟩ hmove
        · rw [keeps_readUpdate hstart]
          exact h
    | marked update context => exact absurd ⟨hlast, trivial⟩ hkept
    | inChunk update chunk =>
      have hdiff : diffLine chunk line = none := by
        cases hdiff : diffLine chunk line with
        | none => rfl
        | some last => exact absurd ⟨hlast, .inl (by rw [hdiff]; rfl)⟩ hkept
      have hne : line ≠ ['\r'] := fun hne => hkept ⟨hlast, .inr (.inl hne)⟩
      have hstart : ¬ StartsChunk line := fun hstart => hkept ⟨hlast, .inr (.inr hstart)⟩
      have heof : line ≠ eofMarker := by
        rintro rfl
        cases hlast
      simp only [hdiff, diffLine_stripCr_none hne hdiff] at h ⊢
      rw [if_neg heof] at h
      rw [if_neg (stripCr_ne_eofMarker hlast h), keeps_readUpdate hstart]
      exact h
  · rwa [Text.stripCr_of_ne hlast]

/-! ### Lines that do -/

/-- Nothing is complete, and no hunk is begun by both of what is being read. -/
def Diverges (reading reading' : Reading) : Prop :=
  ∃ next next', reading = .ok ([], next) ∧ reading' = .ok ([], next') ∧
    next ≠ .between ∧ next' ≠ .between ∧ ∀ hunk, next.Begins hunk → ¬ next'.Begins hunk

theorem eq_of_prefix_concat {α : Type} {before all : List α} {a b : α}
    (ha : before ++ [a] <+: all) (hb : before ++ [b] <+: all) : a = b := by
  obtain ⟨more, rfl⟩ := ha
  rw [List.append_assoc, List.prefix_append_right_inj] at hb
  exact (List.cons_prefix_cons.mp hb).1.symm

theorem concat_ne_self {α : Type} (l : List α) (a : α) : l ++ [a] ≠ l := by
  intro h
  have hlength := congrArg List.length h
  simp at hlength

theorem diverges_inChunk {chunk chunk' : UpdateFileChunk}
    (h : ∀ last, chunk.Begins last → ¬ chunk'.Begins last) :
    Diverges (.ok ([], .inChunk update chunk)) (.ok ([], .inChunk update chunk')) := by
  refine ⟨_, _, rfl, rfl, Place.noConfusion, Place.noConfusion, ?_⟩
  rintro hunk ⟨last, chunks, rfl, hlast⟩ ⟨last', chunks', heq, hlast'⟩
  obtain ⟨-, -, hchunks⟩ := Hunk.updateFile.inj heq
  obtain ⟨rfl, -⟩ := List.cons.inj (List.append_cancel_left hchunks)
  exact h last hlast hlast'

/-- A diff line goes to the chunk without its carriage return. -/
theorem diverges_diffLine (hlast : line.getLast? = some '\r')
    (h : diffLine chunk line = some last) :
    ∃ last', diffLine chunk line.stripCr = some last' ∧
      ∀ whole, last.Begins whole → ¬ last'.Begins whole := by
  obtain ⟨content, rfl⟩ := List.getLast?_eq_some_iff.mp hlast
  rw [Text.stripCr_concat]
  have hne : ∀ content' : Text, content' ++ ['\r'] ≠ content' :=
    fun content' => concat_ne_self content' '\r'
  cases content with
  | nil => cases h
  | cons c content =>
    rw [List.cons_append] at h
    unfold diffLine at h ⊢
    split at h
    · next heq => cases heq
    · next content' heq =>
      obtain ⟨rfl, rfl⟩ := List.cons.inj heq
      obtain rfl := Option.some.inj h
      refine ⟨_, rfl, ?_⟩
      intro whole hwhole hwhole'
      exact hne content (eq_of_prefix_concat hwhole.newLines hwhole'.newLines)
    · next content' heq =>
      obtain ⟨rfl, rfl⟩ := List.cons.inj heq
      obtain rfl := Option.some.inj h
      refine ⟨_, rfl, ?_⟩
      intro whole hwhole hwhole'
      exact hne content (eq_of_prefix_concat hwhole.newLines hwhole'.newLines)
    · next content' heq =>
      obtain ⟨rfl, rfl⟩ := List.cons.inj heq
      obtain rfl := Option.some.inj h
      refine ⟨_, rfl, ?_⟩
      intro whole hwhole hwhole'
      exact hne content (eq_of_prefix_concat hwhole.oldLines hwhole'.oldLines)
    · cases h

theorem StartsChunk.ne (h : StartsChunk line) : line ≠ ['\r'] := by
  rintro rfl
  exact h.1 (by decide)

theorem StartsChunk.stripCr (h : StartsChunk line) : StartsChunk line.stripCr :=
  ⟨by rw [Text.trim_stripCr]; exact h.1, by rw [Text.head?_stripCr h.ne]; exact h.2⟩

/-- Where a line starts a chunk. -/
theorem readUpdate_start (h : StartsChunk line) (update : OpenUpdate) (number : Nat) :
    readUpdate false update number line =
      match contextOf line with
      | some context => .ok ([], .marked update context)
      | none =>
          if update.chunks.isEmpty then
            match diffLine ⟨none, [], [], false⟩ line with
            | some chunk => .ok ([], .inChunk update chunk)
            | none => .error ⟨.bare, number⟩
          else .error ⟨.context, number⟩ := by
  unfold readUpdate
  have hblank : ¬ line.trim.isEmpty = true := fun hnil => h.1 (List.isEmpty_iff.mp hnil)
  have hstreaming : ¬ (false = true ∧ line = ['@']) := fun hboth => Bool.noConfusion hboth.1
  rw [if_neg hblank, if_neg h.2, if_neg hstreaming]
  rfl

/-- The context of a marker that ends in a carriage return ends in one. -/
theorem contextOf_concat {context : Option Text} (h : contextOf (line ++ ['\r']) = some context) :
    ∃ name, context = some (name ++ ['\r']) ∧ contextOf line = some (some name) := by
  have hmarker : line ++ ['\r'] ≠ emptyChangeContextMarker := by
    intro heq
    have hlast := congrArg List.getLast? heq
    rw [List.getLast?_concat] at hlast
    cases hlast
  unfold contextOf at h
  rw [if_neg hmarker] at h
  obtain ⟨rest, hrest, rfl⟩ := Option.map_eq_some_iff.mp h
  have heq := Text.stripStart_eq_some_iff.mp hrest
  rcases List.eq_nil_or_concat rest with rfl | ⟨name, c, rfl⟩
  · -- the marker ends in a space
    have hlast := congrArg List.getLast? heq
    rw [List.getLast?_concat] at hlast
    cases hlast
  · rw [List.concat_eq_append, ← List.append_assoc] at heq
    obtain ⟨rfl, hc⟩ := List.append_inj' heq rfl
    obtain rfl := List.singleton_inj.mp hc
    refine ⟨name, by rw [List.concat_eq_append], ?_⟩
    unfold contextOf
    rw [if_neg, Text.stripStart_append]
    · rfl
    · intro hempty
      have hlength := congrArg List.length hempty
      rw [List.length_append] at hlength
      have hmore : changeContextMarker.length = 3 := rfl
      have hless : emptyChangeContextMarker.length = 2 := rfl
      omega

/-- **A line that starts a chunk.** -/
theorem diverges_readUpdate (hlast : line.getLast? = some '\r') (hstart : StartsChunk line)
    (h : readUpdate false update number line = .ok result) :
    Diverges (readUpdate false update number line)
      (readUpdate false update number line.stripCr) := by
  rw [readUpdate_start hstart] at h
  rw [readUpdate_start hstart, readUpdate_start hstart.stripCr]
  cases hcontext : contextOf line with
  | some context =>
    obtain ⟨init, rfl⟩ := List.getLast?_eq_some_iff.mp hlast
    obtain ⟨name, rfl, hcontext'⟩ := contextOf_concat hcontext
    rw [Text.stripCr_concat, hcontext']
    refine ⟨_, _, rfl, rfl, Place.noConfusion, Place.noConfusion, ?_⟩
    rintro hunk ⟨last, chunks, rfl, hlast⟩ ⟨last', chunks', heq, hlast'⟩
    obtain ⟨-, -, hchunks⟩ := Hunk.updateFile.inj heq
    obtain ⟨rfl, -⟩ := List.cons.inj (List.append_cancel_left hchunks)
    rw [hlast] at hlast'
    exact concat_ne_self name '\r' (Option.some.inj hlast')
  | none =>
    rw [hcontext] at h
    simp only at h
    split at h
    · next hchunks =>
      split at h
      · next chunk hdiff =>
        obtain ⟨chunk', hdiff', hdiverge⟩ := diverges_diffLine hlast hdiff
        have hnone : contextOf line.stripCr = none := by
          cases hcontext' : contextOf line.stripCr with
          | none => rfl
          | some context =>
            exact absurd (head?_of_contextOf hcontext') (head?_of_diffLine_some hdiff')
        rw [hnone]
        simp only [if_pos hchunks, hdiff']
        exact diverges_inChunk hdiverge
      · cases h
    · cases h

theorem addedContents_line (added more : List Text) (content : Text) :
    addedContents (added ++ [content] ++ more) =
      addedContents added ++ (content ++ '\n' :: addedContents more) := by
  unfold addedContents
  simp only [List.flatMap_append, List.flatMap_cons, List.append_assoc, List.singleton_append]

/-- A destination that ends in a carriage return. -/
theorem moveTo_concat {init : Text} (h : moveToMarker <+: init ++ ['\r']) :
    ∃ path, (init ++ ['\r']).stripStart moveToMarker = some (path ++ ['\r']) ∧
      init.stripStart moveToMarker = some path := by
  obtain ⟨rest, hrest⟩ := h
  rcases List.eq_nil_or_concat rest with rfl | ⟨path, c, rfl⟩
  · -- the marker ends in a space
    have hlast := congrArg List.getLast? hrest
    rw [List.append_nil, List.getLast?_concat] at hlast
    cases hlast
  · rw [List.concat_eq_append, ← List.append_assoc] at hrest
    obtain ⟨rfl, hc⟩ := List.append_inj' hrest rfl
    obtain rfl := List.singleton_inj.mp hc
    refine ⟨path, ?_, Text.stripStart_append _ _⟩
    rw [List.append_assoc]
    exact Text.stripStart_append _ _

/-- A line that is no destination. -/
theorem stripStart_moveTo_none (h : line.head? ≠ some '*') :
    line.stripStart moveToMarker = none := by
  cases hstrip : line.stripStart moveToMarker with
  | none => rfl
  | some path =>
    rw [Text.stripStart_eq_some_iff.mp hstrip] at h
    exact absurd rfl h

/-- **A line that needs its carriage return** leads to other hunks without it. -/
theorem diverges_step (h : place.step false number line = .ok result)
    (hloses : place.LosesEnding line) :
    Diverges (place.step false number line) (place.step false number line.stripCr) := by
  obtain ⟨hlast, hline⟩ := hloses
  obtain ⟨init, rfl⟩ := List.getLast?_eq_some_iff.mp hlast
  rw [Text.stripCr_concat]
  unfold Place.step at h ⊢
  cases place with
  | between => exact absurd hline id
  | adding path added =>
    have hplus : (init ++ ['\r']).head? = some '+' := hline
    cases init with
    | nil => cases hplus
    | cons c content =>
      obtain rfl := Option.some.inj hplus
      refine ⟨_, _, rfl, rfl, Place.noConfusion, Place.noConfusion, ?_⟩
      rintro hunk ⟨more, rfl⟩ ⟨more', heq⟩
      obtain ⟨-, hcontents⟩ := Hunk.addFile.inj heq
      rw [addedContents_line, addedContents_line] at hcontents
      have hends := List.append_cancel_left hcontents
      have hcut : content ++ '\r' :: '\n' :: addedContents more =
          content ++ '\n' :: addedContents more' :=
        (List.append_assoc content ['\r'] _).symm.trans hends
      exact absurd (List.cons.inj (List.append_cancel_left hcut)).1 (by decide)
  | updating belowHeader update =>
    have hcases : (belowHeader = true ∧ moveToMarker <+: init ++ ['\r']) ∨
        StartsChunk (init ++ ['\r']) := hline
    rcases hcases with ⟨rfl, hmove⟩ | hstart
    · obtain ⟨path, hpath, hpath'⟩ := moveTo_concat hmove
      simp only [if_true, hpath, hpath']
      refine ⟨_, _, rfl, rfl, Place.noConfusion, Place.noConfusion, ?_⟩
      rintro hunk ⟨movePath, chunks, rfl, hpaths⟩ ⟨movePath', chunks', heq, hpaths'⟩
      obtain ⟨-, rfl, -⟩ := Hunk.updateFile.inj heq
      have hsame := (hpaths rfl).symm.trans (hpaths' rfl)
      exact concat_ne_self path '\r' (Option.some.inj hsame)
    · have hstart' : StartsChunk init := by
        have hstripped := hstart.stripCr
        rw [Text.stripCr_concat] at hstripped
        exact hstripped
      have hdiverges : readUpdate false update number (init ++ ['\r']) = .ok result →
          Diverges (readUpdate false update number (init ++ ['\r']))
            (readUpdate false update number init) := by
        intro hread
        have hstripped := diverges_readUpdate hlast hstart hread
        rw [Text.stripCr_concat] at hstripped
        exact hstripped
      cases belowHeader with
      | false => exact hdiverges h
      | true =>
        simp only [if_true, stripStart_moveTo_none hstart.2] at h
        simp only [if_true, stripStart_moveTo_none hstart.2, stripStart_moveTo_none hstart'.2]
        exact hdiverges h
  | marked update context =>
    simp only at h ⊢
    split at h
    · next chunk hdiff =>
      obtain ⟨chunk', hdiff', hdiverge⟩ := diverges_diffLine hlast hdiff
      rw [Text.stripCr_concat] at hdiff'
      simp only [hdiff']
      exact diverges_inChunk hdiverge
    · cases h
  | inChunk update chunk =>
    have hcases : (diffLine chunk (init ++ ['\r'])).isSome = true ∨ init ++ ['\r'] = ['\r'] ∨
        StartsChunk (init ++ ['\r']) := hline
    simp only at h ⊢
    cases hdiff : diffLine chunk (init ++ ['\r']) with
    | some last =>
      obtain ⟨last', hdiff', hdiverge⟩ := diverges_diffLine hlast hdiff
      rw [Text.stripCr_concat] at hdiff'
      simp only [hdiff']
      exact diverges_inChunk hdiverge
    | none =>
      have heof : init ++ ['\r'] ≠ eofMarker := by
        intro heof
        rw [heof] at hlast
        cases hlast
      rw [hdiff] at h hcases
      simp only [if_neg heof] at h ⊢
      rcases hcases with hno | hlone | hstart
      · cases hno
      · -- nothing is left of the line, and it goes to the chunk
        obtain rfl : init = [] := List.append_left_eq_self.mp hlone
        refine ⟨.updating false (update.add chunk), _, rfl, rfl, Place.noConfusion,
          Place.noConfusion, ?_⟩
        rintro hunk ⟨movePath, chunks, rfl, -⟩ ⟨last, chunks', heq, hlast⟩
        obtain ⟨-, -, hchunks⟩ := Hunk.updateFile.inj heq
        unfold OpenUpdate.add at hchunks
        simp only at hchunks
        rw [List.append_assoc, List.singleton_append] at hchunks
        obtain ⟨rfl, -⟩ := List.cons.inj (List.append_cancel_left hchunks)
        have hlonger := hlast.oldLines.length_le
        simp only [List.length_append, List.length_singleton] at hlonger
        omega
      · have hstart' := hstart.stripCr
        have hnone := diffLine_stripCr_none hstart.ne hdiff
        have hdiverges := diverges_readUpdate hlast hstart h
        rw [Text.stripCr_concat] at hdiverges hnone hstart'
        have heof' : init ≠ eofMarker := by
          rintro rfl
          exact hstart'.2 rfl
        simp only [hnone, if_neg heof']
        exact hdiverges

/-! ### All lines -/

/-- **What is read again** is what was read exactly if no line needs its carriage return. -/
theorem readLines_stripCr_iff (h : readLines false place number lines = .ok hunks) :
    readLines false place number (lines.map Text.stripCr) = .ok hunks ↔
      EndingsKept place number lines := by
  induction lines generalizing place number hunks with
  | nil =>
    constructor
    · intro _ above line below complete next hlines
      simp at hlines
    · intro _
      exact h
  | cons line rest ih =>
    obtain ⟨⟨complete, next⟩, others, hstep, hrest, rfl⟩ := readLines_cons_ok h
    rw [List.map_cons, endingsKept_cons hstep]
    by_cases hloses : place.LosesEnding line
    · obtain ⟨first, first', hfirst, hfirst', hopen, hopen', hdiverge⟩ :=
        diverges_step hstep hloses
      obtain ⟨rfl, rfl⟩ := Prod.mk.inj (Except.ok.inj (hstep.symm.trans hfirst))
      constructor
      · intro hagain
        obtain ⟨result', others', hstep', hrest', heq⟩ := readLines_cons_ok hagain
        obtain rfl := Except.ok.inj (hstep'.symm.trans hfirst')
        -- both runs go on to the first hunk
        obtain ⟨hunk, more, rfl, hbegins⟩ := begins_readLines hopen hrest
        obtain ⟨hunk', more', rfl, hbegins'⟩ := begins_readLines hopen' hrest'
        obtain ⟨rfl, -⟩ := List.cons.inj heq
        exact absurd hbegins' (hdiverge hunk hbegins)
      · intro hkept
        exact absurd hloses hkept.1
    · rw [readLines_cons, keeps_step hstep hloses]
      have hmore : resume false (.ok (complete, next)) (number + 1) (rest.map Text.stripCr) =
          prepending complete (readLines false next (number + 1) (rest.map Text.stripCr)) := rfl
      rw [hmore, ← ih hrest]
      constructor
      · intro hagain
        refine ⟨hloses, ?_⟩
        cases hread : readLines false next (number + 1) (rest.map Text.stripCr) with
        | error stuck =>
          rw [hread] at hagain
          cases hagain
        | ok others' =>
          rw [hread] at hagain
          have hsame := List.append_cancel_left (Except.ok.inj hagain)
          rw [hsame]
      · rintro ⟨-, hread⟩
        rw [hread]
        rfl

/-! ### The text that is parsed again -/

/-- The lines between the markers, with or without a heredoc around them. -/
def patchHunkLines (patch : Text) : List Text :=
  match checkPatchBoundariesLenient patch.trim.lines with
  | .ok (_, hunkLines) => hunkLines
  | .error _ => []

/-- The lines that the lenient check takes are lines of the text, and pass the strict check. -/
theorem checkPatchBoundariesLenient_ok {patchLines : List Text} {boundaries : Boundaries}
    (h : checkPatchBoundariesLenient patchLines = .ok boundaries) :
    ∃ kept ⊆ patchLines, checkPatchBoundariesStrict kept = .ok boundaries := by
  unfold checkPatchBoundariesLenient at h
  split at h
  · next hstrict => exact ⟨patchLines, List.Subset.refl _, hstrict.trans h⟩
  · split at h
    · refine ⟨_, ?_, h⟩
      exact List.Subset.trans (List.dropLast_subset _) (List.tail_sublist _).subset
    · cases h

theorem checkPatchBoundariesLenient_of_markers {first last : Text} {inner : List Text}
    (hfirst : first.trim = beginPatchMarker) (hlast : last.trim = endPatchMarker) :
    checkPatchBoundariesLenient (first :: (inner ++ [last])) =
      .ok (first :: (inner ++ [last]), inner) := by
  have hends : (first :: (inner ++ [last])).getLast? = some last := by
    rw [← List.cons_append, List.getLast?_concat]
  have hstrict : checkPatchBoundariesStrict (first :: (inner ++ [last])) =
      .ok (first :: (inner ++ [last]), inner) := by
    unfold checkPatchBoundariesStrict checkStartAndEndLinesStrict
    rw [hends, List.head?_cons]
    simp only [Option.map_some]
    rw [if_pos ⟨hfirst, hlast⟩]
    simp only [List.tail_cons, List.dropLast_concat]
  unfold checkPatchBoundariesLenient
  rw [hstrict]

/-- **A patch that is parsed again** gives the same hunks exactly if no line needs a second
    carriage return. -/
theorem parsePatch_again_iff {text : Text} {args : ApplyPatchArgs}
    (h : parsePatch text = .ok args) :
    (∃ again, parsePatch args.patch = .ok again ∧ again.hunks = args.hunks) ↔
      EndingsKept .between 2 (patchHunkLines text) := by
  obtain ⟨patchLines, hunkLines, hboundaries, hread, hargs⟩ := parsePatchText_ok_iff.mp h
  have hlenient : checkPatchBoundariesLenient text.trim.lines = .ok (patchLines, hunkLines) :=
    hboundaries
  obtain ⟨kept, hsubset, hstrict⟩ := checkPatchBoundariesLenient_ok hlenient
  obtain ⟨first, rest, rfl, hfirst, ⟨last, hlast, hend⟩, heq⟩ :=
    checkPatchBoundariesStrict_ok hstrict
  obtain ⟨rfl, rfl⟩ := Prod.mk.inj heq
  obtain ⟨inner, rfl⟩ : ∃ inner, rest = inner ++ [last] := by
    rcases List.eq_nil_or_concat rest with rfl | ⟨inner, final, rfl⟩
    · -- one line is not both markers
      have hsame : first = last := Option.some.inj hlast
      rw [← hsame, hfirst] at hend
      exact absurd hend (by decide)
    · rw [List.concat_eq_append, ← List.cons_append, List.getLast?_concat] at hlast
      obtain rfl := Option.some.inj hlast
      exact ⟨inner, List.concat_eq_append⟩
  rw [List.dropLast_concat] at hlenient hread
  have hlines : patchHunkLines text = inner := by
    unfold patchHunkLines
    rw [hlenient]
  have hpatch : args.patch = Text.joinWith ['\n'] (first :: inner ++ [last]) :=
    congrArg ApplyPatchArgs.patch hargs
  have hagain : args.patch.trim.lines =
      first.trimStart.stripCr :: (inner.map Text.stripCr ++ [last.trimEnd]) := by
    rw [hpatch]
    refine Text.lines_joinWith ?_ ?_ ?_
    · rw [hfirst]
      decide
    · rw [hend]
      decide
    · intro line hmem
      exact Text.notMem_lines (hsubset hmem)
  have hboundaries' : checkPatchBoundariesLenient args.patch.trim.lines =
      .ok (args.patch.trim.lines, inner.map Text.stripCr) := by
    rw [hagain]
    refine checkPatchBoundariesLenient_of_markers ?_ ?_
    · rw [Text.trim_stripCr, Text.trim_trimStart]
      exact hfirst
    · rw [Text.trim_trimEnd]
      exact hend
  rw [hlines, ← readLines_stripCr_iff hread]
  constructor
  · rintro ⟨again, hparse, hsame⟩
    obtain ⟨patchLines', hunkLines', hlenient', hread', -⟩ := parsePatchText_ok_iff.mp hparse
    obtain ⟨-, rfl⟩ := Prod.mk.inj (Except.ok.inj (hboundaries'.symm.trans hlenient'))
    rw [← hsame]
    exact hread'
  · intro hread'
    exact ⟨⟨_, args.hunks, none⟩, parsePatchText_ok_iff.mpr ⟨_, _, hboundaries', hread', rfl⟩, rfl⟩

/-- A patch that adds a file with the line. -/
def oneLinePatch (line : String) : Text :=
  ("*** Begin Patch\n*** Add File: a\n+" ++ line ++ "\n*** End Patch").toList

/-- A carriage return in front of the line feed is lost at once, and no line needs a second one. -/
theorem parsePatch_again_iff_crlf :
    (∃ again, parsePatch (oneLinePatch "x") = .ok again ∧
      again.hunks = [.addFile ['a'] ['x', '\n']]) ↔
        EndingsKept .between 2 (patchHunkLines (oneLinePatch "x\r")) :=
  parsePatch_again_iff (show parsePatch (oneLinePatch "x\r") =
    .ok ⟨oneLinePatch "x", [.addFile ['a'] ['x', '\n']], none⟩ by decide +kernel)

/-- **The second carriage return is lost** when the patch is parsed again. -/
theorem carriageReturn_lost :
    parsePatch (oneLinePatch "x\r\r") =
        .ok ⟨oneLinePatch "x\r", [.addFile ['a'] ['x', '\r', '\n']], none⟩ ∧
      parsePatch (oneLinePatch "x\r") =
        .ok ⟨oneLinePatch "x", [.addFile ['a'] ['x', '\n']], none⟩ := by
  decide +kernel

end CodexMonitor.ApplyPatch
