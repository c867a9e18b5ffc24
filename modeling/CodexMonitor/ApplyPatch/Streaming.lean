import CodexMonitor.ApplyPatch.OpenHunks

namespace CodexMonitor.ApplyPatch

/-!
# Apply patch — a patch that is still streaming

`parse_patch_streaming` is called again and again on what has arrived of a patch.  Of two results
the later one keeps all hunks of the earlier one but the last, and the kind of the last one; on a
patch that the strict parser takes the result is the same.

* `Grows` — from one list of hunks to a later one.
* `kind_readLines` — the kind of the hunk that is being read is final.
* `grows_finish` — more lines come.
* `grows_line` — the last line was cut off.
* `grows_end` — the last line was cut off and is the end marker.
* `parsePatchStreaming_grows` — two prefixes of a text, and the whole text.
-/

/-! ### Growing lists of hunks -/

/-- What a hunk does; an update may move its file. -/
inductive HunkKind where
  | add
  | delete
  | update (moves : Bool)
  deriving DecidableEq, Repr

def Hunk.kind : Hunk → HunkKind
  | .addFile _ _ => .add
  | .deleteFile _ => .delete
  | .updateFile _ movePath _ => .update movePath.isSome

/-- All hunks but the last are kept, and the last keeps its kind. -/
def Grows (before after : List Hunk) : Prop :=
  before = [] ∨ ∃ kept last last' more,
    before = kept ++ [last] ∧ after = kept ++ last' :: more ∧ last'.kind = last.kind

variable {before after common more : List Hunk}

theorem grows_prefix (h : before <+: after) : Grows before after := by
  obtain ⟨more, rfl⟩ := h
  rcases List.eq_nil_or_concat before with rfl | ⟨kept, last, rfl⟩
  · exact .inl rfl
  · refine .inr ⟨kept, last, last, more, ?_, ?_, rfl⟩
    · rw [List.concat_eq_append]
    · rw [List.concat_eq_append, List.append_assoc]
      rfl

theorem Grows.prepend (h : Grows before after) (common : List Hunk) :
    Grows (common ++ before) (common ++ after) := by
  rcases h with rfl | ⟨kept, last, last', more, rfl, rfl, hkind⟩
  · rw [List.append_nil]
    exact grows_prefix (List.prefix_append _ _)
  · refine .inr ⟨common ++ kept, last, last', more, ?_, ?_, hkind⟩
    · rw [List.append_assoc]
    · rw [List.append_assoc]

/-- One hunk becomes the first of several. -/
theorem grows_singleton {last last' : Hunk} (h : last'.kind = last.kind) (more : List Hunk) :
    Grows [last] (last' :: more) :=
  .inr ⟨[], last, last', more, rfl, rfl, h⟩

/-- What growing means. -/
theorem Grows.spec (h : Grows before after) :
    before.length ≤ after.length ∧ before.dropLast <+: after ∧
      ∀ last, before.getLast? = some last →
        ∃ hunk, after[before.length - 1]? = some hunk ∧ hunk.kind = last.kind := by
  rcases h with rfl | ⟨kept, last, last', more, rfl, rfl, hkind⟩
  · refine ⟨Nat.zero_le _, List.nil_prefix, ?_⟩
    intro last hlast
    cases hlast
  · refine ⟨?_, ?_, ?_⟩
    · simp only [List.length_append, List.length_cons, List.length_nil]
      omega
    · rw [List.dropLast_concat]
      exact List.prefix_append _ _
    · intro last'' hlast
      rw [List.getLast?_concat] at hlast
      obtain rfl := Option.some.inj hlast
      refine ⟨last', ?_, hkind⟩
      rw [List.length_append, List.length_singleton, Nat.add_sub_cancel,
        List.getElem?_append_right (Nat.le_refl _), Nat.sub_self]
      rfl

/-! ### The kind of the hunk that is being read -/

variable {streaming : Bool} {place place' : Place} {number : Nat} {line line' : Text}
  {lines rest : List Text} {update : OpenUpdate} {chunk chunk' : UpdateFileChunk}

/-- The kind of the hunk that is being read, if any. -/
def Place.kind : Place → Option HunkKind
  | .between => none
  | .adding _ _ => some .add
  | .updating _ update => some (.update update.movePath.isSome)
  | .marked update _ => some (.update update.movePath.isSome)
  | .inChunk update _ => some (.update update.movePath.isSome)

/-- The kind is final: the line below the header of an update is there. -/
def Place.settled : Place → Bool
  | .updating belowHeader _ => !belowHeader
  | _ => true

/-- Right below a header there is no chunk. -/
def Place.WellPlaced (place : Place) : Prop :=
  ∀ update, place = .updating true update → update.chunks = []

/-- What is being read has the kind of the hunk that comes out. -/
theorem kind_of_begins {hunk : Hunk} (hsettled : place.settled = true)
    (h : place.Begins hunk) : place.kind = some hunk.kind := by
  cases place with
  | between => exact absurd h id
  | adding path added =>
    obtain ⟨more, rfl⟩ := h
    rfl
  | updating belowHeader update =>
    have hbelow : belowHeader = false := by simpa [Place.settled] using hsettled
    obtain ⟨movePath, chunks, rfl, hmove⟩ := h
    rw [hmove hbelow]
    rfl
  | marked update context =>
    obtain ⟨last, chunks, rfl, -⟩ := h
    rfl
  | inChunk update chunk =>
    obtain ⟨last, chunks, rfl, -⟩ := h
    rfl

/-- At the end the hunk that is being read is the only one. -/
theorem kind_finish {hunks : List Hunk} (hplaced : place.WellPlaced)
    (h : place.finish streaming number = .ok hunks) :
    place.settled = true ∧ match place.kind with
      | none => hunks = []
      | some kind => ∃ hunk, hunks = [hunk] ∧ hunk.kind = kind := by
  unfold Place.finish at h
  cases place with
  | between => exact ⟨rfl, (Except.ok.inj h).symm⟩
  | adding path added => exact ⟨rfl, _, (Except.ok.inj h).symm, rfl⟩
  | updating belowHeader update =>
    obtain ⟨hsome, rfl⟩ := close_ok h
    refine ⟨?_, _, rfl, rfl⟩
    cases belowHeader with
    | true => exact absurd (hplaced update rfl) hsome
    | false => rfl
  | marked update context => cases h
  | inChunk update chunk =>
    obtain ⟨-, rfl⟩ := close_ok h
    exact ⟨rfl, _, rfl, rfl⟩

/-- **All lines** keep the kind of the hunk that is being read. -/
theorem kind_readLines {kind : HunkKind} {hunks : List Hunk} (hsettled : place.settled = true)
    (hkind : place.kind = some kind)
    (h : readLines streaming place number lines = .ok hunks) :
    ∃ hunk more, hunks = hunk :: more ∧ hunk.kind = kind := by
  have hopen : place ≠ .between := by
    rintro rfl
    cases hkind
  obtain ⟨hunk, more, rfl, hbegins⟩ := begins_readLines hopen h
  have hsame := kind_of_begins hsettled hbegins
  exact ⟨hunk, more, rfl, Option.some.inj (hsame.symm.trans hkind)⟩

/-- Two places at which hunks of the same kind are being read, or none. -/
structure SameKind (place place' : Place) : Prop where
  kind : place'.kind = place.kind
  settled : place.settled = true
  settled' : place'.settled = true

/-- **The end of the lines here, and more lines there.** -/
theorem grows_sameKind {hunks hunks' : List Hunk} (hsame : SameKind place place')
    (hplaced : place.WellPlaced) (h : place.finish streaming number = .ok hunks)
    (h' : readLines streaming place' number lines = .ok hunks') : Grows hunks hunks' := by
  obtain ⟨-, hfinish⟩ := kind_finish hplaced h
  cases hkind : place.kind with
  | none =>
    rw [hkind] at hfinish
    exact .inl hfinish
  | some kind =>
    rw [hkind] at hfinish
    obtain ⟨hunk, rfl, hlast⟩ := hfinish
    obtain ⟨hunk', more, rfl, hfirst⟩ :=
      kind_readLines hsame.settled' (hsame.kind.trans hkind) h'
    exact grows_singleton (hfirst.trans hlast.symm) more

/-- **More lines come.** -/
theorem grows_finish {hunks hunks' : List Hunk} (hplaced : place.WellPlaced)
    (h : place.finish streaming number = .ok hunks)
    (h' : readLines streaming place number lines = .ok hunks') : Grows hunks hunks' := by
  obtain ⟨hsettled, -⟩ := kind_finish hplaced h
  exact grows_sameKind ⟨rfl, hsettled, hsettled⟩ hplaced h h'

/-! ### Places below headers -/

theorem wellPlaced_readHeader {complete : List Hunk}
    (h : readHeader number line = .ok (complete, place)) : place.WellPlaced := by
  unfold readHeader at h
  split at h
  · obtain ⟨rfl, rfl⟩ := Prod.mk.inj (Except.ok.inj h)
    exact fun update heq => by cases heq
  · split at h
    · obtain ⟨rfl, rfl⟩ := Prod.mk.inj (Except.ok.inj h)
      exact fun update heq => by cases heq
    · split at h
      · obtain ⟨rfl, rfl⟩ := Prod.mk.inj (Except.ok.inj h)
        rintro update heq
        cases heq
        rfl
      · cases h

theorem wellPlaced_of_settled (h : place.settled = true) : place.WellPlaced := by
  rintro update rfl
  cases h

theorem wellPlaced_readUpdate {complete : List Hunk}
    (h : readUpdate streaming update number line = .ok (complete, place)) :
    place.WellPlaced := by
  rcases readUpdate_cases h with
    ⟨-, heq⟩ | ⟨hclosing, -⟩ | ⟨context, -, heq⟩ | ⟨-, chunk, -, heq⟩
  · obtain ⟨rfl, rfl⟩ := Prod.mk.inj heq
    exact wellPlaced_of_settled rfl
  · obtain ⟨first, others, -, hheader, -⟩ := completing_ok hclosing
    exact wellPlaced_readHeader hheader
  · obtain ⟨rfl, rfl⟩ := Prod.mk.inj heq
    exact wellPlaced_of_settled rfl
  · obtain ⟨rfl, rfl⟩ := Prod.mk.inj heq
    exact wellPlaced_of_settled rfl

theorem wellPlaced_step {complete : List Hunk}
    (h : place.step streaming number line = .ok (complete, place')) : place'.WellPlaced := by
  unfold Place.step at h
  cases place with
  | between => exact wellPlaced_readHeader h
  | adding path added =>
    simp only at h
    split at h
    · obtain ⟨rfl, rfl⟩ := Prod.mk.inj (Except.ok.inj h)
      exact wellPlaced_of_settled rfl
    · obtain ⟨first, others, -, hheader, -⟩ := completing_ok h
      exact wellPlaced_readHeader hheader
  | updating belowHeader update =>
    simp only at h
    split at h
    · obtain ⟨rfl, rfl⟩ := Prod.mk.inj (Except.ok.inj h)
      exact wellPlaced_of_settled rfl
    · exact wellPlaced_readUpdate h
  | marked update context =>
    simp only at h
    split at h
    · obtain ⟨rfl, rfl⟩ := Prod.mk.inj (Except.ok.inj h)
      exact wellPlaced_of_settled rfl
    · cases h
  | inChunk update chunk =>
    simp only at h
    split at h
    · obtain ⟨rfl, rfl⟩ := Prod.mk.inj (Except.ok.inj h)
      exact wellPlaced_of_settled rfl
    · split at h
      · obtain ⟨rfl, rfl⟩ := Prod.mk.inj (Except.ok.inj h)
        exact wellPlaced_of_settled rfl
      · exact wellPlaced_readUpdate h

theorem wellPlaced_reach {complete : List Hunk} (hplaced : place.WellPlaced)
    (h : reach streaming place number lines = .ok (complete, place')) : place'.WellPlaced := by
  induction lines generalizing place number complete with
  | nil =>
    obtain ⟨-, rfl⟩ := Prod.mk.inj (Except.ok.inj h)
    exact hplaced
  | cons line rest ih =>
    unfold reach at h
    cases hstep : place.step streaming number line with
    | error stuck =>
      rw [hstep] at h
      cases h
    | ok result =>
      obtain ⟨hunks, next⟩ := result
      rw [hstep] at h
      obtain ⟨-, others, -, hrest, -⟩ := completing_ok h
      exact ih (wellPlaced_step hstep) hrest

/-! ### A line that is cut off -/

/-- What two lines complete, one of which is a part of the other, and where the reader is then:
    the same hunks and places alike, or the last hunk deletes a file. -/
inductive Alike : List Hunk × Place → List Hunk × Place → Prop where
  | same (complete : List Hunk) {place place' : Place} (h : SameKind place place') :
      Alike (complete, place) (complete, place')
  | deletes (complete : List Hunk) (path path' : Text) :
      Alike (complete ++ [.deleteFile path], .between)
        (complete ++ [.deleteFile path'], .between)

theorem Alike.prepend {result result' : List Hunk × Place} (h : Alike result result')
    (common : List Hunk) :
    Alike (common ++ result.1, result.2) (common ++ result'.1, result'.2) := by
  cases h with
  | same complete h => exact .same _ h
  | deletes complete path path' =>
    have hdeletes := Alike.deletes (common ++ complete) path path'
    rw [List.append_assoc, List.append_assoc] at hdeletes
    exact hdeletes

/-- **The end here, more lines there.** -/
theorem Alike.grows {result result' : List Hunk × Place} {hunks hunks' : List Hunk}
    (halike : Alike result result') (hplaced : result.2.WellPlaced)
    (h : result.2.finish streaming number = .ok hunks)
    (h' : readLines streaming result'.2 number lines = .ok hunks') :
    Grows (result.1 ++ hunks) (result'.1 ++ hunks') := by
  cases halike with
  | same complete hsame => exact (grows_sameKind hsame hplaced h h').prepend complete
  | deletes complete path path' =>
    obtain rfl := Except.ok.inj h
    have hkind : (Hunk.deleteFile path').kind = (Hunk.deleteFile path).kind := rfl
    have hgrows := (grows_singleton hkind hunks').prepend complete
    simp only [List.append_nil, List.append_assoc]
    exact hgrows

/-- **A header.** -/
theorem alike_readHeader {result result' : List Hunk × Place} {hunks : List Hunk} {next : Nat}
    (hline : Text.Solid line) (hbegins : line <+: line')
    (h : readHeader number line = .ok result) (hend : result.2.finish streaming next = .ok hunks)
    (h' : readHeader number line' = .ok result') : Alike result result' := by
  obtain ⟨more, hmore⟩ := Text.trim_prefix hbegins hline.trim_ne_nil
  -- the marker of the first line is that of the second
  have hmarker : ∀ {marker rest : Text}, line.trim.stripStart marker = some rest →
      line'.trim.stripStart marker = some (rest ++ more) := by
    intro marker rest hrest
    rw [Text.stripStart_eq_some_iff] at hrest ⊢
    rw [← hmore, hrest, List.append_assoc]
  have hother : ∀ {marker other rest : Text}, line.trim.stripStart marker = some rest →
      ¬ marker <+: other → ¬ other <+: marker → line'.trim.stripStart other = none := by
    intro marker other rest hrest hno hno'
    cases hstrip : line'.trim.stripStart other with
    | none => rfl
    | some rest' =>
      have hfirst : marker <+: line'.trim :=
        ⟨_, (Text.stripStart_eq_some_iff.mp (hmarker hrest)).symm⟩
      have hsecond : other <+: line'.trim := ⟨_, (Text.stripStart_eq_some_iff.mp hstrip).symm⟩
      rcases List.prefix_or_prefix_of_prefix hfirst hsecond with hshort | hlong
      · exact absurd hshort hno
      · exact absurd hlong hno'
  unfold readHeader at h h'
  split at h
  · rename_i path hpath
    obtain rfl := Except.ok.inj h
    rw [hmarker hpath] at h'
    obtain rfl := Except.ok.inj h'
    exact .same [] ⟨rfl, rfl, rfl⟩
  · split at h
    · rename_i path hpath
      obtain rfl := Except.ok.inj h
      rw [hother hpath (by decide) (by decide), hmarker hpath] at h'
      obtain rfl := Except.ok.inj h'
      exact .deletes [] _ _
    · split at h
      · obtain rfl := Except.ok.inj h
        -- an update without a chunk cannot end
        exact absurd rfl (close_ok hend).1
      · cases h

/-- What comes before the header is the same. -/
theorem alike_completing {complete complete' : Except Stuck (List Hunk)}
    {result result' : List Hunk × Place} {hunks : List Hunk} {next : Nat}
    (hsame : ∀ first first', complete = .ok first → complete' = .ok first' → first' = first)
    (hline : Text.Solid line) (hbegins : line <+: line')
    (h : completing complete (readHeader number line) = .ok result)
    (hend : result.2.finish streaming next = .ok hunks)
    (h' : completing complete' (readHeader number line') = .ok result') :
    Alike result result' := by
  obtain ⟨first, others, hfirst, hheader, hresult⟩ := completing_ok h
  obtain ⟨first', others', hfirst', hheader', hresult'⟩ := completing_ok h'
  obtain rfl := hsame first first' hfirst hfirst'
  have halike := (alike_readHeader hline hbegins hheader hend hheader').prepend first'
  rw [← hresult, ← hresult'] at halike
  exact halike

/-- **A line of an update hunk** where a chunk may start. -/
theorem alike_readUpdate {result result' : List Hunk × Place} {hunks : List Hunk} {next : Nat}
    (hline : Text.Solid line) (hbegins : line <+: line')
    (h : readUpdate streaming update number line = .ok result)
    (hend : result.2.finish streaming next = .ok hunks)
    (h' : readUpdate streaming update number line' = .ok result') : Alike result result' := by
  have hhead : line'.head? = line.head? := Text.head?_begins hbegins hline.ne_nil
  rcases readUpdate_cases h with
    ⟨hblank, -⟩ | ⟨hclosing, -⟩ | ⟨context, -, rfl⟩ | ⟨hchunks, chunk, hdiff, rfl⟩
  · exact absurd hblank hline.trim_ne_nil
  · rcases readUpdate_cases h' with
      ⟨hblank, -⟩ | ⟨hclosing', -⟩ | ⟨context, hcontext, -⟩ | ⟨hchunks, -⟩
    · exact absurd hblank (hline.trim_ne_nil_of_prefix hbegins)
    · refine alike_completing ?_ hline hbegins hclosing hend hclosing'
      intro first first' hclose hclose'
      exact Except.ok.inj (hclose'.symm.trans hclose)
    · exact absurd (hhead.symm.trans (head?_of_contextOf hcontext))
        (head?_of_completing hclosing)
    · exact absurd hclosing (not_completing hchunks)
  · -- a marker without a line below it
    cases hend
  · rcases readUpdate_cases h' with
      ⟨hblank, -⟩ | ⟨hclosing', -⟩ | ⟨context, hcontext, -⟩ | ⟨-, chunk', -, rfl⟩
    · exact absurd hblank (hline.trim_ne_nil_of_prefix hbegins)
    · exact absurd hclosing' (not_completing hchunks)
    · exact absurd (hhead.symm.trans (head?_of_contextOf hcontext))
        (head?_of_diffLine_some hdiff)
    · exact .same [] ⟨rfl, rfl, rfl⟩

/-- **One line**, and the part of it that is there. -/
theorem alike_step {result result' : List Hunk × Place} {hunks : List Hunk} {next : Nat}
    (hplaced : place.WellPlaced) (hline : Text.Solid line) (hbegins : line <+: line')
    (h : place.step streaming number line = .ok result)
    (hend : result.2.finish streaming next = .ok hunks)
    (h' : place.step streaming number line' = .ok result') : Alike result result' := by
  have hhead : line'.head? = line.head? := Text.head?_begins hbegins hline.ne_nil
  unfold Place.step at h h'
  cases place with
  | between => exact alike_readHeader hline hbegins h hend h'
  | adding path added =>
    obtain ⟨c, rest, rfl⟩ := List.exists_cons_of_ne_nil hline.ne_nil
    obtain ⟨more, rfl⟩ := hbegins
    by_cases hplus : c = '+'
    · subst hplus
      obtain rfl := Except.ok.inj h
      obtain rfl := Except.ok.inj h'
      exact .same [] ⟨rfl, rfl, rfl⟩
    · simp only [List.cons_append] at h h'
      split at h
      · rename_i content heq
        exact absurd (List.cons.inj heq).1 hplus
      · split at h'
        · rename_i content heq
          exact absurd (List.cons.inj heq).1 hplus
        · refine alike_completing ?_ hline (List.prefix_append _ _) h hend h'
          intro first first' hfirst hfirst'
          exact Except.ok.inj (hfirst'.symm.trans hfirst)
  | updating belowHeader update =>
    simp only at h h'
    split at h
    · rename_i path hpath
      obtain rfl := Except.ok.inj h
      -- a destination without a chunk
      have hbelow : belowHeader = true := by
        cases belowHeader with
        | true => rfl
        | false => cases hpath
      subst hbelow
      exact absurd (hplaced update rfl) (close_ok hend).1
    · split at h'
      · rename_i path hpath
        -- the line is cut off in the marker
        have hbelow : belowHeader = true := by
          cases belowHeader with
          | true => rfl
          | false => cases hpath
        subst hbelow
        have hmove : moveToMarker <+: line' := ⟨path, (Text.stripStart_eq_some_iff.mp hpath).symm⟩
        have hstar : line.head? = some '*' := by
          rw [← hhead, Text.head?_begins hmove (by decide)]
          rfl
        have hchunks := hplaced update rfl
        rcases readUpdate_cases h with
          ⟨hblank, -⟩ | ⟨hclosing, -⟩ | ⟨context, hcontext, -⟩ | ⟨-, chunk, hdiff, -⟩
        · exact absurd hblank hline.trim_ne_nil
        · exact absurd hclosing (not_completing hchunks)
        · rw [head?_of_contextOf hcontext] at hstar
          cases hstar
        · exact absurd hstar (head?_of_diffLine hdiff)
      · exact alike_readUpdate hline hbegins h hend h'
  | marked update context =>
    simp only at h h'
    split at h
    · split at h'
      · obtain rfl := Except.ok.inj h
        obtain rfl := Except.ok.inj h'
        exact .same [] ⟨rfl, rfl, rfl⟩
      · cases h'
    · cases h
  | inChunk update chunk =>
    have hsome := diffLine_head hhead chunk chunk
    simp only at h h'
    cases hdiff : diffLine chunk line with
    | some last =>
      rw [hdiff] at hsome h
      obtain ⟨last', hdiff'⟩ := Option.isSome_iff_exists.mp hsome
      rw [hdiff'] at h'
      obtain rfl := Except.ok.inj h
      obtain rfl := Except.ok.inj h'
      exact .same [] ⟨rfl, rfl, rfl⟩
    | none =>
      rw [hdiff] at hsome h
      have hdiff' : diffLine chunk line' = none := Option.isSome_eq_false_iff.mp hsome
        |> Option.isNone_iff_eq_none.mp
      rw [hdiff'] at h'
      simp only at h h'
      by_cases heof : line = eofMarker
      · by_cases heof' : line' = eofMarker
        · rw [if_pos heof] at h
          rw [if_pos heof'] at h'
          obtain rfl := Except.ok.inj h
          obtain rfl := Except.ok.inj h'
          exact .same [] ⟨rfl, rfl, rfl⟩
        · rw [if_neg heof'] at h'
          have hgrown : eofMarker <+: line'.trim := by
            have hcut := Text.trim_prefix hbegins hline.trim_ne_nil
            rw [heof] at hcut
            exact hcut
          refine absurd h' (readUpdate_other eofMarker_other (.inr hgrown) ?_ ?_)
          · exact hline.trim_ne_nil_of_prefix hbegins
          · rw [hhead, heof]
            rfl
      · rw [if_neg heof] at h
        by_cases heof' : line' = eofMarker
        · -- the marker is cut off
          have hcut : line.trim <+: eofMarker := by
            have hcut := Text.trim_prefix hbegins hline.trim_ne_nil
            rw [heof'] at hcut
            exact hcut
          refine absurd h (readUpdate_other eofMarker_other (.inl hcut) hline.trim_ne_nil ?_)
          rw [← hhead, heof']
          rfl
        · rw [if_neg heof'] at h'
          exact alike_readUpdate hline hbegins h hend h'

/-- **The last line is cut off.** -/
theorem grows_line {hunks hunks' : List Hunk} (hplaced : place.WellPlaced) (hline : Text.Solid line)
    (hbegins : line <+: line') (h : readLines streaming place number [line] = .ok hunks)
    (h' : readLines streaming place number (line' :: rest) = .ok hunks') :
    Grows hunks hunks' := by
  obtain ⟨result, others, hstep, hend, rfl⟩ := readLines_cons_ok h
  obtain ⟨result', others', hstep', hrest, rfl⟩ := readLines_cons_ok h'
  have halike := alike_step hplaced hline hbegins hstep hend hstep'
  exact halike.grows (wellPlaced_step hstep) hend hrest

/-- **The last line is cut off and is the end marker**, which is no line of a hunk. -/
theorem grows_end {hunks hunks' : List Hunk} {next : Nat} (hne : line.trim ≠ [])
    (hcut : line.trim <+: endPatchMarker)
    (h : readLines streaming place number [line] = .ok hunks)
    (h' : place.finish streaming next = .ok hunks') : Grows hunks hunks' := by
  have hheader : ∀ result, readHeader number line ≠ .ok result :=
    fun result => readHeader_other endPatchMarker_other (.inl hcut)
  have hstar : ∀ c, Text.isWhitespace c = false → line.head? = some c → c = '*' := by
    intro c hc hhead
    have htrim : line.trim.head? = some c := Text.head?_trimBy (by rw [hc]; decide) hhead
    rw [← Text.head?_begins hcut hne] at htrim
    exact (Option.some.inj htrim).symm
  have hupdate : ∀ update : OpenUpdate, update.chunks ≠ [] → ∀ result,
      readUpdate streaming update number line ≠ .ok result := by
    intro update hchunks result hread
    rcases readUpdate_cases hread with
      ⟨hblank, -⟩ | ⟨hclosing, -⟩ | ⟨context, hcontext, -⟩ | ⟨hnone, -⟩
    · exact hne hblank
    · obtain ⟨first, others, -, hheader', -⟩ := completing_ok hclosing
      exact hheader _ hheader'
    · cases hstar '@' rfl (head?_of_contextOf hcontext)
    · exact hchunks hnone
  obtain ⟨result, others, hstep, hend, rfl⟩ := readLines_cons_ok h
  unfold Place.step at hstep
  cases place with
  | between => exact absurd hstep (hheader result)
  | adding path added =>
    simp only at hstep
    split at hstep
    · cases hstar '+' rfl rfl
    · obtain ⟨first, others, -, hheader', -⟩ := completing_ok hstep
      exact absurd hheader' (hheader _)
  | updating belowHeader update =>
    have hchunks : update.chunks ≠ [] := (close_ok h').1
    simp only at hstep
    split at hstep
    · next path hpath =>
      have hmove : moveToMarker <+: line := by
        cases belowHeader with
        | true => exact ⟨path, (Text.stripStart_eq_some_iff.mp hpath).symm⟩
        | false => cases hpath
      have hmarker : moveToMarker.trim <+: endPatchMarker :=
        (Text.trim_prefix hmove (by decide)).trans hcut
      exact absurd hmarker (by decide)
    · exact absurd hstep (hupdate update hchunks result)
  | marked update context => cases h'
  | inChunk update chunk =>
    obtain ⟨-, rfl⟩ := close_ok h'
    simp only at hstep
    split at hstep
    · -- the line went to the last chunk
      obtain rfl := Except.ok.inj hstep
      obtain ⟨-, rfl⟩ := close_ok hend
      have hkind : ∀ chunks chunks',
          (Hunk.updateFile update.path update.movePath chunks').kind =
            (Hunk.updateFile update.path update.movePath chunks).kind := fun _ _ => rfl
      exact grows_singleton (hkind _ _) []
    · split at hstep
      · next heof =>
        rw [heof] at hcut
        exact absurd hcut (by decide)
      · refine absurd hstep (hupdate (update.add chunk) ?_ result)
        unfold OpenUpdate.add
        simp

/-! ### Two prefixes of a patch -/

/-- The lines that a streaming parse reads, of the lines below the begin marker. -/
def streamedLines (first : Text) (rest : List Text) : List Text :=
  if (first :: rest).getLast?.any (fun last => last.trim = endPatchMarker) then rest.dropLast
  else rest

theorem checkPatchBoundariesStreaming_ok {patchLines : List Text} {boundaries : Boundaries}
    (h : checkPatchBoundariesStreaming patchLines = .ok boundaries) :
    ∃ first rest, patchLines = first :: rest ∧ first.trim = beginPatchMarker ∧
      boundaries = (first :: rest, streamedLines first rest) := by
  unfold checkPatchBoundariesStreaming at h
  split at h
  · next first rest =>
    by_cases hfirst : first.trim = beginPatchMarker
    · rw [if_pos hfirst] at h
      refine ⟨first, rest, rfl, hfirst, ?_⟩
      unfold streamedLines
      split at h
      · next hmarked =>
        rw [if_pos hmarked]
        exact (Except.ok.inj h).symm
      · next hopen =>
        rw [if_neg hopen]
        exact (Except.ok.inj h).symm
    · rw [if_neg hfirst] at h
      obtain ⟨first', rest', heq, htrim, -⟩ := checkPatchBoundariesStrict_ok h
      obtain ⟨rfl, -⟩ := List.cons.inj heq
      exact absurd htrim hfirst
  · obtain ⟨first, rest, heq, -⟩ := checkPatchBoundariesStrict_ok h
    cases heq

theorem parsePatchStreaming_ok {patch : Text} {args : ApplyPatchArgs}
    (h : parsePatchStreaming patch = .ok args) :
    ∃ first rest, patch.trim.lines = first :: rest ∧ first.trim = beginPatchMarker ∧
      readLines true .between 2 (streamedLines first rest) = .ok args.hunks := by
  obtain ⟨patchLines, hunkLines, hboundaries, hread, -⟩ := parsePatchText_ok_iff.mp h
  obtain ⟨first, rest, hlines, hfirst, heq⟩ := checkPatchBoundariesStreaming_ok hboundaries
  obtain ⟨-, rfl⟩ := Prod.mk.inj heq
  exact ⟨first, rest, hlines, hfirst, hread⟩

/-- The first lines of two patches are read alike. -/
theorem grows_above {above some' more : List Text} {hunks hunks' : List Hunk}
    (hplaced : place.WellPlaced)
    (hrest : ∀ {next : Place} {others others' : List Hunk}, next.WellPlaced →
      readLines streaming next (number + above.length) some' = .ok others →
        readLines streaming next (number + above.length) more = .ok others' →
          Grows others others')
    (h : readLines streaming place number (above ++ some') = .ok hunks)
    (h' : readLines streaming place number (above ++ more) = .ok hunks') :
    Grows hunks hunks' := by
  rw [readLines_append] at h h'
  obtain ⟨complete, next, others, hreach, hread, rfl⟩ := resume_ok h
  obtain ⟨complete', next', others', hreach', hread', rfl⟩ := resume_ok h'
  obtain ⟨rfl, rfl⟩ := Prod.mk.inj (Except.ok.inj (hreach.symm.trans hreach'))
  exact (hrest (wellPlaced_reach hplaced hreach) hread hread').prepend complete

theorem streamedLines_concat (first line : Text) (above : List Text) :
    streamedLines first (above ++ [line]) =
      if line.trim = endPatchMarker then above else above ++ [line] := by
  unfold streamedLines
  rw [← List.cons_append, List.getLast?_concat, List.dropLast_concat]
  simp only [Option.any_some, decide_eq_true_eq]

/-- **Two prefixes of a patch**, the hunks of the shorter one and those of the longer one. -/
theorem grows_streaming {patch patch' : Text} {args args' : ApplyPatchArgs}
    (hbegins : patch <+: patch') (h : parsePatchStreaming patch = .ok args)
    (h' : parsePatchStreaming patch' = .ok args') : Grows args.hunks args'.hunks := by
  obtain ⟨first, rest, hlines, -, hread⟩ := parsePatchStreaming_ok h
  obtain ⟨first', rest', hlines', -, hread'⟩ := parsePatchStreaming_ok h'
  have hne : patch.trim ≠ [] := by
    intro hnil
    rw [hnil] at hlines
    cases hlines
  obtain ⟨more, hmore⟩ := Text.trim_prefix hbegins hne
  obtain ⟨above, line, line', below, habove, hsolid, hbelow, hgrown⟩ :=
    Text.lines_grow (Text.solid_trim hne) more
  rw [hmore, hlines'] at hbelow
  rw [hlines] at habove
  have hplaced : Place.between.WellPlaced := wellPlaced_of_settled rfl
  cases above with
  | nil =>
    -- nothing but the begin marker
    obtain ⟨rfl, rfl⟩ := List.cons.inj habove
    have hnone : streamedLines first [] = [] := by
      unfold streamedLines
      split <;> rfl
    rw [hnone] at hread
    exact .inl (Except.ok.inj hread).symm
  | cons marker above =>
    rw [List.cons_append] at habove hbelow
    obtain ⟨rfl, rfl⟩ := List.cons.inj habove
    obtain ⟨rfl, rfl⟩ := List.cons.inj hbelow
    rw [streamedLines_concat] at hread
    by_cases hend : line.trim = endPatchMarker
    · -- the marker at the end of the shorter patch is a line like others in the longer one
      rw [if_pos hend, ← List.append_nil above] at hread
      have hmarked : ∃ kept, streamedLines first' (above ++ line' :: below) = above ++ kept := by
        unfold streamedLines
        split
        · exact ⟨_, List.dropLast_append_of_ne_nil (List.cons_ne_nil line' below)⟩
        · exact ⟨_, rfl⟩
      obtain ⟨kept, hkept⟩ := hmarked
      rw [hkept] at hread'
      exact grows_above hplaced grows_finish hread hread'
    · rw [if_neg hend] at hread
      rcases List.eq_nil_or_concat below with rfl | ⟨below, last, rfl⟩
      · rw [streamedLines_concat] at hread'
        by_cases hend' : line'.trim = endPatchMarker
        · rw [if_pos hend', ← List.append_nil above] at hread'
          have hcut := Text.trim_prefix hgrown hsolid.trim_ne_nil
          rw [hend'] at hcut
          refine grows_above hplaced ?_ hread hread'
          intro next others others' hnext hlast hfinish
          exact grows_end hsolid.trim_ne_nil hcut hlast hfinish
        · rw [if_neg hend'] at hread'
          refine grows_above hplaced ?_ hread hread'
          intro next others others' hnext
          exact grows_line hnext hsolid hgrown
      · have hmarked : ∃ kept, streamedLines first' (above ++ line' :: below.concat last) =
            above ++ line' :: kept := by
          rw [List.concat_eq_append, ← List.cons_append, ← List.append_assoc,
            streamedLines_concat]
          split
          · exact ⟨_, rfl⟩
          · exact ⟨below ++ [last], by rw [List.append_assoc, List.cons_append]⟩
        obtain ⟨kept, hkept⟩ := hmarked
        rw [hkept] at hread'
        refine grows_above hplaced ?_ hread hread'
        intro next others others' hnext
        exact grows_line hnext hsolid hgrown

/-! ### The whole patch -/

/-- What the strict reader takes the streaming one takes too. -/
theorem readUpdate_streaming {result : List Hunk × Place}
    (h : readUpdate false update number line = .ok result) :
    readUpdate true update number line = .ok result := by
  unfold readUpdate at h ⊢
  by_cases hlone : line = ['@']
  · -- a lone at-sign starts no chunk
    subst hlone
    have hno : contextOf ['@'] = none := by decide
    rw [if_neg (by decide), if_neg (by decide), if_neg (by decide), hno] at h
    simp only at h
    split at h
    · cases h
    · cases h
  · rw [if_neg fun hboth : _ ∧ _ => hlone hboth.2] at h ⊢
    split
    · next hblank => rwa [if_pos hblank] at h
    · next hfull =>
      rw [if_neg hfull] at h
      split
      · next hstar => rwa [if_pos hstar] at h
      · next hother =>
        rw [if_neg hother] at h
        cases hcontext : contextOf line with
        | some context =>
          rw [hcontext] at h
          exact h
        | none =>
          rw [hcontext] at h
          simp only at h ⊢
          split
          · next hchunks => rwa [if_pos hchunks] at h
          · next hchunks =>
            rw [if_neg hchunks] at h
            cases h

theorem step_streaming {result : List Hunk × Place}
    (h : place.step false number line = .ok result) :
    place.step true number line = .ok result := by
  unfold Place.step at h ⊢
  cases place with
  | between => exact h
  | adding path added => exact h
  | updating belowHeader update =>
    simp only at h ⊢
    split
    · next path hpath =>
      rw [hpath] at h
      exact h
    · next hnone =>
      rw [hnone] at h
      exact readUpdate_streaming h
  | marked update context =>
    simp only at h ⊢
    split
    · next chunk hdiff =>
      rw [hdiff] at h
      exact h
    · next hnone =>
      rw [hnone] at h
      cases h
  | inChunk update chunk =>
    simp only at h ⊢
    split
    · next chunk' hdiff =>
      rw [hdiff] at h
      exact h
    · next hnone =>
      rw [hnone] at h
      simp only at h
      split
      · next heof => rwa [if_pos heof] at h
      · next heof =>
        rw [if_neg heof] at h
        exact readUpdate_streaming h

theorem finish_streaming {hunks : List Hunk} (h : place.finish false number = .ok hunks) :
    place.finish true number = .ok hunks := by
  unfold Place.finish at h ⊢
  cases place with
  | marked update context => cases h
  | between => exact h
  | adding path added => exact h
  | updating belowHeader update => exact h
  | inChunk update chunk => exact h

theorem readLines_streaming {hunks : List Hunk}
    (h : readLines false place number lines = .ok hunks) :
    readLines true place number lines = .ok hunks := by
  induction lines generalizing place number hunks with
  | nil => exact finish_streaming h
  | cons line rest ih =>
    obtain ⟨result, others, hstep, hrest, rfl⟩ := readLines_cons_ok h
    rw [readLines_cons, step_streaming hstep, resume, ih hrest]
    rfl

/-- **A patch that the strict parser takes** is read alike while it streams. -/
theorem parsePatchStreaming_of_strict {patch : Text} {args : ApplyPatchArgs}
    (h : parsePatchText patch .strict = .ok args) : parsePatchStreaming patch = .ok args := by
  obtain ⟨patchLines, hunkLines, hboundaries, hread, hargs⟩ := parsePatchText_ok_iff.mp h
  obtain ⟨first, rest, hlines, hfirst, ⟨last, hlast, hend⟩, heq⟩ :=
    checkPatchBoundariesStrict_ok hboundaries
  obtain ⟨rfl, rfl⟩ := Prod.mk.inj heq
  have hmarked : (first :: rest).getLast?.any (fun last => last.trim = endPatchMarker) = true := by
    rw [hlast]
    simp [hend]
  refine parsePatchText_ok_iff.mpr ⟨first :: rest, rest.dropLast, ?_, ?_, hargs⟩
  · rw [hlines]
    unfold checkPatchBoundaries checkPatchBoundariesStreaming
    simp only
    rw [if_pos hfirst, if_pos hmarked]
  · exact readLines_streaming hread

/-- **A patch that streams in**: of two of its prefixes that are accepted the longer one has all
    hunks of the shorter one but the last, and a hunk of the same kind in the last one's place; the
    whole patch, if the strict parser takes it, gives the strict parser's hunks. -/
theorem parsePatchStreaming_grows (text : Text) :
    (∀ before after argsBefore argsAfter, before <+: after → after <+: text →
      parsePatchStreaming before = .ok argsBefore → parsePatchStreaming after = .ok argsAfter →
        argsBefore.hunks.length ≤ argsAfter.hunks.length ∧
          argsBefore.hunks.dropLast <+: argsAfter.hunks ∧
            ∀ last, argsBefore.hunks.getLast? = some last →
              ∃ hunk, argsAfter.hunks[argsBefore.hunks.length - 1]? = some hunk ∧
                hunk.kind = last.kind) ∧
      ∀ args, parsePatchText text .strict = .ok args → parsePatchStreaming text = .ok args := by
  constructor
  · intro before after argsBefore argsAfter hbegins _ hbefore hafter
    exact (grows_streaming hbegins hbefore hafter).spec
  · intro args hargs
    exact parsePatchStreaming_of_strict hargs

/-- A patch that adds a file and deletes another. -/
def addAndDelete : Text :=
  "*** Begin Patch\n*** Add File: a\n+x\n*** Delete File: b\n*** End Patch".toList

/-- After thirty-one characters the first file has no line yet, and after fifty-three the second
    one is there. -/
theorem parsePatchStreaming_grows_addAndDelete :
    (1 ≤ 2 ∧ ([] : List Hunk) <+: [.addFile ['a'] ['x', '\n'], .deleteFile ['b']] ∧
      ∀ last, [Hunk.addFile ['a'] []].getLast? = some last →
        ∃ hunk, [Hunk.addFile ['a'] ['x', '\n'], .deleteFile ['b']][0]? = some hunk ∧
          hunk.kind = last.kind) ∧
      parsePatchStreaming addAndDelete = parsePatchText addAndDelete .strict :=
  have hgrows := (parsePatchStreaming_grows addAndDelete).1 (addAndDelete.take 31)
    (addAndDelete.take 53)
    ⟨"*** Begin Patch\n*** Add File: a".toList, [.addFile ['a'] []], none⟩
    ⟨"*** Begin Patch\n*** Add File: a\n+x\n*** Delete File: b".toList,
      [.addFile ['a'] ['x', '\n'], .deleteFile ['b']], none⟩
    (by decide +kernel) (by decide +kernel) (by decide +kernel) (by decide +kernel)
  have hstrict : parsePatchText addAndDelete .strict =
      .ok ⟨addAndDelete, [.addFile ['a'] ['x', '\n'], .deleteFile ['b']], none⟩ := by
    decide +kernel
  ⟨hgrows, ((parsePatchStreaming_grows addAndDelete).2 _ hstrict).trans hstrict.symm⟩

end CodexMonitor.ApplyPatch
