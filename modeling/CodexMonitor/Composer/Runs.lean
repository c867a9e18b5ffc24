import CodexMonitor.Composer.Positions
import CodexMonitor.Lib.Machine

namespace CodexMonitor.Composer

open Text

/-!
# Composer — runs of operations

The text area as a machine whose actions are its operations.

* `Op.Allowed` — what callers meet; `apply_step` — what an operation does then to a sound state.
* `run_sound` — no run panics, and its states are sound.
* `elements_atomic` — the elements are edited as a whole.
* `cursorOutside_iff` — the runs on which the cursor is never in an element.
* `kill_yank`, `restore_textElements` — killing and restoring.
-/

namespace TextArea

/-- Ranges are made elements if they meet none, and are not empty. -/
theorem addElementRange_cases (s : TextArea) (range : Nat × Nat) :
    s.addElementRange range = (s, none) ∨
      ((clampRange s.text range).1 < (clampRange s.text range).2 ∧
        (∀ e ∈ s.elements, e.stop ≤ (clampRange s.text range).1 ∨
          (clampRange s.text range).2 ≤ e.start) ∧
        s.addElementRange range =
          ((s.addElementWithId (clampRange s.text range).1 (clampRange s.text range).2 none).1,
            some s.nextElementId)) := by
  obtain ⟨start, hstart⟩ : ∃ start, start = (clampRange s.text range).1 := ⟨_, rfl⟩
  obtain ⟨stop, hstop⟩ : ∃ stop, stop = (clampRange s.text range).2 := ⟨_, rfl⟩
  have heq : s.addElementRange range =
      if stop ≤ start then (s, none)
      else if s.elements.any fun e => e.start == start && e.stop == stop then (s, none)
      else if s.elements.any fun e => start < e.stop && e.start < stop then (s, none)
      else ((s.addElementWithId start stop none).1, some s.nextElementId) := by
    rw [hstart, hstop]
    rfl
  rw [← hstart, ← hstop, heq]
  split
  next => exact .inl rfl
  next hlt =>
    split
    next => exact .inl rfl
    next =>
      split
      next => exact .inl rfl
      next hmeet =>
        refine .inr ⟨by omega, fun e he => ?_, rfl⟩
        rw [List.any_eq_true] at hmeet
        by_contra hno
        refine hmeet ⟨e, he, ?_⟩
        simp only [Bool.and_eq_true, decide_eq_true_eq]
        omega

end TextArea

/-! ### What an operation does -/

namespace Op

variable {s : TextArea} {range : Nat × Nat}

/-- **What callers meet**: ranges to replace are at boundaries, and the elements of a whole text do
    not meet. -/
def Allowed (s : TextArea) : Op → Prop
  | .replaceRange range _ => range.1 ≤ range.2 ∧ isCharBoundary s.text range.1 = true ∧
      isCharBoundary s.text range.2 = true
  | .setTextWithElements _ ranges => ranges.Pairwise TextArea.DisjointRanges
  | _ => True

/-- **The operation makes no element around the cursor.** -/
def AvoidsCursor (s : TextArea) : Op → Prop
  | .addElementRange range => (s.addElementRange range).2 = none ∨
      s.cursorPos ≤ (TextArea.clampRange s.text range).1 ∨
      (TextArea.clampRange s.text range).2 ≤ s.cursorPos
  | _ => True

/-- The texts of the elements that an operation makes. -/
def Introduces (s : TextArea) : Op → Text → Prop
  | .setTextWithElements text ranges, piece => ∃ range ∈ ranges,
      slice text (TextArea.clampRange text range).1 (TextArea.clampRange text range).2 = some piece
  | .replaceElementPayload _ new, piece => piece = new
  | .insertElement text, piece => piece = text
  | .insertNamedElement text _, piece => piece = text
  | .updateNamedElementById _ text, piece => piece = text
  | .addElementRange range, piece => slice s.text (TextArea.clampRange s.text range).1
      (TextArea.clampRange s.text range).2 = some piece
  | _, _ => False

/-- The operation may fill the kill buffer. -/
def kills : Op → Bool
  | .deleteBackwardWord => true
  | .deleteForwardWord => true
  | .killToEndOfLine => true
  | .killToBeginningOfLine => true
  | _ => false

end Op

namespace TextArea

variable {seg : Segmenter} {s s' : TextArea} {op : Op} {ops front back : List Op}

/-- **A step**: what an operation does to a sound state. -/
structure Step (op : Op) (s s' : TextArea) : Prop where
  sound : s'.Sound
  elements : ∀ e' ∈ s'.elements, (∃ e ∈ s.elements, Kept s.text s'.text e e') ∨
    ∃ piece, op.Introduces s piece ∧ slice s'.text e'.start e'.stop = some piece
  outside : op.AvoidsCursor s → s.CursorOutside → s'.CursorOutside
  killBuffer : op.kills = false → s'.killBuffer = s.killBuffer
  killed : op.kills = true → Killed s s'

namespace Step

theorem of_effect {introduced : Text → Prop} (h : Effect introduced s s')
    (hnew : ∀ piece, introduced piece → op.Introduces s piece) (hkills : op.kills = false) :
    Step op s s' := by
  have heffect := h.mono hnew
  exact ⟨heffect.sound, heffect.elements, fun _ => heffect.outside, fun _ => h.killBuffer,
    fun hkill => by rw [hkills] at hkill; exact absurd hkill Bool.false_ne_true⟩

theorem of_nothing (h : Effect nothing s s') (hkills : op.kills = false) : Step op s s' :=
  of_effect h (fun _ hpiece => hpiece.elim) hkills

theorem of_kill (h : KillEffect s s') (hkilled : Killed s s') (hkills : op.kills = true) :
    Step op s s' := by
  obtain ⟨killed, heffect⟩ := h
  refine ⟨heffect.sound, heffect.of_nothing.elements, fun _ => heffect.outside, fun hno => ?_,
    fun _ => hkilled⟩
  rw [hkills] at hno
  exact absurd hno.symm Bool.false_ne_true

/-- An element is made of a range, around the cursor or not. -/
theorem addElementRange (h : s.Sound) (range : Nat × Nat) :
    Step (.addElementRange range) s (s.addElementRange range).1 := by
  rcases addElementRange_cases s range with heq | ⟨hlt, hside, heq⟩
  · rw [heq]
    exact of_nothing h.effect_refl rfl
  · have hstart : Boundary s.text (clampRange s.text range).1 := boundary_clampToCharBoundary _ _
    have hstop : Boundary s.text (clampRange s.text range).2 := boundary_clampToCharBoundary _ _
    obtain ⟨piece, hpiece, -⟩ := exists_slice hstart hstop (by omega)
    have hadded := addElementWithId_sound h (by omega) hstart hstop hpiece hside none
    rw [heq]
    refine ⟨hadded.1, fun e' he' => ?_, fun havoid hout => ?_, fun _ => rfl,
      fun hno => absurd hno Bool.false_ne_true⟩
    · rcases hadded.2 e' he' with hkept | ⟨_, rfl, hslice⟩
      · exact .inl hkept
      · exact .inr ⟨_, hpiece, hslice⟩
    · refine addElementWithId_outside hout ?_
      rcases havoid with hnone | hcursor
      · rw [heq] at hnone
        cases hnone
      · exact hcursor

end Step

/-- **Every operation that is allowed** in a sound state is a step; none panics. -/
theorem apply_step (seg : Segmenter) (h : s.Sound) (hallowed : op.Allowed s) :
    ∃ s', s.apply seg op = some s' ∧ Step op s s' := by
  cases op with
  | setTextClearingElements text =>
    exact ⟨_, rfl, .of_nothing (setTextInner_none s text) rfl⟩
  | setTextWithElements text ranges =>
    exact ⟨_, rfl, .of_effect (setTextInner_effect s text hallowed) (fun _ => id) rfl⟩
  | insertStr text =>
    obtain ⟨s', hs', hedited⟩ := insertStrAt_edited h s.cursorPos text
    exact ⟨s', hs', .of_nothing hedited.effect rfl⟩
  | insertStrAt pos text =>
    obtain ⟨s', hs', hedited⟩ := insertStrAt_edited h pos text
    exact ⟨s', hs', .of_nothing hedited.effect rfl⟩
  | replaceRange range text =>
    obtain ⟨s', hs', heffect⟩ := replaceRange_edited h (isCharBoundary_iff.mp hallowed.2.1)
      (isCharBoundary_iff.mp hallowed.2.2) hallowed.1 text
    exact ⟨s', hs', .of_nothing heffect rfl⟩
  | setCursor pos => exact ⟨_, rfl, .of_nothing (h.effect_setCursor pos) rfl⟩
  | layout width => exact ⟨_, rfl, .of_nothing (layout_effect h seg width) rfl⟩
  | deleteBackward n =>
    obtain ⟨s', hs', heffect⟩ := deleteBackward_effect h seg n
    exact ⟨s', hs', .of_nothing heffect rfl⟩
  | deleteForward n =>
    obtain ⟨s', hs', heffect⟩ := deleteForward_effect h seg n
    exact ⟨s', hs', .of_nothing heffect rfl⟩
  | deleteBackwardWord =>
    obtain ⟨s', hs', heffect, hkilled⟩ := deleteBackwardWord_effect h seg
    exact ⟨s', hs', .of_kill heffect hkilled rfl⟩
  | deleteForwardWord =>
    obtain ⟨s', hs', heffect, hkilled⟩ := deleteForwardWord_effect h seg
    exact ⟨s', hs', .of_kill heffect hkilled rfl⟩
  | killToEndOfLine =>
    obtain ⟨s', hs', heffect, hkilled⟩ := killToEndOfLine_effect h
    exact ⟨s', hs', .of_kill heffect hkilled rfl⟩
  | killToBeginningOfLine =>
    obtain ⟨s', hs', heffect, hkilled⟩ := killToBeginningOfLine_effect h
    exact ⟨s', hs', .of_kill heffect hkilled rfl⟩
  | yank =>
    obtain ⟨s', hs', heffect⟩ := yank_effect h
    exact ⟨s', hs', .of_nothing heffect rfl⟩
  | moveCursorLeft =>
    obtain ⟨hboundary, hout, -⟩ := prevAtomicBoundary_spec h seg s.cursorPos
    exact ⟨_, rfl, .of_nothing (h.effect_cursor hboundary (fun _ => hout) none) rfl⟩
  | moveCursorRight =>
    obtain ⟨hboundary, hout, -⟩ := nextAtomicBoundary_spec h seg h.cursor.le_byteLen
    exact ⟨_, rfl, .of_nothing (h.effect_cursor hboundary (fun _ => hout) none) rfl⟩
  | moveCursorUp =>
    obtain ⟨s', hs', heffect⟩ := moveCursorUp_effect h seg
    exact ⟨s', hs', .of_nothing heffect rfl⟩
  | moveCursorDown =>
    obtain ⟨s', hs', heffect⟩ := moveCursorDown_effect h seg
    exact ⟨s', hs', .of_nothing heffect rfl⟩
  | moveCursorToPreviousWord =>
    obtain ⟨start, hstart, -⟩ := beginningOfPreviousWord_spec h seg
    refine ⟨s.setCursor start, ?_, .of_nothing (h.effect_setCursor start) rfl⟩
    rw [apply, hstart]
    rfl
  | moveCursorToNextWord =>
    obtain ⟨stop, hstop, -⟩ := endOfNextWord_spec h seg
    refine ⟨s.setCursor stop, ?_, .of_nothing (h.effect_setCursor stop) rfl⟩
    rw [apply, hstop]
    rfl
  | moveCursorToBeginningOfLine moveUpAtBol =>
    obtain ⟨s', hs', heffect⟩ := moveCursorToBeginningOfLine_effect h moveUpAtBol
    exact ⟨s', hs', .of_nothing heffect rfl⟩
  | moveCursorToEndOfLine moveDownAtEol =>
    obtain ⟨s', hs', heffect⟩ := moveCursorToEndOfLine_effect h moveDownAtEol
    exact ⟨s', hs', .of_nothing heffect rfl⟩
  | replaceElementPayload old new =>
    obtain ⟨result, hresult, heffect⟩ := replaceElementPayload_effect h old new
    refine ⟨result.1, ?_, .of_effect heffect (fun _ => id) rfl⟩
    rw [apply, hresult]
    rfl
  | insertElement text =>
    obtain ⟨result, hresult, heffect⟩ := insertElementWithId_effect h text none
    refine ⟨result.1, ?_, .of_effect heffect (fun _ => id) rfl⟩
    rw [apply, insertElement, hresult]
    rfl
  | insertNamedElement text id =>
    obtain ⟨result, hresult, heffect⟩ := insertElementWithId_effect h text (some id)
    refine ⟨result.1, ?_, .of_effect heffect (fun _ hpiece => hpiece) rfl⟩
    rw [apply, insertNamedElement, hresult]
    rfl
  | replaceElementById id text =>
    obtain ⟨result, hresult, heffect⟩ := replaceElementById_effect h id text
    refine ⟨result.1, ?_, .of_nothing heffect rfl⟩
    rw [apply, hresult]
    rfl
  | updateNamedElementById id text =>
    obtain ⟨result, hresult, heffect⟩ := updateNamedElementById_effect h id text
    refine ⟨result.1, ?_, .of_effect heffect (fun _ hpiece => hpiece) rfl⟩
    rw [apply, hresult]
    rfl
  | addElementRange range => exact ⟨_, rfl, .addElementRange h range⟩
  | removeElementRange range =>
    exact ⟨_, rfl, .of_nothing (removeElementRange_effect h range) rfl⟩

/-! ### Runs -/

/-- The text area, from when it is empty. -/
def machine (seg : Segmenter) : Machine TextArea Op := ⟨{}, fun s op => s.apply seg op⟩

/-- Every operation of the run is allowed. -/
def AllowedRun (seg : Segmenter) (ops : List Op) : Prop :=
  (machine seg).Guarded (fun s op => op.Allowed s) {} ops

theorem exists_sound_run (h : AllowedRun seg ops) : ∃ s, (machine seg).run {} ops = some s ∧ s.Sound := by
  refine Machine.run_total (fun s op hs hallowed => ?_) sound_empty h
  obtain ⟨s', hs', hstep⟩ := apply_step seg hs hallowed
  exact ⟨s', hs', hstep.sound⟩

theorem sound_of_run (h : AllowedRun seg ops) (hrun : (machine seg).run {} ops = some s) :
    s.Sound := by
  obtain ⟨s', hs', hsound⟩ := exists_sound_run h
  rw [hrun] at hs'
  rw [Option.some.inj hs']
  exact hsound

/-! ### A text of single bytes -/

/-- Texts whose characters are graphemes and columns, of one word and one line. -/
def asciiSegmenter : Segmenter where
  graphemes t := t.map fun c => [c]
  graphemes_flatten t := by
    induction t with
    | nil => rfl
    | cons c t ih => rw [List.map_cons, List.flatten_cons, ih, List.singleton_append]
  wordBounds t := if t.isEmpty then [] else [t]
  wordBounds_flatten t := by
    cases t with
    | nil => rfl
    | cons c t => exact List.flatten_singleton
  width t := t.length
  wrapRanges t _ := [(0, byteLen t + 1)]
  wrapRanges_lines t _ line hline := by
    rw [List.mem_singleton.mp hline]
    exact ⟨byteLen t, rfl, Boundary.zero t, Boundary.all t, Nat.zero_le _⟩
  wrapRanges_sorted _ _ := List.pairwise_singleton _ _

/-- A draft with an image, in which a word is typed. -/
def draftOps : List Op :=
  [.setTextWithElements "ab[img]c".toList [(2, 7)], .setCursor 4, .insertStr "xy".toList]

theorem draftOps_allowed : AllowedRun asciiSegmenter draftOps := by
  refine Machine.guarded_of_forall (fun op hop s => ?_) _
  simp only [draftOps, List.mem_cons, List.not_mem_nil, or_false] at hop
  rcases hop with rfl | rfl | rfl
  · exact List.pairwise_singleton _ _
  · trivial
  · trivial

/-- The cursor was moved out of the image. -/
def draft : TextArea where
  text := "abxy[img]c".toList
  cursorPos := 4
  elements := [⟨1, 4, 9, none⟩]
  nextElementId := 2

theorem draftOps_run : (machine asciiSegmenter).run {} draftOps = some draft := by decide +kernel

/-! ### Runs that are allowed -/

/-- **Elements are edited as a whole.**  After an operation in the state of a run, each element is
    one that was there, with its identifier and the text that it had, or holds just a text for
    which the operation makes an element. -/
theorem elements_atomic (seg : Segmenter) (ops : List Op) (op : Op) (s s' : TextArea)
    (h : AllowedRun seg ops) (hrun : (machine seg).run {} ops = some s) (hallowed : op.Allowed s)
    (hstep : s.apply seg op = some s') : ∀ e' ∈ s'.elements,
      (∃ e ∈ s.elements, Kept s.text s'.text e e') ∨
        ∃ piece, op.Introduces s piece ∧ slice s'.text e'.start e'.stop = some piece := by
  obtain ⟨next, hnext, hstep'⟩ := apply_step seg (sound_of_run h hrun) hallowed
  rw [hstep] at hnext
  rw [Option.some.inj hnext]
  exact hstep'.elements

/-- The draft without the word before the image. -/
def shortDraft : TextArea where
  text := "[img]c".toList
  cursorPos := 0
  elements := [⟨1, 0, 5, none⟩]
  nextElementId := 2
  killBuffer := "abxy".toList

theorem shortDraft_atomic :
    (∃ e ∈ draft.elements, Kept draft.text shortDraft.text e ⟨1, 0, 5, none⟩) ∨
      ∃ piece, Op.Introduces draft .deleteBackwardWord piece ∧
        slice shortDraft.text 0 5 = some piece :=
  elements_atomic asciiSegmenter draftOps .deleteBackwardWord draft shortDraft draftOps_allowed
    draftOps_run trivial (by decide +kernel) ⟨1, 0, 5, none⟩ (List.mem_singleton.mpr rfl)

/-- **A cursor in no element.**  The cursor is outside of all elements at every point of a run
    exactly if no operation of it makes an element around the cursor. -/
theorem cursorOutside_iff (seg : Segmenter) (ops : List Op) (h : AllowedRun seg ops) :
    (∀ front back s, ops = front ++ back → (machine seg).run {} front = some s →
      s.CursorOutside) ↔
      (machine seg).Guarded (fun s op => op.AvoidsCursor s) {} ops := by
  refine Machine.always_iff (I := fun s => s.Sound ∧ s.CursorOutside) (fun s hs => hs.2) ?_ ?_
    ⟨sound_empty, fun e he => absurd he List.not_mem_nil⟩ h
  · intro s op s' hs hallowed havoid hrun
    obtain ⟨next, hnext, hstep⟩ := apply_step seg hs.1 hallowed
    rw [show s.apply seg op = some s' from hrun] at hnext
    rw [Option.some.inj hnext]
    exact ⟨hstep.sound, hstep.outside havoid hs.2⟩
  · intro s op hs hallowed hmeets
    obtain ⟨s', hs', -⟩ := apply_step seg hs.1 hallowed
    refine ⟨s', hs', fun hout => hmeets ?_⟩
    cases op with
    | addElementRange range =>
      rcases addElementRange_cases s range with heq | ⟨-, -, heq⟩
      · exact .inl (by rw [heq])
      · right
        -- the new element is in the state that follows
        have hnew : s' = (s.addElementWithId (clampRange s.text range).1
            (clampRange s.text range).2 none).1 := by
          rw [← Option.some.inj hs', heq]
        rw [hnew] at hout
        exact contains_eq_false.mp (hout _ (mem_addElementWithId.mpr (.inr rfl)))
    | _ => trivial

theorem draft_cursor :
    (∀ front back s, draftOps = front ++ back → (machine asciiSegmenter).run {} front = some s →
      s.CursorOutside) ↔
      (machine asciiSegmenter).Guarded (fun s op => op.AvoidsCursor s) {} draftOps :=
  cursorOutside_iff asciiSegmenter draftOps draftOps_allowed

/-- **Killing and yanking.**  What a killing operation removes in the state of a run can be put back
    at once, and stays in the kill buffer through every run without such an operation; yanking puts
    it into the text that is there then. -/
theorem kill_yank (seg : Segmenter) (ops more : List Op) (op : Op) (s s' s'' : TextArea)
    (h : AllowedRun seg ops) (hrun : (machine seg).run {} ops = some s) (hkills : op.kills = true)
    (hstep : s.apply seg op = some s') (hchanged : s' ≠ s)
    (hmore : (machine seg).Guarded (fun s op => op.Allowed s ∧ op.kills = false) s' more)
    (hrun' : (machine seg).run s' more = some s'') :
    (∃ restored, s'.apply seg .yank = some restored ∧ restored.text = s.text) ∧
      ∃ yanked front back, s''.apply seg .yank = some yanked ∧ s''.text = front ++ back ∧
        yanked.text = front ++ s'.killBuffer ++ back := by
  have hallowed : op.Allowed s := by
    cases op with
    | replaceRange range text => cases hkills
    | setTextWithElements text ranges => cases hkills
    | _ => trivial
  obtain ⟨next, hnext, hstep'⟩ := apply_step seg (sound_of_run h hrun) hallowed
  rw [hstep] at hnext
  obtain rfl := Option.some.inj hnext
  rcases hstep'.killed hkills with hsame | ⟨hne, hrestore⟩
  · exact absurd hsame hchanged
  · refine ⟨hrestore, ?_⟩
    obtain ⟨hsound, hbuffer⟩ := Machine.run_invariant
      (I := fun state => state.Sound ∧ state.killBuffer = s'.killBuffer)
      (fun state op next hstate hop hrun => by
        obtain ⟨next', hnext, hstep⟩ := apply_step seg hstate.1 hop.1
        rw [show state.apply seg op = some next from hrun] at hnext
        obtain rfl := Option.some.inj hnext
        exact ⟨hstep.sound, (hstep.killBuffer hop.2).trans hstate.2⟩)
      ⟨hstep'.sound, rfl⟩ hmore hrun'
    rw [← hbuffer] at hne ⊢
    obtain ⟨yanked, hyank, hedited⟩ := yank_spec hsound hne
    have hboundary := (clampPosToNearestBoundary_spec hsound.placed s''.cursorPos).1
    obtain ⟨front, back, htext, hfront⟩ := hboundary
    refine ⟨yanked, front, back, hyank, htext, ?_⟩
    have hreplaced := hedited.replaced
    unfold Text.replaceRange clampPosForInsertion at hreplaced
    rw [if_pos (Nat.le_refl _), htext, ← hfront, byteTake_append, byteDrop_append] at hreplaced
    exact (Option.some.inj hreplaced).symm

/-- The draft is cleared. -/
def clearedDraft : TextArea where
  nextElementId := 2
  killBuffer := "abxy".toList

theorem clearedDraft_yank :
    (∃ restored, shortDraft.apply asciiSegmenter .yank = some restored ∧
      restored.text = draft.text) ∧
      ∃ yanked front back, clearedDraft.apply asciiSegmenter .yank = some yanked ∧
        clearedDraft.text = front ++ back ∧
        yanked.text = front ++ shortDraft.killBuffer ++ back :=
  kill_yank asciiSegmenter draftOps [.setTextClearingElements []] .deleteBackwardWord draft
    shortDraft clearedDraft draftOps_allowed draftOps_run rfl (by decide +kernel) (by decide)
    ⟨⟨trivial, rfl⟩, fun _ _ => trivial⟩ (by decide +kernel)

theorem textElements_eq (s : TextArea) : s.textElements = (s.elements.map TextElement.range).map
    fun range => (range, slice s.text range.1 range.2) := by
  unfold textElements
  rw [List.map_map]
  rfl

/-- **A draft is restored.**  The text of a state of a run and the ranges of its elements, put into
    any text area, give the same text and the same elements, apart from empty ones. -/
theorem restore_textElements (seg : Segmenter) (ops : List Op) (s s₀ : TextArea)
    (h : AllowedRun seg ops) (hrun : (machine seg).run {} ops = some s) :
    (Op.setTextWithElements s.text (s.textElements.map (·.1))).Allowed s₀ ∧
      ∃ s', s₀.apply seg (.setTextWithElements s.text (s.textElements.map (·.1))) = some s' ∧
        s'.text = s.text ∧
        s'.textElements = s.textElements.filter fun element => element.1.1 < element.1.2 := by
  have hsound := sound_of_run h hrun
  rw [textElements_eq, List.map_map]
  have hranges : (s.elements.map TextElement.range).map
      ((·.1) ∘ fun range : Nat × Nat => (range, slice s.text range.1 range.2)) =
      s.elements.map TextElement.range := List.map_id _
  rw [hranges]
  refine ⟨?_, _, rfl, ?_⟩
  · refine List.pairwise_map.mpr (hsound.placed.disjoint.imp fun hno => ?_)
    unfold Overlap at hno
    unfold DisjointRanges TextElement.range
    dsimp only
    omega
  · obtain ⟨new, next, cursor, heq, hnew, -⟩ :=
      setTextInner_eq s₀ s.text (s.elements.map TextElement.range)
    have hbounds : ∀ range ∈ s.elements.map TextElement.range,
        Boundary s.text range.1 ∧ Boundary s.text range.2 := by
      intro range hrange
      obtain ⟨e, he, rfl⟩ := List.mem_map.mp hrange
      exact ⟨hsound.placed.starts e he, hsound.placed.stops e he⟩
    rw [clampRanges_of_boundaries hbounds] at hnew
    have hsorted : SortedByStart new := by
      have hranges : (new.map TextElement.range).Pairwise (·.1 ≤ ·.1) := by
        rw [hnew]
        exact List.Pairwise.filter _ (List.pairwise_map.mpr hsound.sorted)
      exact (List.pairwise_map.mp hranges).imp id
    rw [heq]
    refine ⟨rfl, ?_⟩
    rw [textElements_eq, List.filter_map]
    show List.map _ (List.map _ (sortElements new)) = _
    rw [sortElements_of_sorted hsorted, hnew]
    rfl

theorem draft_restored : (Op.setTextWithElements draft.text (draft.textElements.map (·.1))).Allowed
    shortDraft ∧ ∃ s', shortDraft.apply asciiSegmenter
      (.setTextWithElements draft.text (draft.textElements.map (·.1))) = some s' ∧
      s'.text = draft.text ∧
      s'.textElements = draft.textElements.filter fun element => element.1.1 < element.1.2 :=
  restore_textElements asciiSegmenter draftOps draft shortDraft draftOps_allowed draftOps_run

end TextArea

end CodexMonitor.Composer
