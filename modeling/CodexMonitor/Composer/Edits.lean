import CodexMonitor.Composer.Elements

namespace CodexMonitor.Composer

open Text

/-!
# Composer — sound states and edits

A state is sound if its elements are placed in its text, in order, and its cursor and the lines
of its cache are at boundaries.  The two edits behind all others keep that.

* `Sound` — a sound state.
* `Effect` — what an operation does to a sound state: the next one is sound, each of its elements
  is one that was there with the text that it had, or is new, and a cursor that is in no element
  stays so.
* `insertStrAt_edited`, `replaceRangeRaw_edited` — the two edits.
* `killRange_effect` — what is killed can be put back.
* `replaceElementPayload_effect`, `setTextInner_effect` — payloads and whole texts.
-/

def TextElement.range (e : TextElement) : Nat × Nat := (e.start, e.stop)

namespace TextArea

variable {s s' s'' : TextArea} {introduced introduced' : Text → Prop} {text t' : Text}
  {a b c n p pos : Nat} {range : Nat × Nat}

/-! ### Sound states -/

/-- **A sound state.** -/
structure Sound (s : TextArea) : Prop where
  placed : Placed s.text s.elements
  sorted : SortedByStart s.elements
  cursor : Boundary s.text s.cursorPos
  lines : ∀ cache, s.wrapCache = some cache → ∀ line ∈ cache.2, LineOf s.text line

/-- No element is around the cursor. -/
def CursorOutside (s : TextArea) : Prop := Outside s.elements s.cursorPos

theorem sound_empty : Sound {} :=
  ⟨Placed.nil [], .nil, Boundary.zero [], fun _ h => absurd h (Option.some_ne_none _).symm⟩

/-- **The effect of an operation**, which may introduce elements with some texts. -/
structure Effect (introduced : Text → Prop) (s s' : TextArea) : Prop where
  sound : s'.Sound
  elements : ∀ e' ∈ s'.elements, (∃ e ∈ s.elements, Kept s.text s'.text e e') ∨
    ∃ piece, introduced piece ∧ slice s'.text e'.start e'.stop = some piece
  outside : s.CursorOutside → s'.CursorOutside
  killBuffer : s'.killBuffer = s.killBuffer

/-- No new element. -/
def nothing (_ : Text) : Prop := False

namespace Effect

theorem mono (h : Effect introduced s s') (hle : ∀ piece, introduced piece → introduced' piece) :
    Effect introduced' s s' := by
  refine ⟨h.sound, fun e' he' => ?_, h.outside, h.killBuffer⟩
  rcases h.elements e' he' with hkept | ⟨piece, hpiece, hslice⟩
  · exact .inl hkept
  · exact .inr ⟨piece, hle piece hpiece, hslice⟩

theorem of_nothing (h : Effect nothing s s') : Effect introduced s s' :=
  h.mono fun _ hpiece => hpiece.elim

/-- One operation after another. -/
theorem trans (h : Effect introduced s s') (h' : Effect introduced s' s'') :
    Effect introduced s s'' := by
  refine ⟨h'.sound, fun e'' he'' => ?_, fun hout => h'.outside (h.outside hout),
    h'.killBuffer.trans h.killBuffer⟩
  rcases h'.elements e'' he'' with ⟨e', he', hkept'⟩ | hnew
  · rcases h.elements e' he' with ⟨e, he, hkept⟩ | ⟨piece, hpiece, hslice⟩
    · exact .inl ⟨e, he, hkept'.id.trans hkept.id, hkept'.name.trans hkept.name,
        hkept'.text.trans hkept.text⟩
    · exact .inr ⟨piece, hpiece, hkept'.text.trans hslice⟩
  · exact .inr hnew

end Effect

namespace Sound

/-- Only the cursor is moved. -/
theorem effect_cursor (h : s.Sound) (hc : Boundary s.text c)
    (hout : s.CursorOutside → Outside s.elements c) (col : Option Nat) :
    Effect nothing s { s with cursorPos := c, preferredCol := col } :=
  ⟨⟨h.placed, h.sorted, hc, h.lines⟩, fun e he => .inl ⟨e, he, rfl, rfl, rfl⟩, hout, rfl⟩

theorem effect_refl (h : s.Sound) : Effect nothing s s :=
  ⟨h, fun e he => .inl ⟨e, he, rfl, rfl, rfl⟩, id, rfl⟩

theorem effect_setCursor (h : s.Sound) (pos : Nat) : Effect nothing s (s.setCursor pos) := by
  obtain ⟨hboundary, hout⟩ := clampPosToNearestBoundary_spec h.placed (min pos s.len)
  exact h.effect_cursor hboundary (fun _ => hout) none

/-- **One edit** that cuts no element. -/
theorem effect_edit (h : s.Sound) (hsplice : Splice s.text t' a b n)
    (hcut : ∀ e ∈ s.elements, Uncut a b e) (hc : Boundary t' c)
    (hout : s.CursorOutside → Outside (shiftElements s.elements a (b - a) n) c) :
    Effect nothing s { s with
      text := t'
      wrapCache := none
      cursorPos := c
      elements := shiftElements s.elements a (b - a) n
      preferredCol := none } := by
  refine ⟨⟨h.placed.shiftElements hsplice hcut, ?_, hc, ?_⟩, ?_, hout, rfl⟩
  · exact SortedByStart.shiftElements h.placed hsplice hcut h.sorted
  · intro cache hcache
    exact absurd hcache (Option.some_ne_none _).symm
  · intro e' he'
    exact .inl (kept_of_mem_shiftElements h.placed hsplice hcut he')

/-- The elements do not end behind the text. -/
theorem outside_len (h : s.Sound) : Outside s.elements s.len := by
  intro e he
  rw [contains_eq_false]
  exact .inr (h.placed.stops e he).le_byteLen

/-- A range that no element crosses cuts none. -/
theorem uncut_of_outside (hout : Outside s.elements p) : ∀ e ∈ s.elements, Uncut p p e := by
  intro e he
  have hclear := contains_eq_false.mp (hout e he)
  unfold Uncut
  omega

/-- The range of an element cuts none. -/
theorem uncut_element (h : s.Sound) {e : TextElement} (he : e ∈ s.elements) :
    ∀ f ∈ s.elements, Uncut e.start e.stop f := by
  intro f hf
  unfold Uncut
  by_cases hfe : f = e
  · rw [hfe]
    omega
  · have hno := h.placed.not_overlap hf he hfe
    unfold Overlap at hno
    omega

end Sound

/-! ### The two edits -/

/-- **An edit** has put a text at an offset, and no element reaches into it. -/
structure Edited (a b : Nat) (text : Text) (s s' : TextArea) : Prop where
  effect : Effect nothing s s'
  replaced : Text.replaceRange s.text a b text = some s'.text
  inserted : slice s'.text a (a + byteLen text) = some text
  bounds : Boundary s'.text a ∧ Boundary s'.text (a + byteLen text)
  side : ∀ e' ∈ s'.elements, e'.stop ≤ a ∨ a + byteLen text ≤ e'.start
  clear : s'.cursorPos ≤ a ∨ a + byteLen text ≤ s'.cursorPos

/-- The end of what was inserted is in no element. -/
theorem outside_of_side {elements : List TextElement}
    (h : ∀ e ∈ elements, e.stop ≤ a ∨ a + n ≤ e.start) : Outside elements (a + n) := by
  intro e he
  rw [contains_eq_false]
  have := h e he
  omega

theorem boundary_cursorAfter (hsplice : Splice s.text t' a b n) (hc : Boundary s.text c) :
    Boundary t' (cursorAfter c a b n) := by
  unfold cursorAfter
  split
  next hlt => exact hsplice.boundary_front hc (by omega)
  next =>
    split
    next => exact hsplice.boundary_inserted.2
    next hlt => exact hsplice.boundary_back hc (by omega)

/-- The cursor is not left in what was inserted. -/
theorem cursorAfter_clear (hab : a ≤ b) : cursorAfter c a b n ≤ a ∨ a + n ≤ cursorAfter c a b n := by
  unfold cursorAfter
  split
  · omega
  · split <;> omega

section Edits

variable (h : s.Sound)

include h

/-- **Inserting** at the boundary that is closest to a position. -/
theorem insertStrAt_edited (pos : Nat) (text : Text) : ∃ s', s.insertStrAt pos text = some s' ∧
    Edited (s.clampPosForInsertion pos) (s.clampPosForInsertion pos) text s s' := by
  obtain ⟨hpos, hout⟩ : Boundary s.text (s.clampPosForInsertion pos) ∧
      Outside s.elements (s.clampPosForInsertion pos) := clampPosToNearestBoundary_spec h.placed pos
  obtain ⟨t', hreplace, hsplice, hinserted⟩ := replaceRange_eq_some hpos hpos (Nat.le_refl _) text
  have hcut := Sound.uncut_of_outside hout
  have hside := shiftElements_side (n := byteLen text) (Nat.le_refl _) hcut
  have hrun : s.insertStrAt pos text = some { s with
      text := t'
      wrapCache := none
      cursorPos := if s.clampPosForInsertion pos ≤ s.cursorPos then s.cursorPos + byteLen text
        else s.cursorPos
      elements := shiftElements s.elements (s.clampPosForInsertion pos) 0 (byteLen text)
      preferredCol := none } := by
    unfold insertStrAt
    dsimp only
    rw [hreplace]
    rfl
  have hzero : s.clampPosForInsertion pos - s.clampPosForInsertion pos = 0 := Nat.sub_self _
  rw [hzero] at hside
  refine ⟨_, hrun, ?_, hreplace, hinserted, hsplice.boundary_inserted, hside, ?_⟩
  swap
  · by_cases hle : s.clampPosForInsertion pos ≤ s.cursorPos
    · right
      dsimp only
      rw [if_pos hle]
      exact Nat.add_le_add_right hle _
    · left
      dsimp only
      rw [if_neg hle]
      exact Nat.le_of_not_le hle
  have hedit := h.effect_edit hsplice hcut (c := if s.clampPosForInsertion pos ≤ s.cursorPos then
    s.cursorPos + byteLen text else s.cursorPos)
  rw [hzero] at hedit
  refine hedit ?_ ?_
  · split
    next hle =>
      have hback := hsplice.boundary_back h.cursor hle
      rw [hzero] at hback
      exact hback
    next hlt => exact hsplice.boundary_front h.cursor (by omega)
  · intro hcursor
    obtain ⟨hfront, hback⟩ := Outside.shiftElements (n := byteLen text) (Nat.le_refl _) hcut hcursor
    rw [hzero] at hfront hback
    split
    next hle => exact hback hle
    next hlt => exact hfront (by omega)

/-- **Replacing** a range that cuts no element. -/
theorem replaceRangeRaw_edited (hstart : Boundary s.text range.1) (hstop : Boundary s.text range.2)
    (hle : range.1 ≤ range.2) (hcut : ∀ e ∈ s.elements, Uncut range.1 range.2 e) (text : Text) :
    ∃ s', s.replaceRangeRaw range text = some s' ∧ Edited range.1 range.2 text s s' ∧
      (range.1 ≤ s.cursorPos → s.cursorPos ≤ range.2 →
        s'.cursorPos = range.1 + byteLen text) := by
  obtain ⟨t', hreplace, hsplice, hinserted⟩ := replaceRange_eq_some hstart hstop hle text
  have hmin : min range.1 s.len = range.1 := Nat.min_eq_left hstart.le_byteLen
  have hmin' : min range.2 s.len = range.2 := Nat.min_eq_left hstop.le_byteLen
  have hside := shiftElements_side (n := byteLen text) hle hcut
  unfold replaceRangeRaw
  rw [if_neg (Nat.not_lt.mpr hle)]
  dsimp only
  rw [hmin, hmin']
  split
  next hempty =>
    -- nothing is replaced by nothing
    have htext : text = [] := by
      by_contra hne
      have := byteLen_pos hne
      omega
    have heq : range.2 = range.1 := by omega
    subst htext
    rw [heq] at hreplace hcut ⊢
    have hsame : Text.replaceRange s.text range.1 range.1 [] = some s.text := by
      obtain ⟨front, back, ht, hfront⟩ := hstart
      unfold Text.replaceRange
      rw [if_pos (Nat.le_refl _), ht, ← hfront, byteTake_append, byteDrop_append]
      dsimp only
      rw [List.append_nil]
    obtain rfl := Option.some.inj (hreplace.symm.trans hsame)
    refine ⟨s, rfl, ⟨h.effect_refl, hsame, hinserted, ⟨hstart, hstart⟩, ?_, ?_⟩, ?_⟩
    · intro e he
      rcases hcut e he with hcut | hcut | hcut
      · exact .inl hcut
      · exact .inr hcut
      · exact .inl hcut.2
    · exact Nat.le_total s.cursorPos range.1
    · intro hge hle'
      show s.cursorPos = range.1 + 0
      omega
  next hsome =>
    rw [hreplace]
    have hplaced := h.placed.shiftElements hsplice hcut
    have hcursor := boundary_cursorAfter hsplice h.cursor
    have hmin := Nat.min_eq_left hcursor.le_byteLen
    refine ⟨_, rfl, ⟨?_, hreplace, hinserted, hsplice.boundary_inserted, hside, ?_⟩, ?_⟩
    · obtain ⟨hboundary, hout⟩ := clampPosToNearestBoundary_spec
        (s := { s with
          text := t'
          wrapCache := none
          preferredCol := none
          elements := shiftElements s.elements range.1 (range.2 - range.1) (byteLen text) })
        hplaced (min (cursorAfter s.cursorPos range.1 range.2 (byteLen text)) (byteLen t'))
      exact h.effect_edit hsplice hcut hboundary fun _ => hout
    · show clampPosToNearestBoundary _ (min _ (byteLen t')) ≤ _ ∨
        _ ≤ clampPosToNearestBoundary _ (min _ (byteLen t'))
      rw [hmin]
      exact clampPosToNearestBoundary_clear hplaced hside hcursor (cursorAfter_clear hle)
    · intro hge hle'
      have hend : cursorAfter s.cursorPos range.1 range.2 (byteLen text) =
          range.1 + byteLen text := by
        unfold cursorAfter
        rw [if_neg (by omega), if_pos hle']
      show clampPosToNearestBoundary _ (min _ (byteLen t')) = _
      rw [hmin, hend]
      exact clampPosToNearestBoundary_of_outside hsplice.boundary_inserted.2
        (outside_of_side hside)

theorem replaceRange_edited (hstart : Boundary s.text range.1) (hstop : Boundary s.text range.2)
    (hle : range.1 ≤ range.2) (text : Text) :
    ∃ s', s.replaceRange range text = some s' ∧ Effect nothing s s' := by
  obtain ⟨hcut, hfirst, hlast, hle₁, hle₂⟩ := expandRange_spec h.placed hstart hstop
  obtain ⟨s', hs', hedited, -⟩ :=
    replaceRangeRaw_edited h hfirst hlast (by omega) hcut text
  exact ⟨s', hs', hedited.effect⟩

end Edits

/-! ### Killing -/

/-- The effect of killing, apart from what is in the kill buffer. -/
def KillEffect (s s' : TextArea) : Prop :=
  ∃ killed, Effect nothing { s with killBuffer := killed } s'

/-- **What was killed** can be put back, if anything was. -/
def Killed (s s' : TextArea) : Prop :=
  s' = s ∨ s'.killBuffer ≠ [] ∧ ∃ s'', s'.yank = some s'' ∧ s''.text = s.text

theorem Sound.kill_nothing (h : s.Sound) : KillEffect s s ∧ Killed s s :=
  ⟨⟨s.killBuffer, h.effect_refl⟩, .inl rfl⟩

/-- **Yanking** puts what was killed at the cursor. -/
theorem yank_spec (h : s.Sound) (hne : s.killBuffer ≠ []) : ∃ s', s.yank = some s' ∧
    Edited (s.clampPosForInsertion s.cursorPos) (s.clampPosForInsertion s.cursorPos)
      s.killBuffer s s' := by
  unfold yank
  rw [if_neg (by rw [List.isEmpty_iff]; exact hne)]
  exact insertStrAt_edited h s.cursorPos s.killBuffer

/-- **Killing a range** with the cursor in it. -/
theorem killRange_effect (h : s.Sound) (hstart : Boundary s.text range.1)
    (hstop : Boundary s.text range.2) (hle : range.1 ≤ s.cursorPos)
    (hle' : s.cursorPos ≤ range.2) :
    ∃ s', s.killRange range = some s' ∧ KillEffect s s' ∧ Killed s s' := by
  obtain ⟨hcut, hfirst, hlast, hle₁, hle₂⟩ := expandRange_spec h.placed hstart hstop
  unfold killRange
  dsimp only
  generalize expandRange s.elements range = wide at hcut hfirst hlast hle₁ hle₂
  split
  next => exact ⟨s, rfl, h.kill_nothing⟩
  next hlt =>
    obtain ⟨removed, hremoved, hlen⟩ := exists_slice hfirst hlast (by omega)
    have hne : removed ≠ [] := by
      rintro rfl
      have hzero : byteLen ([] : Text) = 0 := rfl
      omega
    have hnonempty : removed.isEmpty = false := by
      rw [Bool.eq_false_iff, ne_eq, List.isEmpty_iff]
      exact hne
    have hkill : Sound { s with killBuffer := removed } := ⟨h.placed, h.sorted, h.cursor, h.lines⟩
    obtain ⟨s', hs', hedited, hcursor⟩ :=
      replaceRangeRaw_edited hkill hfirst hlast (by omega) hcut []
    have hcursor' : s'.cursorPos = wide.1 := hcursor (by dsimp only; omega) (by dsimp only; omega)
    have hbuffer : s'.killBuffer = removed := hedited.effect.killBuffer
    refine ⟨s', ?_, ⟨removed, hedited.effect⟩, .inr ⟨by rw [hbuffer]; exact hne, ?_⟩⟩
    · show (slice s.text wide.1 wide.2).bind _ = some s'
      rw [hremoved]
      show (if removed.isEmpty = true then _ else _) = some s'
      rw [hnonempty, if_neg Bool.false_ne_true]
      exact hs'
    · -- the cursor is where the range was
      have hout : Outside s'.elements s'.cursorPos := by
        rw [hcursor']
        exact outside_of_side (n := 0) hedited.side
      have hclamp : s'.clampPosForInsertion s'.cursorPos = wide.1 :=
        (clampPosToNearestBoundary_of_outside hedited.effect.sound.cursor hout).trans hcursor'
      obtain ⟨s'', hs'', hback⟩ := yank_spec hedited.effect.sound (by rw [hbuffer]; exact hne)
      have hput := hback.replaced
      rw [hclamp, hbuffer] at hput
      exact ⟨s'', hs'', replaceRange_undo hremoved hedited.replaced hput⟩

/-! ### New elements -/

section Add

variable {start stop : Nat} {piece : Text}

theorem mem_addElementWithId {e' : TextElement} {name : Option Text} :
    e' ∈ (s.addElementWithId start stop name).1.elements ↔
      e' ∈ s.elements ∨ e' = ⟨s.nextElementId, start, stop, name⟩ := by
  unfold addElementWithId
  rw [(sortElements_perm _).mem_iff, List.mem_append, List.mem_singleton]

/-- **An element is added** that meets no other one. -/
theorem addElementWithId_sound (h : s.Sound) (hle : start ≤ stop) (hstart : Boundary s.text start)
    (hstop : Boundary s.text stop) (hpiece : slice s.text start stop = some piece)
    (hside : ∀ e ∈ s.elements, e.stop ≤ start ∨ stop ≤ e.start) (name : Option Text) :
    (s.addElementWithId start stop name).1.Sound ∧
      ∀ e' ∈ (s.addElementWithId start stop name).1.elements,
        (∃ e ∈ s.elements, Kept s.text s.text e e') ∨
          ∃ piece', piece' = piece ∧ slice s.text e'.start e'.stop = some piece' := by
  refine ⟨⟨?_, sortElements_sorted _, h.cursor, h.lines⟩, ?_⟩
  · refine Placed.perm ?_ (sortElements_perm _)
    refine h.placed.append hle hstart hstop fun e he hoverlap => ?_
    have := hside e he
    unfold Overlap at hoverlap
    dsimp only at hoverlap
    omega
  · intro e' he'
    rcases mem_addElementWithId.mp he' with hold | rfl
    · exact .inl ⟨e', hold, rfl, rfl, rfl⟩
    · exact .inr ⟨piece, rfl, hpiece⟩

theorem addElementWithId_outside {name : Option Text} (hout : s.CursorOutside)
    (hcursor : s.cursorPos ≤ start ∨ stop ≤ s.cursorPos) :
    (s.addElementWithId start stop name).1.CursorOutside := by
  intro e' he'
  rcases mem_addElementWithId.mp he' with hold | rfl
  · exact hout e' hold
  · rw [contains_eq_false]
    exact hcursor

/-- What an edit has put into the text becomes an element. -/
theorem Edited.addElementWithId (h : Edited a b text s s') (name : Option Text) :
    Effect (· = text) s (s'.addElementWithId a (a + byteLen text) name).1 :=
  h.effect.of_nothing.trans (by
    obtain ⟨hsound, helements⟩ := addElementWithId_sound h.effect.sound (Nat.le_add_right _ _)
      h.bounds.1 h.bounds.2 h.inserted h.side name
    exact ⟨hsound, helements, fun hout => addElementWithId_outside hout h.clear, rfl⟩)

end Add

theorem insertElementWithId_effect (h : s.Sound) (text : Text) (name : Option Text) :
    ∃ result, s.insertElementWithId text name = some result ∧ Effect (· = text) s result.1 := by
  obtain ⟨hboundary, hout⟩ := clampPosToNearestBoundary_spec h.placed s.cursorPos
  have hclamp : s.clampPosForInsertion (s.clampPosForInsertion s.cursorPos) =
      s.clampPosForInsertion s.cursorPos := clampPosToNearestBoundary_of_outside hboundary hout
  obtain ⟨s', hs', hedited⟩ := insertStrAt_edited h (s.clampPosForInsertion s.cursorPos) text
  rw [hclamp] at hedited
  have hadded := hedited.addElementWithId name
  unfold insertElementWithId
  dsimp only
  rw [hs']
  exact ⟨_, rfl, hadded.trans (hadded.sound.effect_setCursor _).of_nothing⟩

/-- The text of an element is replaced. -/
theorem replaceElement_edited (h : s.Sound) {e : TextElement} (he : e ∈ s.elements) (text : Text) :
    ∃ s', s.replaceRangeRaw (e.start, e.stop) text = some s' ∧
      Edited e.start e.stop text s s' := by
  have hstart : Boundary s.text (e.start, e.stop).1 := h.placed.starts e he
  have hstop : Boundary s.text (e.start, e.stop).2 := h.placed.stops e he
  obtain ⟨s', hs', hedited, -⟩ :=
    replaceRangeRaw_edited h hstart hstop (h.placed.ordered e he) (h.uncut_element he) text
  exact ⟨s', hs', hedited⟩

theorem replaceElementById_effect (h : s.Sound) (id text : Text) :
    ∃ result, s.replaceElementById id text = some result ∧ Effect nothing s result.1 := by
  unfold replaceElementById
  split
  next => exact ⟨_, rfl, h.effect_refl⟩
  next e hfind =>
    have he := List.mem_of_find?_eq_some hfind
    obtain ⟨s', hs', hedited⟩ := replaceElement_edited h he text
    rw [hs']
    refine ⟨_, rfl, hedited.effect.trans ?_⟩
    have hsub : (s'.elements.filter fun e => e.name != some id).Sublist s'.elements :=
      List.filter_sublist
    have hsound := hedited.effect.sound
    exact ⟨⟨hsound.placed.sublist hsub, List.Pairwise.sublist hsub hsound.sorted, hsound.cursor,
      hsound.lines⟩, fun e he => .inl ⟨e, hsub.mem he, rfl, rfl, rfl⟩,
      fun hout e he => hout e (hsub.mem he), rfl⟩

theorem updateNamedElementById_effect (h : s.Sound) (id text : Text) :
    ∃ result, s.updateNamedElementById id text = some result ∧
      Effect (· = text) s result.1 := by
  unfold updateNamedElementById
  split
  next => exact ⟨_, rfl, h.effect_refl.of_nothing⟩
  next e hfind =>
    have he := List.mem_of_find?_eq_some hfind
    obtain ⟨s', hs', hedited⟩ := replaceElement_edited h he text
    rw [hs']
    exact ⟨_, rfl, hedited.addElementWithId _⟩

/-- An element with exactly a range is removed. -/
theorem removeElementRange_effect (h : s.Sound) (range : Nat × Nat) :
    Effect nothing s (s.removeElementRange range).1 := by
  unfold removeElementRange
  dsimp only
  split
  next => exact h.effect_refl
  next =>
    have hsub := List.filter_sublist (l := s.elements)
      (p := fun e => e.start != s.clampPosToCharBoundary (min range.1 s.len) ||
        e.stop != s.clampPosToCharBoundary (min range.2 s.len))
    exact ⟨⟨h.placed.sublist hsub, List.Pairwise.sublist hsub h.sorted, h.cursor, h.lines⟩,
      fun e he => .inl ⟨e, hsub.mem he, rfl, rfl, rfl⟩, fun hout e he => hout e (hsub.mem he), rfl⟩

/-! ### A new payload -/

/-- An element beside the one that is replaced. -/
theorem shiftAround_eq {e : TextElement} (h : Beside a b e) :
    shiftAround a b n e = moveElement a b n e := by
  unfold shiftAround moveElement
  split
  next hsame =>
    split
    next => rfl
    next =>
      rcases h with hfront | ⟨hlt, hback⟩
      · contradiction
      · have hstart : e.start + n - (b - a) = e.start := by omega
        have hstop : e.stop + n - (b - a) = e.stop := by omega
        rw [hstart, hstop]
  next =>
    split
    next => rfl
    next hlt =>
      rcases h with hfront | ⟨-, hback⟩
      · contradiction
      · rw [if_pos hback]

/-- **The payload of an element is replaced**, and the element stays. -/
theorem replaceElementPayload_effect (h : s.Sound) (old new : Text) :
    ∃ result, s.replaceElementPayload old new = some result ∧ Effect (· = new) s result.1 := by
  unfold replaceElementPayload
  split
  next => exact ⟨_, rfl, h.effect_refl.of_nothing⟩
  next idx hidx =>
    obtain ⟨hlt, -, -⟩ := List.findIdx?_eq_some_iff_getElem.mp hidx
    rw [List.getElem?_eq_getElem hlt]
    dsimp only
    have hparts : s.elements = s.elements.take idx ++ s.elements[idx] ::
        s.elements.drop (idx + 1) := by
      rw [← List.drop_eq_getElem_cons hlt, List.take_append_drop]
    generalize s.elements[idx] = e at hparts
    generalize s.elements.take idx = front at hparts
    generalize s.elements.drop (idx + 1) = back at hparts
    have he : e ∈ s.elements := by
      rw [hparts]
      exact List.mem_append_right _ List.mem_cons_self
    have hordered := h.placed.ordered e he
    have hstop := h.placed.stops e he
    have hbyteLen := hstop.le_byteLen
    rw [if_neg (by unfold TextArea.len; omega)]
    obtain ⟨t', hreplace, hsplice, hinserted⟩ :=
      replaceRange_eq_some (h.placed.starts e he) hstop hordered new
    have hperm : s.elements.Perm (e :: (front ++ back)) := by
      rw [hparts]
      exact List.perm_middle
    obtain ⟨hplaced, hbeside⟩ := (h.placed.perm hperm.symm).resize hsplice
    have hmoved : ∀ f ∈ front ++ back, shiftAround e.start e.stop (byteLen new) f =
        moveElement e.start e.stop (byteLen new) f :=
      fun f hf => shiftAround_eq (hbeside f hf)
    rw [← List.map_congr_left hmoved, List.map_append] at hplaced
    rw [hreplace]
    generalize hfront : front.map (shiftAround e.start e.stop (byteLen new)) = front' at hplaced ⊢
    generalize hback : back.map (shiftAround e.start e.stop (byteLen new)) = back' at hplaced ⊢
    have hmiddle : (front' ++ { e with stop := e.start + byteLen new } :: back').Perm
        ({ e with stop := e.start + byteLen new } :: (front' ++ back')) := List.perm_middle
    have hedited := hplaced.perm hmiddle
    have hsorted := sortElements_perm (front' ++ { e with stop := e.start + byteLen new } :: back')
    obtain ⟨hboundary, hout⟩ := clampPosToNearestBoundary_spec
      (s := { s with
        text := t'
        wrapCache := none
        preferredCol := none
        elements := front' ++ { e with stop := e.start + byteLen new } :: back' })
      hedited (cursorAfter s.cursorPos e.start e.stop (byteLen new))
    refine ⟨_, rfl, ⟨⟨hedited.perm hsorted, sortElements_sorted _, hboundary, ?_⟩, ?_, ?_, rfl⟩⟩
    · intro cache hcache
      exact absurd hcache (Option.some_ne_none _).symm
    · intro e' he'
      rcases List.mem_cons.mp ((hsorted.trans hmiddle).mem_iff.mp he') with rfl | hother
      · exact .inr ⟨new, rfl, hinserted⟩
      · rw [← hfront, ← hback, ← List.map_append, List.map_congr_left hmoved] at hother
        obtain ⟨f, hf, rfl⟩ := List.mem_map.mp hother
        have hmem := hperm.mem_iff.mpr (List.mem_cons_of_mem e hf)
        exact .inl ⟨f, hmem, moveElement_kept hsplice (h.placed.ordered f hmem)
          (h.placed.starts f hmem) (h.placed.stops f hmem) (hbeside f hf)⟩
    · exact fun _ e' he' => hout e' (hsorted.mem_iff.mp he')

/-! ### Whole texts -/

section Rebuild

variable {ranges : List (Nat × Nat)} {new : List TextElement}

/-- A range that is given from outside, in a text. -/
def clampRange (t : Text) (range : Nat × Nat) : Nat × Nat :=
  (clampToCharBoundary t (min range.1 (byteLen t)), clampToCharBoundary t (min range.2 (byteLen t)))

/-- The ranges that are not empty in a text. -/
def clampRanges (t : Text) (ranges : List (Nat × Nat)) : List (Nat × Nat) :=
  (ranges.map (clampRange t)).filter fun range => range.1 < range.2

/-- Two ranges do not meet. -/
def DisjointRanges (range range' : Nat × Nat) : Prop := range.2 ≤ range'.1 ∨ range'.2 ≤ range.1

/-- **Every range that is not empty** becomes an element. -/
theorem rebuildElements_eq (s : TextArea) (ranges : List (Nat × Nat)) : ∃ new next,
    rebuildElements s ranges = { s with
      elements := s.elements ++ new
      nextElementId := next } ∧
    new.map TextElement.range = clampRanges s.text ranges := by
  induction ranges generalizing s with
  | nil =>
    refine ⟨[], s.nextElementId, ?_, rfl⟩
    rw [List.append_nil]
    rfl
  | cons range ranges ih =>
    unfold clampRanges
    rw [List.map_cons, rebuildElements]
    split
    next hempty =>
      obtain ⟨new, next, heq, hnew⟩ := ih s
      refine ⟨new, next, heq, ?_⟩
      rw [List.filter_cons_of_neg]
      · exact hnew
      · rw [decide_eq_true_eq, Nat.not_lt]
        exact hempty
    next hlt =>
      obtain ⟨new, next, heq, hnew⟩ := ih { s with
        elements := s.elements ++ [⟨s.nextElementId, (clampRange s.text range).1,
          (clampRange s.text range).2, none⟩]
        nextElementId := min (s.nextElementId + 1) (2 ^ 64 - 1) }
      refine ⟨⟨s.nextElementId, (clampRange s.text range).1, (clampRange s.text range).2, none⟩ ::
        new, next, ?_, ?_⟩
      · refine heq.trans ?_
        rw [List.append_assoc]
        rfl
      · rw [List.filter_cons_of_pos]
        · rw [List.map_cons, hnew]
          rfl
        · rw [decide_eq_true_eq]
          exact Nat.lt_of_not_le hlt

theorem mem_clampRanges (hnew : new.map TextElement.range = clampRanges t' ranges)
    {e : TextElement} (he : e ∈ new) :
    ∃ range ∈ ranges, clampRange t' range = (e.start, e.stop) ∧ e.start < e.stop := by
  have hmem := List.mem_map_of_mem (f := TextElement.range) he
  rw [hnew] at hmem
  obtain ⟨hrange, hlt⟩ := List.mem_filter.mp hmem
  obtain ⟨range, hrange', heq⟩ := List.mem_map.mp hrange
  exact ⟨range, hrange', heq, of_decide_eq_true hlt⟩

/-- **Ranges that do not meet** become placed elements. -/
theorem placed_of_ranges (hnew : new.map TextElement.range = clampRanges t' ranges)
    (hdisjoint : ranges.Pairwise DisjointRanges) : Placed t' new := by
  refine ⟨fun e he => ?_, fun e he => ?_, fun e he => ?_, ?_⟩
  · obtain ⟨range, -, -, hlt⟩ := mem_clampRanges hnew he
    exact Nat.le_of_lt hlt
  · obtain ⟨range, -, heq, -⟩ := mem_clampRanges hnew he
    rw [← (Prod.mk.inj heq).1]
    exact boundary_clampToCharBoundary _ _
  · obtain ⟨range, -, heq, -⟩ := mem_clampRanges hnew he
    rw [← (Prod.mk.inj heq).2]
    exact boundary_clampToCharBoundary _ _
  · have hclamped : (clampRanges t' ranges).Pairwise DisjointRanges := by
      refine List.Pairwise.filter _ (List.pairwise_map.mpr (hdisjoint.imp ?_))
      intro range range' hno
      -- clamping keeps the order of the ends
      refine hno.imp (fun hle => ?_) (fun hle => ?_)
      · exact clampToCharBoundary_mono t' (by omega)
      · exact clampToCharBoundary_mono t' (by omega)
    rw [← hnew] at hclamped
    refine (List.pairwise_map.mp hclamped).imp fun hno hoverlap => ?_
    unfold DisjointRanges TextElement.range at hno
    unfold Overlap at hoverlap
    dsimp only at hno
    omega

theorem clampRanges_of_boundaries {t : Text}
    (h : ∀ range ∈ ranges, Boundary t range.1 ∧ Boundary t range.2) :
    clampRanges t ranges = ranges.filter fun range => range.1 < range.2 := by
  have hsame : ranges.map (clampRange t) = ranges := by
    refine (List.map_congr_left fun range hrange => ?_).trans (List.map_id ranges)
    obtain ⟨hstart, hstop⟩ := h range hrange
    unfold clampRange
    rw [Nat.min_eq_left hstart.le_byteLen, Nat.min_eq_left hstop.le_byteLen,
      clampToCharBoundary_of_boundary hstart, clampToCharBoundary_of_boundary hstop]
    rfl
  unfold clampRanges
  rw [hsame]

theorem setTextInner_eq (s : TextArea) (text : Text) (ranges : List (Nat × Nat)) :
    ∃ new next cursor, s.setTextInner text (some ranges) = { s with
      text
      cursorPos := cursor
      wrapCache := none
      preferredCol := none
      elements := sortElements new
      nextElementId := next } ∧ new.map TextElement.range = clampRanges text ranges ∧
      cursor = clampPosToNearestBoundary { s with text, elements := sortElements new }
        (min s.cursorPos (byteLen text)) := by
  obtain ⟨new, next, heq, hnew⟩ := rebuildElements_eq
    { s with text, cursorPos := min s.cursorPos (byteLen text), elements := [] } ranges
  refine ⟨new, next, _, ?_, hnew, rfl⟩
  unfold setTextInner
  dsimp only
  rw [heq]
  rfl

/-- **A whole text**: its elements are those that were asked for. -/
theorem setTextInner_effect (s : TextArea) (text : Text)
    (hdisjoint : ranges.Pairwise DisjointRanges) :
    Effect (fun piece => ∃ range ∈ ranges,
      slice text (clampRange text range).1 (clampRange text range).2 = some piece) s
      (s.setTextInner text (some ranges)) := by
  obtain ⟨new, next, cursor, heq, hnew, hcursor⟩ := setTextInner_eq s text ranges
  have hplaced := (placed_of_ranges hnew hdisjoint).perm (sortElements_perm new)
  obtain ⟨hboundary, hout⟩ := clampPosToNearestBoundary_spec
    (s := { s with text, elements := sortElements new }) hplaced (min s.cursorPos (byteLen text))
  rw [← hcursor] at hboundary hout
  rw [heq]
  refine ⟨⟨hplaced, sortElements_sorted new, hboundary, ?_⟩, ?_, fun _ => hout, rfl⟩
  · intro cache hcache
    exact absurd hcache (Option.some_ne_none _).symm
  · intro e he
    have hmem := (sortElements_perm new).mem_iff.mp he
    obtain ⟨range, hrange, hclamp, -⟩ := mem_clampRanges hnew hmem
    obtain ⟨piece, hpiece, -⟩ := exists_slice (hplaced.starts e he) (hplaced.stops e he)
      (hplaced.ordered e he)
    refine .inr ⟨piece, ⟨range, hrange, ?_⟩, hpiece⟩
    rw [hclamp]
    exact hpiece

theorem setTextInner_none (s : TextArea) (text : Text) :
    Effect nothing s (s.setTextInner text none) := by
  have hnone := setTextInner_effect s text (List.Pairwise.nil (R := DisjointRanges))
  have hsame : s.setTextInner text (some []) = s.setTextInner text none := rfl
  rw [hsame] at hnone
  refine hnone.mono ?_
  rintro piece ⟨range, hrange, -⟩
  exact absurd hrange List.not_mem_nil

end Rebuild

end TextArea

end CodexMonitor.Composer
