import CodexMonitor.FileLinks.FileUrls

namespace CodexMonitor.FileLinks

open Text

/-!
# File links — how pathnames are written

The pathname of a file URL, written piece by piece, is read back, and a URL parser leaves it alone.

* `writes_pathname`, `decode_pathname` — what is written is read as the pathname.
* `UrlPath`, `urlPath_encode` — the written pathname needs no normalization.
* `SlashSafe`, `slashSafe_joinWith` — pieces without backslashes put none behind a slash.
-/

/-! ### Pathnames -/

/-- How a piece of a pathname is written. -/
def encodePiece (opaquePath : Bool) (index : Nat) (piece : Text) : Text :=
  if !opaquePath && index = 1 && isDriveSegment piece then piece else Percent.encodeComponent piece

theorem encodeFileUrlPathname_eq (pathname : Text) (opaquePath : Bool) :
    encodeFileUrlPathname pathname opaquePath =
      joinWith ['/'] ((splitOn '/' pathname).mapIdx (encodePiece opaquePath)) := rfl

/-- A letter and a colon. -/
theorem isDriveSegment_iff {piece : Text} :
    isDriveSegment piece = true ↔ ∃ c, piece = [c, ':'] ∧ c.isAlpha = true := by
  rcases piece with _ | ⟨a, _ | ⟨b, _ | ⟨c, piece⟩⟩⟩
  · simp [isDriveSegment]
  · simp [isDriveSegment]
  · by_cases hb : b = ':'
    · subst hb
      simp [isDriveSegment]
    · simp [isDriveSegment, hb]
  · simp [isDriveSegment]

theorem ne_of_isAlpha {c d : Char} (h : c.isAlpha = true) (hd : d.isAlpha = false) : c ≠ d := by
  rintro rfl
  rw [h] at hd
  cases hd

/-- The signs of a pathname that is written. -/
def isPathSign (c : Char) : Bool := Percent.isUnreserved c || c = '%' || c = ':'

theorem encodePiece_spec (opaquePath : Bool) (index : Nat) (piece : Text) :
    Percent.Writes piece (encodePiece opaquePath index piece) ∧
      ∀ c ∈ encodePiece opaquePath index piece, isPathSign c = true := by
  unfold encodePiece
  split
  next h =>
    rw [Bool.and_eq_true] at h
    obtain ⟨c, rfl, hc⟩ := isDriveSegment_iff.mp h.2
    refine ⟨.kept (ne_of_isAlpha hc (by decide)) (.kept (by decide) .nil), ?_⟩
    intro d hd
    simp only [List.mem_cons, List.not_mem_nil, or_false] at hd
    rcases hd with rfl | rfl
    · simp [isPathSign, Percent.isUnreserved, Char.isAlphanum, hc]
    · decide
  next =>
    refine ⟨Percent.writes_encodeComponent piece, fun c hc => ?_⟩
    unfold isPathSign
    rcases Percent.mem_encodeComponent hc with h | rfl
    · rw [h]
      rfl
    · decide

theorem writes_joinWith {f : Nat → Text → Text} (h : ∀ i piece, Percent.Writes piece (f i piece))
    (pieces : List Text) :
    Percent.Writes (joinWith ['/'] pieces) (joinWith ['/'] (pieces.mapIdx f)) := by
  induction pieces generalizing f with
  | nil => exact .nil
  | cons piece pieces ih =>
    rw [List.mapIdx_cons]
    by_cases hne : pieces = []
    · rw [hne]
      exact h 0 piece
    · have hne' : pieces.mapIdx (fun i => f (i + 1)) ≠ [] := by simpa using hne
      rw [joinWith_cons _ hne, joinWith_cons _ hne']
      exact ((h 0 piece).append (.kept (by decide) .nil)).append (ih fun i => h (i + 1))

/-- **A pathname is read back** from how it is written. -/
theorem writes_pathname (pathname : Text) (opaquePath : Bool) :
    Percent.Writes pathname (encodeFileUrlPathname pathname opaquePath) := by
  have h := writes_joinWith (fun i piece => (encodePiece_spec opaquePath i piece).1)
    (splitOn '/' pathname)
  rwa [joinWith_splitOn, ← encodeFileUrlPathname_eq] at h

theorem decode_pathname (pathname : Text) (opaquePath : Bool) :
    decodeURIComponentSafely (encodeFileUrlPathname pathname opaquePath) = pathname := by
  unfold decodeURIComponentSafely
  rw [Percent.decodeComponent_writes (writes_pathname pathname opaquePath)]
  rfl

theorem splitOn_encodeFileUrlPathname (pathname : Text) (opaquePath : Bool) :
    splitOn '/' (encodeFileUrlPathname pathname opaquePath) =
      (splitOn '/' pathname).mapIdx (encodePiece opaquePath) := by
  rw [encodeFileUrlPathname_eq]
  apply splitOn_joinWith
  · have hne := splitOn_ne_nil '/' pathname
    simpa using hne
  · intro t ht hslash
    obtain ⟨i, hi, rfl⟩ := List.mem_mapIdx.mp ht
    exact absurd ((encodePiece_spec opaquePath i _).2 '/' hslash) (by decide)

/-- **Pathnames that a URL parser leaves alone**: they begin with a slash, consist of signs that
    stand in a path, and have no segments of dots. -/
structure UrlPath (pathname : Text) : Prop where
  slash : ∃ rest, pathname = '/' :: rest
  signs : ∀ c ∈ pathname, isPathSign c = true ∨ c = '/'
  segments : ∀ s ∈ splitOn '/' pathname, Percent.decodeComponent s ≠ some ".".toList ∧
    Percent.decodeComponent s ≠ some "..".toList

/-- No segment is `.` or `..`. -/
def NoDots (pathname : Text) : Prop := ∀ s ∈ splitOn '/' pathname, s ≠ ".".toList ∧ s ≠ "..".toList

theorem mem_joinWith {c : Char} {pieces : List Text} (h : c ∈ joinWith ['/'] pieces) :
    c = '/' ∨ ∃ piece ∈ pieces, c ∈ piece := by
  induction pieces with
  | nil => cases h
  | cons piece pieces ih =>
    by_cases hne : pieces = []
    · rw [hne] at h
      exact .inr ⟨piece, List.mem_cons_self, h⟩
    · rw [joinWith_cons _ hne, List.mem_append, List.mem_append, List.mem_singleton] at h
      rcases h with (h | h) | h
      · exact .inr ⟨piece, List.mem_cons_self, h⟩
      · exact .inl h
      · rcases ih h with h | ⟨other, hother, h⟩
        · exact .inl h
        · exact .inr ⟨other, List.mem_cons_of_mem _ hother, h⟩

theorem mem_of_mem_splitOn {c sep : Char} {t piece : Text} (hpiece : piece ∈ splitOn sep t)
    (hc : c ∈ piece) : c ∈ t := by
  induction t generalizing piece with
  | nil =>
    obtain rfl : piece = [] := by simpa [splitOn] using hpiece
    cases hc
  | cons d t ih =>
    by_cases hd : d = sep
    · rw [splitOn, if_pos hd, List.mem_cons] at hpiece
      rcases hpiece with rfl | hpiece
      · cases hc
      · exact List.mem_cons_of_mem d (ih hpiece hc)
    · obtain ⟨first, pieces, hrest, hsplit⟩ := splitOn_cons_of_ne hd t
      rw [hsplit, List.mem_cons] at hpiece
      rcases hpiece with rfl | hpiece
      · rcases List.mem_cons.mp hc with rfl | hc
        · exact List.mem_cons_self
        · exact List.mem_cons_of_mem d (ih (hrest ▸ List.mem_cons_self) hc)
      · exact List.mem_cons_of_mem d (ih (hrest ▸ List.mem_cons_of_mem first hpiece) hc)

theorem isPathSign_of_mem {c : Char} {pathname : Text} {opaquePath : Bool}
    (h : c ∈ encodeFileUrlPathname pathname opaquePath) : isPathSign c = true ∨ c = '/' := by
  rw [encodeFileUrlPathname_eq] at h
  rcases mem_joinWith h with rfl | ⟨piece, hpiece, hc⟩
  · exact .inr rfl
  · obtain ⟨i, hi, rfl⟩ := List.mem_mapIdx.mp hpiece
    exact .inl ((encodePiece_spec opaquePath i _).2 c hc)

theorem encodeFileUrlPathname_cons (rest : Text) (opaquePath : Bool) :
    ∃ written, encodeFileUrlPathname ('/' :: rest) opaquePath = '/' :: written := by
  have hsplit : splitOn '/' ('/' :: rest) = [] :: splitOn '/' rest := by
    rw [splitOn, if_pos rfl]
  have hpiece : encodePiece opaquePath 0 [] = [] := by
    unfold encodePiece
    rw [if_neg (by simp)]
    rfl
  have hne : (splitOn '/' rest).mapIdx (fun i => encodePiece opaquePath (i + 1)) ≠ [] := by
    have hne := splitOn_ne_nil '/' rest
    simpa using hne
  rw [encodeFileUrlPathname_eq, hsplit, List.mapIdx_cons, hpiece, joinWith_cons _ hne]
  exact ⟨_, rfl⟩

theorem urlPath_encode {rest : Text} (opaquePath : Bool) (h : NoDots ('/' :: rest)) :
    UrlPath (encodeFileUrlPathname ('/' :: rest) opaquePath) where
  slash := encodeFileUrlPathname_cons rest opaquePath
  signs := fun c hc => isPathSign_of_mem hc
  segments := by
    intro s hs
    rw [splitOn_encodeFileUrlPathname] at hs
    obtain ⟨i, hi, rfl⟩ := List.mem_mapIdx.mp hs
    rw [Percent.decodeComponent_writes (encodePiece_spec opaquePath i _).1]
    have hdots := h _ (List.getElem_mem hi)
    exact ⟨fun heq => hdots.1 (Option.some.inj heq), fun heq => hdots.2 (Option.some.inj heq)⟩

/-! ### Slashes before backslashes -/

/-- The text begins with a backslash, as it is or escaped. -/
def ReadsBackslash (t : Text) : Prop :=
  (∃ rest, t = '\\' :: rest) ∨
    ∃ high low rest x y, t = '%' :: high :: low :: rest ∧ Percent.hexValue high = some x ∧
      Percent.hexValue low = some y ∧ (16 * x + y) % 256 = 0x5C

/-- **No slash stands before a backslash**, as it is or escaped. -/
def SlashSafe (t : Text) : Prop := ∀ front rest, t = front ++ '/' :: rest → ¬ ReadsBackslash rest

variable {t u server hash : Text}

theorem ReadsBackslash.append (h : ReadsBackslash t) (more : Text) : ReadsBackslash (t ++ more) := by
  rcases h with ⟨rest, rfl⟩ | ⟨high, low, rest, x, y, rfl, hx, hy, hvalue⟩
  · exact .inl ⟨rest ++ more, rfl⟩
  · exact .inr ⟨high, low, rest ++ more, x, y, rfl, hx, hy, hvalue⟩

theorem SlashSafe.within (h : SlashSafe t) (hwithin : u <:+: t) : SlashSafe u := by
  rintro front rest rfl hbackslash
  obtain ⟨before, after, rfl⟩ := hwithin
  apply h (before ++ front) (rest ++ after) _ (hbackslash.append after)
  simp

theorem SlashSafe.append_left (h : SlashSafe t) (hserver : '/' ∉ server) :
    SlashSafe (server ++ t) := by
  intro front rest heq
  rcases List.append_eq_append_iff.mp heq with ⟨more, rfl, hmore⟩ | ⟨more, rfl, hmore⟩
  · exact h more rest hmore
  · cases more with
    | nil => exact h [] rest (by simpa using hmore.symm)
    | cons c more =>
      obtain ⟨rfl, -⟩ := List.cons_eq_cons.mp hmore
      simp at hserver

/-- What is written for a text begins like the text. -/
theorem head_of_writes (h : Percent.Writes t u) (hbackslash : ReadsBackslash u) :
    '\\' ∈ t := by
  have hdecode : Percent.decodeFrom (u.length + 1) u = some t :=
    Percent.decodeFrom_writes h (Nat.le_succ _)
  rcases hbackslash with ⟨rest, rfl⟩ | ⟨high, low, rest, x, y, rfl, hx, hy, hvalue⟩
  · rw [Percent.decodeFrom_cons _ (by decide)] at hdecode
    obtain ⟨t', -, rfl⟩ := Option.map_eq_some_iff.mp hdecode
    exact List.mem_cons_self
  · have hbyte : UInt8.ofNat (16 * x + y) = 0x5C := by
      apply UInt8.toNat_inj.mp
      rw [UInt8.toNat_ofNat']
      exact hvalue
    have hescaped : Percent.escapedBytes ('%' :: high :: low :: rest) =
        0x5C :: Percent.escapedBytes rest := by
      rw [Percent.escapedBytes, hx, hy]
      exact congrArg (· :: _) hbyte
    have hfirst : ∀ bytes, Utf8.decodeFirst 0x5C bytes = .char '\\' bytes := fun _ => rfl
    rw [Percent.decodeFrom, if_neg (by simp), hescaped] at hdecode
    dsimp only at hdecode
    rw [hfirst] at hdecode
    obtain ⟨t', -, rfl⟩ := Option.map_eq_some_iff.mp hdecode
    exact List.mem_cons_self

/-- Texts without `%` are kept. -/
theorem writes_self (h : '%' ∉ t) : Percent.Writes t t := by
  induction t with
  | nil => exact .nil
  | cons c t ih =>
    rw [List.mem_cons, not_or] at h
    exact .kept (Ne.symm h.1) (ih h.2)

theorem slashSafe_joinWith {f : Nat → Text → Text} {pieces : List Text}
    (hwrites : ∀ i piece, Percent.Writes piece (f i piece)) (hslash : ∀ i piece, '/' ∉ f i piece)
    (hpieces : ∀ piece ∈ pieces, '\\' ∉ piece) (hhash : '%' ∉ hash ∧ '/' ∉ hash ∧ '\\' ∉ hash) :
    SlashSafe (joinWith ['/'] (pieces.mapIdx f) ++ hash) := by
  induction pieces generalizing f with
  | nil =>
    rintro front rest heq -
    apply hhash.2.1
    show '/' ∈ hash
    rw [show hash = front ++ '/' :: rest from heq]
    simp
  | cons piece pieces ih =>
    rw [List.mapIdx_cons]
    by_cases hne : pieces = []
    · rw [hne]
      rintro front rest heq -
      have hmem : '/' ∈ f 0 piece ++ hash := by
        rw [show f 0 piece ++ hash = front ++ '/' :: rest from heq]
        simp
      rcases List.mem_append.mp hmem with h | h
      · exact hslash 0 piece h
      · exact hhash.2.1 h
    · have hne' : pieces.mapIdx (fun i => f (i + 1)) ≠ [] := by simpa using hne
      have htail := ih (fun i => hwrites (i + 1)) (fun i => hslash (i + 1))
        fun p hp => hpieces p (List.mem_cons_of_mem _ hp)
      rw [joinWith_cons _ hne', List.append_assoc, List.append_assoc]
      apply SlashSafe.append_left _ (hslash 0 piece)
      intro front rest heq
      cases front with
      | nil =>
        -- the slash between the first two pieces
        obtain ⟨-, rfl⟩ := List.cons_eq_cons.mp heq
        intro hbackslash
        have hmem := head_of_writes ((writes_joinWith (fun i => hwrites (i + 1)) pieces).append
          (writes_self hhash.1)) hbackslash
        rcases List.mem_append.mp hmem with h | h
        · rcases mem_joinWith h with h | ⟨p, hp, h⟩
          · cases h
          · exact hpieces p (List.mem_cons_of_mem _ hp) h
        · exact hhash.2.2 h
      | cons c front =>
        obtain ⟨-, heq⟩ := List.cons_eq_cons.mp heq
        exact htail front rest heq

end CodexMonitor.FileLinks
