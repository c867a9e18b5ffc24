import CodexMonitor.ApplyPatch.Replace

namespace CodexMonitor.ApplyPatch

/-!
# Apply patch — where the regions lie

What the search of `seek_sequence.rs` and the loop of `compute_replacements` promise about the
places they find: the cursor never leaves the file, and every region lies within it.

* `seekSequence_spec` — a place that is found, at the end of the file or from the start on.
* `Located` — a region that is found from a cursor on.
* `chunkReplacement_cases` — a chunk adds lines, or replaces lines that are located.
* `chunkReplacements_inBounds` — every region lies within the file.
-/

variable {lines pattern : List Text} {start i cursor next : Nat} {eof : Bool} {path : AbsPath}
  {chunk : UpdateFileChunk} {chunks : List UpdateFileChunk} {r : Replacement}
  {rs : List Replacement}

/-! ### The search -/

theorem seekPass_spec {view : Text → Text} (hfits : pattern.length ≤ lines.length)
    (h : seekPass view lines pattern start = some i) :
    start ≤ i ∧ i + pattern.length ≤ lines.length := by
  have hmem := List.mem_of_find?_eq_some h
  rw [List.mem_range'_1] at hmem
  omega

/-- **A place that is found**: for a pattern with lines it lies within the file, at its very end
    for an end-of-file search, and from the start on otherwise. -/
theorem seekSequence_spec (h : seekSequence lines pattern start eof = some i) :
    (pattern = [] ∧ i = start) ∨
      (pattern ≠ [] ∧ i + pattern.length ≤ lines.length ∧
        if eof then i = lines.length - pattern.length else start ≤ i) := by
  unfold seekSequence at h
  by_cases hnone : pattern = []
  · subst hnone
    exact .inl ⟨rfl, (Option.some.inj h).symm⟩
  have hsome : pattern.isEmpty = false := List.isEmpty_eq_false_iff.mpr hnone
  rw [hsome, if_neg (by simp)] at h
  by_cases hlong : lines.length < pattern.length
  · rw [if_pos hlong] at h
    cases h
  rw [if_neg hlong] at h
  have hfits : pattern.length ≤ lines.length := Nat.le_of_not_lt hlong
  simp only [Option.or_eq_some_iff] at h
  have hbounds : (if eof = true then lines.length - pattern.length else start) ≤ i ∧
      i + pattern.length ≤ lines.length := by
    rcases h with h | ⟨-, h | ⟨-, h | ⟨-, h⟩⟩⟩
    · exact seekPass_spec hfits h
    · exact seekPass_spec hfits h
    · exact seekPass_spec hfits h
    · exact seekPass_spec hfits h
  refine .inr ⟨hnone, hbounds.2, ?_⟩
  have hstart := hbounds.1
  cases eof with
  | true =>
    simp only [if_true] at hstart ⊢
    omega
  | false => exact hstart

/-- The context line leaves the cursor within the file, and never before. -/
theorem seekContext_spec (h : seekContext lines path chunk cursor = .ok next)
    (hcursor : cursor ≤ lines.length) : cursor ≤ next ∧ next ≤ lines.length := by
  unfold seekContext at h
  cases hcontext : chunk.changeContext with
  | none =>
    rw [hcontext] at h
    obtain rfl := Except.ok.inj h
    exact ⟨Nat.le_refl _, hcursor⟩
  | some ctxLine =>
    rw [hcontext] at h
    simp only at h
    cases hseek : seekSequence lines [ctxLine] cursor false with
    | none =>
      rw [hseek] at h
      cases h
    | some idx =>
      rw [hseek] at h
      obtain rfl := Except.ok.inj h
      rcases seekSequence_spec hseek with ⟨hnil, -⟩ | ⟨-, hfits, hstart⟩
      · cases hnil
      · have hle : cursor ≤ idx := hstart
        rw [List.length_singleton] at hfits
        omega

/-! ### Regions -/

namespace Replacement

/-- Where the region ends. -/
def stop (r : Replacement) : Nat := r.startIndex + r.oldLen

/-- The region lies within the lines. -/
def InBounds (lines : List Text) (r : Replacement) : Prop := r.stop ≤ lines.length

end Replacement

/-- **A region that is found** from a cursor on: it is empty and lies at the cursor, or it lies
    at the end of the file for an end-of-file chunk, and behind the cursor otherwise. -/
def Located (lines : List Text) (chunk : UpdateFileChunk) (cursor : Nat) (r : Replacement) :
    Prop :=
  if r.oldLen = 0 then r.startIndex = cursor
  else if chunk.isEndOfFile then r.startIndex = lines.length - r.oldLen
  else cursor ≤ r.startIndex

theorem located_of_seek (newLines : List Text) (hcursor : cursor ≤ lines.length)
    (h : seekSequence lines pattern cursor chunk.isEndOfFile = some i) :
    Located lines chunk cursor ⟨i, pattern.length, newLines⟩ ∧
      Replacement.InBounds lines ⟨i, pattern.length, newLines⟩ := by
  unfold Located Replacement.InBounds Replacement.stop
  rcases seekSequence_spec h with ⟨rfl, rfl⟩ | ⟨hne, hfits, hstart⟩
  · refine ⟨?_, hcursor⟩
    simp only [List.length_nil, if_true]
  · have hpos := List.length_pos_iff.mpr hne
    refine ⟨?_, hfits⟩
    rw [if_neg (by simp only; omega)]
    exact hstart

theorem locateChunk_spec (hcursor : cursor ≤ lines.length)
    (h : locateChunk lines chunk cursor = some r) :
    Located lines chunk cursor r ∧ r.InBounds lines := by
  unfold locateChunk at h
  cases hseek : seekSequence lines chunk.oldLines cursor chunk.isEndOfFile with
  | some i =>
    rw [hseek] at h
    obtain rfl := Option.some.inj h
    exact located_of_seek _ hcursor hseek
  | none =>
    rw [hseek] at h
    simp only at h
    split at h
    · obtain ⟨i, hretry, rfl⟩ := Option.map_eq_some_iff.mp h
      exact located_of_seek _ hcursor hretry
    · cases h

/-- Where lines are added: at the end, before a final empty line. -/
def insertionIdx (lines : List Text) : Nat :=
  if endsWithEmptyLine lines then lines.length - 1 else lines.length

theorem insertionIdx_le (lines : List Text) : insertionIdx lines ≤ lines.length := by
  unfold insertionIdx
  split
  · exact Nat.sub_le _ _
  · exact Nat.le_refl _

/-- **One chunk**: it adds lines and leaves the cursor where its context line does, or replaces
    lines that are located from there on and leaves the cursor at their end. -/
theorem chunkReplacement_cases (h : chunkReplacement lines path cursor chunk = .ok (r, next))
    (hcursor : cursor ≤ lines.length) :
    ∃ from', seekContext lines path chunk cursor = .ok from' ∧ cursor ≤ from' ∧
      from' ≤ lines.length ∧
        ((chunk.oldLines = [] ∧ r = ⟨insertionIdx lines, 0, chunk.newLines⟩ ∧ next = from') ∨
          (chunk.oldLines ≠ [] ∧ locateChunk lines chunk from' = some r ∧
            Located lines chunk from' r ∧ r.InBounds lines ∧ next = r.stop)) := by
  unfold chunkReplacement at h
  cases hcontext : seekContext lines path chunk cursor with
  | error message =>
    rw [hcontext] at h
    cases h
  | ok from' =>
    rw [hcontext] at h
    obtain ⟨hle, hfrom⟩ := seekContext_spec hcontext hcursor
    refine ⟨from', rfl, hle, hfrom, ?_⟩
    by_cases hadd : chunk.oldLines = []
    · have hempty : chunk.oldLines.isEmpty = true := List.isEmpty_iff.mpr hadd
      simp only [hempty, if_true] at h
      obtain ⟨rfl, rfl⟩ := Prod.mk.inj (Except.ok.inj h)
      exact .inl ⟨hadd, rfl, rfl⟩
    · have hempty : chunk.oldLines.isEmpty = false := List.isEmpty_eq_false_iff.mpr hadd
      simp only [hempty, Bool.false_eq_true, if_false] at h
      cases hlocate : locateChunk lines chunk from' with
      | none =>
        rw [hlocate] at h
        cases h
      | some r' =>
        rw [hlocate] at h
        obtain ⟨rfl, rfl⟩ := Prod.mk.inj (Except.ok.inj h)
        obtain ⟨hlocated, hbounds⟩ := locateChunk_spec hfrom hlocate
        exact .inr ⟨hadd, rfl, hlocated, hbounds, rfl⟩

/-- A chunk's region and the cursor after it lie within the file. -/
theorem chunkReplacement_inBounds (h : chunkReplacement lines path cursor chunk = .ok (r, next))
    (hcursor : cursor ≤ lines.length) : r.InBounds lines ∧ next ≤ lines.length := by
  obtain ⟨from', -, -, hfrom, ⟨-, rfl, rfl⟩ | ⟨-, -, -, hbounds, rfl⟩⟩ :=
    chunkReplacement_cases h hcursor
  · exact ⟨insertionIdx_le lines, hfrom⟩
  · exact ⟨hbounds, hbounds⟩

/-- The chunks one after the other. -/
theorem chunkReplacements_cons_ok
    (h : chunkReplacements lines path cursor (chunk :: chunks) = .ok rs) :
    ∃ r next rest, chunkReplacement lines path cursor chunk = .ok (r, next) ∧
      chunkReplacements lines path next chunks = .ok rest ∧ rs = r :: rest := by
  unfold chunkReplacements at h
  cases hfirst : chunkReplacement lines path cursor chunk with
  | error message =>
    rw [hfirst] at h
    cases h
  | ok result =>
    obtain ⟨r, next⟩ := result
    rw [hfirst] at h
    simp only at h
    cases hrest : chunkReplacements lines path next chunks with
    | error message =>
      rw [hrest] at h
      cases h
    | ok rest =>
      rw [hrest] at h
      exact ⟨r, next, rest, rfl, hrest, (Except.ok.inj h).symm⟩

/-- **Every region lies within the file.** -/
theorem chunkReplacements_inBounds (h : chunkReplacements lines path cursor chunks = .ok rs)
    (hcursor : cursor ≤ lines.length) : ∀ r ∈ rs, r.InBounds lines := by
  induction chunks generalizing cursor rs with
  | nil =>
    obtain rfl := Except.ok.inj h
    exact fun r hr => absurd hr List.not_mem_nil
  | cons chunk chunks ih =>
    obtain ⟨r, next, rest, hfirst, hrest, rfl⟩ := chunkReplacements_cons_ok h
    obtain ⟨hbounds, hnext⟩ := chunkReplacement_inBounds hfirst hcursor
    intro r' hr'
    rcases List.mem_cons.mp hr' with rfl | hr'
    · exact hbounds
    · exact ih hrest hnext r' hr'

/-! ### The sorted regions -/

/-- The order of the regions in the list that is applied. -/
abbrev StartsBefore (a b : Replacement) : Prop := a.startIndex ≤ b.startIndex

instance : Std.Total StartsBefore := ⟨fun a b => Nat.le_total a.startIndex b.startIndex⟩

instance : IsTrans Replacement StartsBefore := ⟨fun _ _ _ => Nat.le_trans⟩

theorem computeReplacements_ok (h : computeReplacements lines path chunks = .ok rs) :
    ∃ inOrder, chunkReplacements lines path 0 chunks = .ok inOrder ∧
      rs = inOrder.insertionSort StartsBefore := by
  unfold computeReplacements at h
  cases hrun : chunkReplacements lines path 0 chunks with
  | error message =>
    rw [hrun] at h
    cases h
  | ok inOrder =>
    rw [hrun] at h
    exact ⟨inOrder, rfl, (Except.ok.inj h).symm⟩

theorem computeReplacements_sorted (h : computeReplacements lines path chunks = .ok rs) :
    rs.Pairwise StartsBefore ∧ ∀ r ∈ rs, r.InBounds lines := by
  obtain ⟨inOrder, hrun, rfl⟩ := computeReplacements_ok h
  refine ⟨List.pairwise_insertionSort _ _, ?_⟩
  intro r hr
  rw [List.mem_insertionSort] at hr
  exact chunkReplacements_inBounds hrun (Nat.zero_le _) r hr

end CodexMonitor.ApplyPatch
