import CodexMonitor.StreamParser.InlineTags

namespace CodexMonitor.StreamParser

/-!
# Stream parsers — for which tag tables chunks do not matter

A text may reach the parser in any chunks.  The output is that of the whole text at once for
every text exactly if no opening delimiter lies inside another one.

* `parseChunks` — feeding chunks and finishing.
* `total` — the output from a state on, with its end.
* `parseChunks_eq` — the output does not depend on the chunks, if the table allows it.
* `chunkInvariant_iff` — and only then.
-/

variable {T : Type} (specs : List (InlineTagSpec T))

/-! ### Feeding chunks -/

/-- The calls of `push_str` one after the other. -/
def InlineHiddenTagParser.pushAll (parser : InlineHiddenTagParser T) :
    List Text → InlineHiddenTagParser T × StreamTextChunk (ExtractedInlineTag T)
  | [] => (parser, .empty)
  | chunk :: chunks =>
      let rest := (parser.pushStr specs chunk).1.pushAll chunks
      (rest.1, (parser.pushStr specs chunk).2 ++ rest.2)

/-- What a parser returns for the chunks and the end of the text. -/
def parseChunks (chunks : List Text) : StreamTextChunk (ExtractedInlineTag T) :=
  (InlineHiddenTagParser.new.pushAll specs chunks).2 ++
    (InlineHiddenTagParser.new.pushAll specs chunks).1.finish

/-- **Chunks do not matter**: every split of every text gives what the text gives at once. -/
def ChunkInvariant : Prop :=
  ∀ chunks : List Text, parseChunks specs chunks = parseChunks specs [chunks.flatten]

/-- The output from a state on, when the text ends. -/
def total (active : Option (ActiveTag T)) (pending : Text) :
    StreamTextChunk (ExtractedInlineTag T) :=
  (run specs active pending).2 ++ (run specs active pending).1.finish

variable {specs} {pending : Text} {active : ActiveTag T} {k : Nat}

theorem findNextOpen_nil : findNextOpen specs [] = none := by
  rw [findNextOpen_eq_none_iff]
  intro spec _
  exact findSub_nil spec.open_ne

theorem run_none_nil : run specs none [] = (InlineHiddenTagParser.new, .empty) := by
  rw [run_idle findNextOpen_nil, List.take_nil, List.drop_nil]
  rfl

theorem pushAll_run (h : NoOpenInside specs) (active : Option (ActiveTag T)) (pending : Text)
    (chunks : List Text) :
    run specs active (pending ++ chunks.flatten) =
      (((run specs active pending).1.pushAll specs chunks).1,
        (run specs active pending).2 ++ ((run specs active pending).1.pushAll specs chunks).2) := by
  induction chunks generalizing pending with
  | nil =>
    rw [List.flatten_nil, List.append_nil]
    unfold InlineHiddenTagParser.pushAll
    rw [StreamTextChunk.append_empty]
  | cons chunk chunks ih =>
    rw [List.flatten_cons, ← List.append_assoc, ih, run_append h, StreamTextChunk.append_assoc]
    rfl

/-- **The output does not depend on the chunks** if no opening delimiter lies inside another. -/
theorem parseChunks_eq (h : NoOpenInside specs) (chunks : List Text) :
    parseChunks specs chunks = total specs none chunks.flatten := by
  have hrun := pushAll_run h none [] chunks
  rw [run_none_nil, List.nil_append, StreamTextChunk.empty_append] at hrun
  unfold parseChunks total
  rw [hrun]

theorem chunkInvariant_of_noOpenInside (h : NoOpenInside specs) : ChunkInvariant specs := by
  intro chunks
  rw [parseChunks_eq h, parseChunks_eq h, List.flatten_singleton]

/-! ### Outputs from a state on -/

theorem total_close (hfind : findSub active.closeDelim pending = some k) :
    total specs (some active) pending = (active.extend (pending.take k)).extract ++
      total specs none (pending.drop (k + active.closeDelim.length)) := by
  unfold total
  rw [run_close hfind, StreamTextChunk.append_assoc]

theorem total_hold (hfind : findSub active.closeDelim pending = none) :
    total specs (some active) pending = (active.extend pending).extract := by
  unfold total
  rw [run_hold hfind, StreamTextChunk.empty_append]
  show (((active.extend _).extend _).extract) = _
  rw [ActiveTag.extend_extend, List.take_append_drop]

theorem total_open {spec : InlineTagSpec T} {idx : Nat}
    (hfind : findNextOpen specs pending = some (k, spec, idx)) :
    total specs none pending = visible (pending.take k) ++
      total specs (some spec.activate) (pending.drop (k + spec.openDelim.length)) := by
  unfold total
  rw [run_open hfind, StreamTextChunk.append_assoc]

theorem total_idle (hfind : findNextOpen specs pending = none) :
    total specs none pending = visible pending := by
  unfold total
  rw [run_idle hfind]
  show visible _ ++ visible _ = _
  rw [visible_append, List.take_append_drop]

/-- An open tag is always extracted in the end. -/
theorem extracted_total_some_ne (active : ActiveTag T) (pending : Text) :
    (total specs (some active) pending).extracted ≠ [] := by
  cases hfind : findSub active.closeDelim pending with
  | some k =>
    rw [total_close hfind, StreamTextChunk.extracted_append]
    exact List.cons_ne_nil _ _
  | none =>
    rw [total_hold hfind]
    exact List.cons_ne_nil _ _

/-- Only the empty text has no output. -/
theorem eq_nil_of_total (h : total specs none pending = .empty) : pending = [] := by
  cases hfind : findNextOpen specs pending with
  | some candidate =>
    obtain ⟨k, spec, idx⟩ := candidate
    rw [total_open hfind] at h
    have hextracted := congrArg StreamTextChunk.extracted h
    exact absurd hextracted (extracted_total_some_ne spec.activate _)
  | none =>
    rw [total_idle hfind] at h
    exact congrArg StreamTextChunk.visibleText h

/-! ### A delimiter inside another one -/

/-- The delimiter itself, as the text. -/
theorem findNextOpen_self {spec : InlineTagSpec T} (hspec : spec ∈ specs) :
    ∃ first idx, first.openDelim = spec.openDelim ∧
      findNextOpen specs spec.openDelim = some (0, first, idx) := by
  obtain ⟨idx, hidx⟩ := List.mem_iff_getElem?.mp hspec
  have hself : (0, spec, idx) ∈ openCandidates specs spec.openDelim :=
    mem_openCandidates.mpr ⟨hidx, findSub_of_prefix List.prefix_rfl⟩
  cases hfind : findNextOpen specs spec.openDelim with
  | none =>
    have hnone := findNextOpen_eq_none_iff.mp hfind spec hspec
    rw [ findSub_of_prefix List.prefix_rfl] at hnone
    cases hnone
  | some candidate =>
    obtain ⟨pos, first, idx'⟩ := candidate
    have hle := openKey_le_iff.mp ((findNextOpen_eq_some_iff.mp hfind).2 _ hself)
    simp only at hle
    have hpos : pos = 0 := by omega
    subst hpos
    obtain ⟨-, hfirst, -⟩ := findSub_eq_some_iff.mp (findSub_of_findNextOpen hfind)
    rw [List.drop_zero] at hfirst
    refine ⟨first, idx', ?_, rfl⟩
    exact hfirst.eq_of_length_le (by omega)

/-- A longest delimiter in front of any text. -/
theorem findNextOpen_longest {spec first : InlineTagSpec T} {idx : Nat}
    (hlongest : ∀ other ∈ specs, spec.openDelim <+: other.openDelim →
      other.openDelim = spec.openDelim)
    (hfirst : findNextOpen specs spec.openDelim = some (0, first, idx)) (newer : Text) :
    findNextOpen specs (spec.openDelim ++ newer) = some (0, first, idx) := by
  obtain ⟨hmem, hleast⟩ := findNextOpen_eq_some_iff.mp hfirst
  obtain ⟨hspec, hzero⟩ := mem_openCandidates.mp hmem
  refine findNextOpen_eq_some_iff.mpr ⟨mem_openCandidates.mpr ⟨hspec, ?_⟩, ?_⟩
  · exact findSub_append_of_some hzero newer
  · rintro ⟨pos, other, idx'⟩ hother
    obtain ⟨hspec', hpos⟩ := mem_openCandidates.mp hother
    rcases Nat.eq_zero_or_pos pos with rfl | hlater
    · -- a delimiter at the same place is no longer than the longest one
      obtain ⟨-, hprefix, -⟩ := findSub_eq_some_iff.mp hpos
      have hfits : other.openDelim <+: spec.openDelim := by
        rcases List.prefix_or_prefix_of_prefix hprefix (List.prefix_append _ newer) with
          hshort | hlong
        · exact hshort
        · have heq := hlongest other (List.mem_of_getElem? hspec') hlong
          exact ⟨[], by rw [List.append_nil, heq]⟩
      exact hleast _ (mem_openCandidates.mpr ⟨hspec', findSub_of_prefix hfits⟩)
    · exact openKey_le_iff.mpr (.inl hlater)

/-- A delimiter that begins a longer one. -/
def BeginsLonger (specs : List (InlineTagSpec T)) (outer : InlineTagSpec T) : Prop :=
  ∃ inner ∈ specs, inner.openDelim <+: outer.openDelim ∧ inner.openDelim ≠ outer.openDelim

/-- A chunk that is one delimiter, and then more text. -/
theorem parseChunks_delim {spec first : InlineTagSpec T} {idx : Nat}
    (hfirst : findNextOpen specs spec.openDelim = some (0, first, idx))
    (heq : first.openDelim = spec.openDelim) (newer : Text) :
    parseChunks specs [spec.openDelim, newer] = total specs (some first.activate) newer := by
  have hnone : findSub first.activate.closeDelim [] = none := findSub_nil first.close_ne
  have hrun : run specs none spec.openDelim =
      ({ pending := [], active := some first.activate }, .empty) := by
    rw [run_open hfirst, Nat.zero_add, heq, List.drop_length, run_hold hnone]
    rfl
  unfold parseChunks InlineHiddenTagParser.pushAll InlineHiddenTagParser.pushStr
  simp only [InlineHiddenTagParser.new, List.nil_append, hrun, StreamTextChunk.empty_append]
  unfold InlineHiddenTagParser.pushAll InlineHiddenTagParser.pushStr
  simp only [List.nil_append, InlineHiddenTagParser.pushAll, StreamTextChunk.append_empty]
  rfl

theorem parseChunks_singleton (text : Text) :
    parseChunks specs [text] = total specs none text := by
  unfold parseChunks InlineHiddenTagParser.pushAll InlineHiddenTagParser.pushStr
  simp only [InlineHiddenTagParser.new, List.nil_append, InlineHiddenTagParser.pushAll,
    StreamTextChunk.append_empty]
  rfl

/-- **A delimiter that begins a longer one** is taken too early. -/
theorem not_chunkInvariant_of_begins {outer : InlineTagSpec T} (houter : outer ∈ specs)
    (hbegins : BeginsLonger specs outer)
    (hlongest : ∀ other ∈ specs, outer.openDelim <+: other.openDelim →
      other.openDelim = outer.openDelim) : ¬ ChunkInvariant specs := by
  intro hinvariant
  obtain ⟨inner, hinner, ⟨rest, hrest⟩, hne⟩ := hbegins
  have hrestne : rest ≠ [] := by
    rintro rfl
    exact hne ((List.append_nil _).symm.trans hrest)
  obtain ⟨early, idx, hearlyeq, hearly⟩ := findNextOpen_self hinner
  obtain ⟨late, idx', hlateeq, hlate⟩ := findNextOpen_self houter
  -- after the shorter delimiter the rest of the longer one is content
  have hsame : ∀ newer, total specs (some early.activate) (rest ++ newer) =
      total specs (some late.activate) newer := by
    intro newer
    have hchunks := hinvariant [inner.openDelim, rest ++ newer]
    have hflatten : [inner.openDelim, rest ++ newer].flatten = outer.openDelim ++ newer := by
      rw [← hrest]
      simp
    rw [parseChunks_delim hearly hearlyeq, hflatten, parseChunks_singleton,
      total_open (findNextOpen_longest hlongest hlate newer), Nat.zero_add, hlateeq,
      List.drop_left] at hchunks
    exact hchunks
  have hempty := hsame []
  rw [List.append_nil, total_hold (findSub_nil late.activate.close_ne)] at hempty
  cases hfind : findSub early.activate.closeDelim rest with
  | none =>
    rw [total_hold hfind] at hempty
    have hcontent := congrArg StreamTextChunk.extracted hempty
    have hfalse := congrArg ExtractedInlineTag.content (List.cons.inj hcontent).1
    exact hrestne hfalse
  | some k =>
    -- then the rest is the closing delimiter of the shorter one
    rw [total_close hfind] at hempty
    have hvisible := congrArg StreamTextChunk.visibleText hempty
    have hextracted := congrArg StreamTextChunk.extracted hempty
    obtain ⟨hcontent, htail⟩ := List.cons.inj hextracted
    have htake : rest.take k = [] := congrArg ExtractedInlineTag.content hcontent
    have hzero : k = 0 := by
      rcases List.take_eq_nil_iff.mp htake with hzero | hnone
      · exact hzero
      · exact absurd hnone hrestne
    subst hzero
    have hover : total specs none (rest.drop (0 + early.activate.closeDelim.length)) =
        .empty := by
      cases htotal : total specs none (rest.drop (0 + early.activate.closeDelim.length)) with
      | mk shown tags =>
        rw [htotal] at hvisible htail
        have hshown : shown = [] := hvisible
        have htags : tags = [] := htail
        rw [hshown, htags]
        rfl
    -- one more character tells the two states apart
    obtain ⟨c, hc⟩ : ∃ c, late.closeDelim ≠ [c] := by
      by_cases ha : late.closeDelim = ['a']
      · exact ⟨'b', by rw [ha]; decide⟩
      · exact ⟨'a', ha⟩
    have hmore := hsame [c]
    have hone : findSub late.activate.closeDelim [c] = none := by
      rw [findSub_eq_none_iff late.activate.close_ne]
      intro j hbegins
      cases j with
      | zero =>
        rw [List.drop_zero] at hbegins
        have hpos := List.length_pos_iff.mpr late.close_ne
        exact hc (hbegins.eq_of_length_le (by rw [List.length_singleton]; exact hpos))
      | succ j =>
        rw [List.drop_eq_nil_of_le (by simp)] at hbegins
        exact late.close_ne (List.prefix_nil.mp hbegins)
    rw [total_hold hone, total_close (findSub_append_of_some hfind [c])] at hmore
    have hfirst := congrArg StreamTextChunk.extracted hmore
    have hfalse := congrArg ExtractedInlineTag.content (List.cons.inj hfirst).1
    cases hfalse

/-- A delimiter inside another one is found too early, or begins one. -/
theorem begins_of_chunkInvariant (hinvariant : ChunkInvariant specs)
    {inner outer : InlineTagSpec T} (hinner : inner ∈ specs) (houter : outer ∈ specs)
    {before after : Text} (hsplit : outer.openDelim = before ++ inner.openDelim ++ after)
    (hafter : after ≠ []) : BeginsLonger specs outer := by
  obtain ⟨late, idx, hlateeq, hlate⟩ := findNextOpen_self houter
  cases hfind : findNextOpen specs (before ++ inner.openDelim) with
  | none =>
    have hnone := findNextOpen_eq_none_iff.mp hfind inner hinner
    refine absurd ?_ ((findSub_eq_none_iff inner.open_ne).mp hnone before.length)
    exact ⟨[], by rw [List.append_nil, List.drop_left]⟩
  | some candidate =>
    obtain ⟨k, early, idx'⟩ := candidate
    have hchunks := hinvariant [before ++ inner.openDelim, after]
    have hflatten : [before ++ inner.openDelim, after].flatten = outer.openDelim := by
      rw [hsplit]
      simp
    rw [hflatten, parseChunks_singleton, total_open hlate] at hchunks
    -- nothing is shown before the longer delimiter, so the other one begins it
    have hvisible := congrArg StreamTextChunk.visibleText hchunks
    rw [Nat.zero_add, hlateeq, List.drop_length,
      total_hold (findSub_nil late.activate.close_ne)] at hvisible
    have hshown : (before ++ inner.openDelim).take k <+:
        (parseChunks specs [before ++ inner.openDelim, after]).visibleText := by
      unfold parseChunks InlineHiddenTagParser.pushAll InlineHiddenTagParser.pushStr
      simp only [InlineHiddenTagParser.new, List.nil_append]
      rw [run_open hfind, StreamTextChunk.append_assoc, StreamTextChunk.append_assoc]
      exact List.prefix_append _ _
    rw [hvisible] at hshown
    have hzero : k = 0 := by
      rcases List.take_eq_nil_iff.mp (List.prefix_nil.mp hshown) with hzero | hnone
      · exact hzero
      · exact absurd (List.append_eq_nil_iff.mp hnone).2 inner.open_ne
    subst hzero
    have hfound := findSub_of_findNextOpen hfind
    have hlength := add_length_le_of_findSub hfound
    obtain ⟨-, hprefix, -⟩ := findSub_eq_some_iff.mp hfound
    have hearly := (mem_openCandidates.mp (findNextOpen_eq_some_iff.mp hfind).1).1
    refine ⟨early, List.mem_of_getElem? hearly, ?_, ?_⟩
    · rw [hsplit]
      exact hprefix.trans (List.prefix_append _ _)
    · intro heq
      have hpos := List.length_pos_iff.mpr hafter
      have hsum : (before ++ inner.openDelim ++ after).length =
          (before ++ inner.openDelim).length + after.length := List.length_append
      rw [heq, hsplit] at hlength
      omega

/-- **Chunks do not matter** for a table exactly if no opening delimiter lies inside another. -/
theorem chunkInvariant_iff (specs : List (InlineTagSpec T)) :
    ChunkInvariant specs ↔ NoOpenInside specs := by
  refine ⟨?_, chunkInvariant_of_noOpenInside⟩
  intro hinvariant inner hinner outer houter before after hsplit
  by_contra hafter
  have hbegins := begins_of_chunkInvariant hinvariant hinner houter hsplit hafter
  classical
  have hmem : outer ∈ specs.filter fun spec => BeginsLonger specs spec :=
    List.mem_filter.mpr ⟨houter, decide_eq_true hbegins⟩
  -- a longest delimiter that another one begins
  cases hmax : (specs.filter fun spec => BeginsLonger specs spec).argmax
      fun spec => spec.openDelim.length with
  | none =>
    rw [List.argmax_eq_none.mp hmax] at hmem
    cases hmem
  | some longest =>
    obtain ⟨hlongest, hlongestBegins⟩ := List.mem_filter.mp (List.argmax_mem hmax)
    refine not_chunkInvariant_of_begins hlongest (of_decide_eq_true hlongestBegins) ?_ hinvariant
    intro other hother hbegins
    by_contra hne
    have hotherBegins : BeginsLonger specs other := ⟨longest, hlongest, hbegins, Ne.symm hne⟩
    have hle := List.le_of_mem_argmax
      (List.mem_filter.mpr ⟨hother, decide_eq_true hotherBegins⟩) hmax
    exact hne (hbegins.eq_of_length_le hle).symm

/-! ### An opening delimiter that begins another one

The shorter delimiter is taken when the chunk ends after it.
-/

def nestedSpecs : List (InlineTagSpec Char) :=
  [ { tag := 'A', openDelim := "<a".toList, closeDelim := "</a".toList,
      open_ne := by decide, close_ne := by decide },
    { tag := 'B', openDelim := "<ab".toList, closeDelim := "</ab".toList,
      open_ne := by decide, close_ne := by decide } ]

theorem nestedSpecs_not_chunkInvariant :
    ¬ ∀ (T : Type) (specs : List (InlineTagSpec T)), specs ≠ [] → ChunkInvariant specs := by
  intro h
  have hchunks := h Char nestedSpecs (by decide) ["<a".toList, "b".toList]
  revert hchunks
  decide +kernel

end CodexMonitor.StreamParser
