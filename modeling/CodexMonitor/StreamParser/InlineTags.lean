import Mathlib.Data.List.MinMax
import Mathlib.Data.Prod.Lex
import CodexMonitor.Lib.Occurrences
import CodexMonitor.Lib.Text

namespace CodexMonitor.StreamParser

/-!
# Stream parsers — hidden inline tags

`utils/stream-parser/src/inline_hidden_tag.rs`: a parser that is fed text in chunks, hides the
tags of a table and extracts their contents.  Positions and lengths are counted in characters;
a delimiter occurs in a text only at character boundaries.

* `StreamTextChunk` — what one call returns.
* `StreamTextParser` — a parser that takes text in chunks.
* `InlineTagSpec` — a tag of the table; `new` panics on empty delimiters, so there are none.
* `findNextOpen` — the earliest opening delimiter, of these the longest.
* `drain` — the loop of `push_str`; `run` gives it the rounds it needs.
* `run_append` — if no opening delimiter lies inside another one, text may arrive in pieces.
-/

/-! ### What a call returns -/

/-- The text that may be shown, and what was extracted. -/
structure StreamTextChunk (E : Type) where
  visibleText : Text
  extracted : List E
  deriving DecidableEq, Repr

namespace StreamTextChunk

variable {E : Type}

def empty : StreamTextChunk E := { visibleText := [], extracted := [] }

/-- The output of one call followed by that of the next. -/
def append (a b : StreamTextChunk E) : StreamTextChunk E :=
  { visibleText := a.visibleText ++ b.visibleText, extracted := a.extracted ++ b.extracted }

instance instAppendStreamTextChunk : Append (StreamTextChunk E) := ⟨append⟩

@[simp] theorem visibleText_append (a b : StreamTextChunk E) :
    (a ++ b).visibleText = a.visibleText ++ b.visibleText := rfl

@[simp] theorem extracted_append (a b : StreamTextChunk E) :
    (a ++ b).extracted = a.extracted ++ b.extracted := rfl

@[simp] theorem empty_append (a : StreamTextChunk E) : empty ++ a = a := rfl

@[simp] theorem append_empty (a : StreamTextChunk E) : a ++ empty = a := by
  show append a empty = a
  unfold append empty
  rw [List.append_nil, List.append_nil]

theorem append_assoc (a b c : StreamTextChunk E) : a ++ b ++ c = a ++ (b ++ c) := by
  show append (append a b) c = append a (append b c)
  unfold append
  rw [List.append_assoc, List.append_assoc]

end StreamTextChunk

/-! ### Text parsers -/

/-- A parser with the states `P`. -/
structure StreamTextParser (P E : Type) where
  pushStr : P → Text → P × StreamTextChunk E
  finish : P → P × StreamTextChunk E

namespace StreamTextParser

variable {P E : Type} (text : StreamTextParser P E)

/-- The calls of `push_str` one after the other. -/
def pushAll (inner : P) : List Text → P × StreamTextChunk E
  | [] => (inner, .empty)
  | chunk :: chunks =>
      let rest := pushAll (text.pushStr inner chunk).1 chunks
      (rest.1, (text.pushStr inner chunk).2 ++ rest.2)

/-- What the parser returns for the chunks and the end of the text. -/
def collect (inner : P) (chunks : List Text) : StreamTextChunk E :=
  (text.pushAll inner chunks).2 ++ (text.finish (text.pushAll inner chunks).1).2

/-- From this state on every split of every text gives what the text gives at once. -/
def ChunkInvariant (inner : P) : Prop :=
  ∀ chunks : List Text, text.collect inner chunks = text.collect inner [chunks.flatten]

end StreamTextParser

/-! ### The parser -/

variable {T : Type}

structure ExtractedInlineTag (T : Type) where
  tag : T
  content : Text
  deriving DecidableEq, Repr

structure InlineTagSpec (T : Type) where
  tag : T
  openDelim : Text
  closeDelim : Text
  open_ne : openDelim ≠ []
  close_ne : closeDelim ≠ []

/-- The tag the parser is inside of. -/
structure ActiveTag (T : Type) where
  tag : T
  closeDelim : Text
  content : Text
  close_ne : closeDelim ≠ []

/-- The state of the parser; its table never changes and is an argument. -/
structure InlineHiddenTagParser (T : Type) where
  pending : Text
  active : Option (ActiveTag T)

def InlineHiddenTagParser.new : InlineHiddenTagParser T := { pending := [], active := none }

variable (specs : List (InlineTagSpec T))

/-- The first occurrences of the opening delimiters, each with its spec and the spec's index. -/
def openCandidates (pending : Text) : List (Nat × InlineTagSpec T × Nat) :=
  specs.zipIdx.filterMap fun entry => (findSub entry.1.openDelim pending).map (·, entry)

/-- The order of the candidates: by position, then the longer one, then by index. -/
def openKey (candidate : Nat × InlineTagSpec T × Nat) : ℕ ×ₗ ℕᵒᵈ ×ₗ ℕ :=
  toLex (candidate.1,
    toLex (OrderDual.toDual candidate.2.1.openDelim.length, candidate.2.2))

def findNextOpen (pending : Text) : Option (Nat × InlineTagSpec T × Nat) :=
  (openCandidates specs pending).argmin openKey

/-- The longest end of the text that may still become an opening delimiter. -/
def maxOpenPrefixSuffixLen (pending : Text) : Nat :=
  (specs.map fun spec => overlapLen pending spec.openDelim).max?.getD 0

def InlineTagSpec.activate (spec : InlineTagSpec T) : ActiveTag T :=
  { tag := spec.tag, closeDelim := spec.closeDelim, content := [], close_ne := spec.close_ne }

def ActiveTag.extend (active : ActiveTag T) (text : Text) : ActiveTag T :=
  { active with content := active.content ++ text }

/-- The output that closes a tag. -/
def ActiveTag.extract (active : ActiveTag T) : StreamTextChunk (ExtractedInlineTag T) :=
  { visibleText := [], extracted := [{ tag := active.tag, content := active.content }] }

/-- The output that is only shown. -/
def visible (text : Text) : StreamTextChunk (ExtractedInlineTag T) :=
  { visibleText := text, extracted := [] }

/-- **The loop of `push_str`**: closes the tag it is in or opens the next one, and stops at the
    end of the text that may still become a delimiter. -/
def drain : Nat → Option (ActiveTag T) → Text →
    InlineHiddenTagParser T × StreamTextChunk (ExtractedInlineTag T)
  | 0, active, pending => ({ pending := pending, active := active }, .empty)
  | rounds + 1, some active, pending =>
      match findSub active.closeDelim pending with
      | some closeIdx =>
          let rest := drain rounds none (pending.drop (closeIdx + active.closeDelim.length))
          (rest.1, (active.extend (pending.take closeIdx)).extract ++ rest.2)
      | none =>
          let take := pending.length - overlapLen pending active.closeDelim
          ({ pending := pending.drop take, active := some (active.extend (pending.take take)) },
            .empty)
  | rounds + 1, none, pending =>
      match findNextOpen specs pending with
      | some (openIdx, spec, _) =>
          let rest := drain rounds (some spec.activate)
            (pending.drop (openIdx + spec.openDelim.length))
          (rest.1, visible (pending.take openIdx) ++ rest.2)
      | none =>
          let take := pending.length - maxOpenPrefixSuffixLen specs pending
          ({ pending := pending.drop take, active := none }, visible (pending.take take))

/-- Each round of the loop takes a delimiter off the text. -/
def run (active : Option (ActiveTag T)) (pending : Text) :
    InlineHiddenTagParser T × StreamTextChunk (ExtractedInlineTag T) :=
  drain specs (pending.length + 1) active pending

def InlineHiddenTagParser.pushStr (parser : InlineHiddenTagParser T) (chunk : Text) :
    InlineHiddenTagParser T × StreamTextChunk (ExtractedInlineTag T) :=
  run specs parser.active (parser.pending ++ chunk)

/-- An open tag is closed at the end of the text. -/
def InlineHiddenTagParser.finish (parser : InlineHiddenTagParser T) :
    StreamTextChunk (ExtractedInlineTag T) :=
  match parser.active with
  | some active => (active.extend parser.pending).extract
  | none => visible parser.pending

/-! ### The rounds of the loop -/

variable {specs} {pending : Text} {active : ActiveTag T} {k : Nat}

theorem length_drop_delim {delim : Text} (hdelim : delim ≠ [])
    (hfind : findSub delim pending = some k) :
    (pending.drop (k + delim.length)).length < pending.length := by
  have hle := add_length_le_of_findSub hfind
  have hpos := List.length_pos_iff.mpr hdelim
  rw [List.length_drop]
  omega

theorem mem_openCandidates {pos idx : Nat} {spec : InlineTagSpec T} :
    (pos, spec, idx) ∈ openCandidates specs pending ↔
      specs[idx]? = some spec ∧ findSub spec.openDelim pending = some pos := by
  unfold openCandidates
  rw [List.mem_filterMap]
  constructor
  · rintro ⟨entry, hentry, hfind⟩
    obtain ⟨p, hp, heq⟩ := Option.map_eq_some_iff.mp hfind
    obtain ⟨rfl, rfl⟩ := Prod.mk.inj heq
    exact ⟨List.mk_mem_zipIdx_iff_getElem?.mp hentry, hp⟩
  · rintro ⟨hspec, hfind⟩
    exact ⟨(spec, idx), List.mk_mem_zipIdx_iff_getElem?.mpr hspec, by rw [hfind]; rfl⟩

theorem openKey_le_iff {a b : Nat × InlineTagSpec T × Nat} : openKey a ≤ openKey b ↔
    a.1 < b.1 ∨ a.1 = b.1 ∧ (b.2.1.openDelim.length < a.2.1.openDelim.length ∨
      a.2.1.openDelim.length = b.2.1.openDelim.length ∧ a.2.2 ≤ b.2.2) := by
  unfold openKey
  rw [Prod.Lex.toLex_le_toLex, Prod.Lex.toLex_le_toLex]
  rfl

/-- **The next opening delimiter** is the first of the candidates in their order. -/
theorem findNextOpen_eq_some_iff {candidate : Nat × InlineTagSpec T × Nat} :
    findNextOpen specs pending = some candidate ↔
      candidate ∈ openCandidates specs pending ∧
        ∀ other ∈ openCandidates specs pending, openKey candidate ≤ openKey other := by
  unfold findNextOpen
  constructor
  · intro h
    exact ⟨List.argmin_mem h, fun other hother => List.le_of_mem_argmin hother h⟩
  · rintro ⟨hmem, hleast⟩
    cases hmin : (openCandidates specs pending).argmin openKey with
    | none =>
      rw [List.argmin_eq_none.mp hmin] at hmem
      cases hmem
    | some first =>
      have hfirst := List.argmin_mem hmin
      have hle := openKey_le_iff.mp (List.le_of_mem_argmin hmem hmin)
      have hge := openKey_le_iff.mp (hleast first hfirst)
      -- equal keys are keys of one spec
      obtain ⟨pos, spec, idx⟩ := candidate
      obtain ⟨pos', spec', idx'⟩ := first
      simp only at hle hge
      have hpos : pos' = pos := by omega
      have hidx : idx' = idx := by omega
      have hspec := (mem_openCandidates.mp hmem).1
      have hspec' := (mem_openCandidates.mp hfirst).1
      rw [hidx, hspec] at hspec'
      rw [hpos, hidx, Option.some.inj hspec']

theorem findNextOpen_eq_none_iff : findNextOpen specs pending = none ↔
    ∀ spec ∈ specs, findSub spec.openDelim pending = none := by
  unfold findNextOpen
  rw [List.argmin_eq_none, List.eq_nil_iff_forall_not_mem]
  constructor
  · intro hnone spec hspec
    obtain ⟨idx, hidx⟩ := List.mem_iff_getElem?.mp hspec
    cases hfind : findSub spec.openDelim pending with
    | none => rfl
    | some pos => exact absurd (mem_openCandidates.mpr ⟨hidx, hfind⟩) (hnone _)
  · rintro hnone ⟨pos, spec, idx⟩ hmem
    obtain ⟨hspec, hfind⟩ := mem_openCandidates.mp hmem
    rw [hnone spec (List.mem_of_getElem? hspec)] at hfind
    cases hfind

theorem findSub_of_findNextOpen {spec : InlineTagSpec T} {idx : Nat}
    (h : findNextOpen specs pending = some (k, spec, idx)) :
    findSub spec.openDelim pending = some k :=
  (mem_openCandidates.mp (findNextOpen_eq_some_iff.mp h).1).2

/-- More rounds than the text has characters make no difference. -/
theorem drain_rounds {rounds rounds' : Nat} (h : pending.length < rounds)
    (h' : pending.length < rounds') (active : Option (ActiveTag T)) :
    drain specs rounds active pending = drain specs rounds' active pending := by
  induction rounds generalizing rounds' pending active with
  | zero => exact absurd h (Nat.not_lt_zero _)
  | succ rounds ih =>
    obtain ⟨rounds', rfl⟩ := Nat.exists_eq_succ_of_ne_zero (n := rounds') (by omega)
    cases active with
    | some active =>
      unfold drain
      cases hfind : findSub active.closeDelim pending with
      | none => rfl
      | some closeIdx =>
        have hshorter := length_drop_delim active.close_ne hfind
        have hrest : drain specs rounds none (pending.drop (closeIdx + active.closeDelim.length)) =
            drain specs rounds' none (pending.drop (closeIdx + active.closeDelim.length)) :=
          ih (by omega) (by omega) none
        simp only [hrest]
    | none =>
      unfold drain
      cases hfind : findNextOpen specs pending with
      | none => rfl
      | some candidate =>
        obtain ⟨openIdx, spec, idx⟩ := candidate
        have hshorter := length_drop_delim spec.open_ne (findSub_of_findNextOpen hfind)
        have hrest : drain specs rounds (some spec.activate)
              (pending.drop (openIdx + spec.openDelim.length)) =
            drain specs rounds' (some spec.activate)
              (pending.drop (openIdx + spec.openDelim.length)) :=
          ih (by omega) (by omega) _
        simp only [hrest]

theorem run_close (hfind : findSub active.closeDelim pending = some k) :
    run specs (some active) pending =
      ((run specs none (pending.drop (k + active.closeDelim.length))).1,
        (active.extend (pending.take k)).extract ++
          (run specs none (pending.drop (k + active.closeDelim.length))).2) := by
  have hshorter := length_drop_delim active.close_ne hfind
  unfold run
  conv_lhs => unfold drain
  simp only [hfind]
  rw [drain_rounds hshorter (Nat.lt_succ_self _)]

theorem run_hold (hfind : findSub active.closeDelim pending = none) :
    run specs (some active) pending =
      ({ pending := pending.drop (pending.length - overlapLen pending active.closeDelim)
         active := some (active.extend
          (pending.take (pending.length - overlapLen pending active.closeDelim))) }, .empty) := by
  unfold run
  conv_lhs => unfold drain
  simp only [hfind]

theorem run_open {spec : InlineTagSpec T} {idx : Nat}
    (hfind : findNextOpen specs pending = some (k, spec, idx)) :
    run specs none pending =
      ((run specs (some spec.activate) (pending.drop (k + spec.openDelim.length))).1,
        visible (pending.take k) ++
          (run specs (some spec.activate) (pending.drop (k + spec.openDelim.length))).2) := by
  have hshorter := length_drop_delim spec.open_ne (findSub_of_findNextOpen hfind)
  unfold run
  conv_lhs => unfold drain
  simp only [hfind]
  rw [drain_rounds hshorter (Nat.lt_succ_self _)]

theorem run_idle (hfind : findNextOpen specs pending = none) :
    run specs none pending =
      ({ pending := pending.drop (pending.length - maxOpenPrefixSuffixLen specs pending)
         active := none },
        visible (pending.take (pending.length - maxOpenPrefixSuffixLen specs pending))) := by
  unfold run
  conv_lhs => unfold drain
  simp only [hfind]

/-! ### Text that can be let go -/

variable {front back newer : Text}

theorem take_add_append (front back : Text) (k : Nat) :
    (front ++ back).take (k + front.length) = front ++ back.take k := by
  rw [Nat.add_comm, List.take_length_add_append]

theorem drop_add_append (front back : Text) (k : Nat) :
    (front ++ back).drop (k + front.length) = back.drop k := by
  rw [Nat.add_comm, List.drop_length_add_append]

theorem ActiveTag.extend_extend (text text' : Text) :
    (active.extend text).extend text' = active.extend (text ++ text') := by
  unfold ActiveTag.extend
  rw [List.append_assoc]

theorem visible_append (text text' : Text) :
    (visible text ++ visible text' : StreamTextChunk (ExtractedInlineTag T)) =
      visible (text ++ text') := rfl

/-- Content before which the closing delimiter cannot begin. -/
theorem run_some_append
    (hfind : findSub active.closeDelim (front ++ back) =
      (findSub active.closeDelim back).map (· + front.length))
    (hoverlap : overlapLen (front ++ back) active.closeDelim =
      overlapLen back active.closeDelim) :
    run specs (some active) (front ++ back) = run specs (some (active.extend front)) back := by
  cases hback : findSub active.closeDelim back with
  | some k =>
    rw [hback, Option.map_some] at hfind
    have hback' : findSub (active.extend front).closeDelim back = some k := hback
    rw [run_close hfind, run_close hback', take_add_append, Nat.add_right_comm, drop_add_append,
      ActiveTag.extend_extend]
    rfl
  | none =>
    rw [hback, Option.map_none] at hfind
    have hback' : findSub (active.extend front).closeDelim back = none := hback
    have hle := overlapLen_le_length back active.closeDelim
    have hsum : (front ++ back).length - overlapLen (front ++ back) active.closeDelim =
        back.length - overlapLen back active.closeDelim + front.length := by
      rw [hoverlap, List.length_append]
      omega
    rw [run_hold hfind, run_hold hback', hsum, take_add_append, drop_add_append,
      ActiveTag.extend_extend]
    rfl

theorem overlapLen_le_maxOpen {spec : InlineTagSpec T} (hspec : spec ∈ specs) (pending : Text) :
    overlapLen pending spec.openDelim ≤ maxOpenPrefixSuffixLen specs pending :=
  List.le_max?_getD_of_mem (List.mem_map_of_mem hspec)

theorem maxOpen_le_length (specs : List (InlineTagSpec T)) (pending : Text) :
    maxOpenPrefixSuffixLen specs pending ≤ pending.length := by
  unfold maxOpenPrefixSuffixLen
  cases hmax : (specs.map fun spec => overlapLen pending spec.openDelim).max? with
  | none => exact Nat.zero_le _
  | some most =>
    obtain ⟨spec, -, rfl⟩ := List.mem_map.mp (List.max?_mem hmax)
    exact overlapLen_le_length _ _

/-- Text before which no opening delimiter can begin. -/
theorem run_none_append
    (hfind : ∀ spec ∈ specs, findSub spec.openDelim (front ++ back) =
      (findSub spec.openDelim back).map (· + front.length))
    (hoverlap : ∀ spec ∈ specs, overlapLen (front ++ back) spec.openDelim =
      overlapLen back spec.openDelim) :
    run specs none (front ++ back) =
      ((run specs none back).1, visible front ++ (run specs none back).2) := by
  cases hback : findNextOpen specs back with
  | some candidate =>
    obtain ⟨k, spec, idx⟩ := candidate
    have hwhole : findNextOpen specs (front ++ back) = some (k + front.length, spec, idx) := by
      obtain ⟨hmem, hleast⟩ := findNextOpen_eq_some_iff.mp hback
      obtain ⟨hspec, hk⟩ := mem_openCandidates.mp hmem
      refine findNextOpen_eq_some_iff.mpr ⟨mem_openCandidates.mpr ⟨hspec, ?_⟩, ?_⟩
      · rw [hfind spec (List.mem_of_getElem? hspec), hk, Option.map_some]
      · rintro ⟨pos, other, idx'⟩ hother
        obtain ⟨hspec', hpos⟩ := mem_openCandidates.mp hother
        rw [hfind other (List.mem_of_getElem? hspec'), Option.map_eq_some_iff] at hpos
        obtain ⟨pos, hpos, rfl⟩ := hpos
        have hle := openKey_le_iff.mp (hleast _ (mem_openCandidates.mpr ⟨hspec', hpos⟩))
        refine openKey_le_iff.mpr ?_
        simp only at hle ⊢
        omega
    rw [run_open hwhole, run_open hback, take_add_append, Nat.add_right_comm, drop_add_append,
      ← StreamTextChunk.append_assoc, visible_append]
  | none =>
    have hwhole : findNextOpen specs (front ++ back) = none := by
      rw [findNextOpen_eq_none_iff] at hback ⊢
      intro spec hspec
      rw [hfind spec hspec, hback spec hspec, Option.map_none]
    have hmax : maxOpenPrefixSuffixLen specs (front ++ back) =
        maxOpenPrefixSuffixLen specs back := by
      unfold maxOpenPrefixSuffixLen
      rw [List.map_congr_left hoverlap]
    have hle := maxOpen_le_length specs back
    have hsum : (front ++ back).length - maxOpenPrefixSuffixLen specs (front ++ back) =
        back.length - maxOpenPrefixSuffixLen specs back + front.length := by
      rw [hmax, List.length_append]
      omega
    rw [run_idle hwhole, run_idle hback, hsum, take_add_append, drop_add_append, visible_append]

/-! ### Text that arrives in pieces -/

/-- **No opening delimiter lies inside another one**, other than at its end. -/
def NoOpenInside (specs : List (InlineTagSpec T)) : Prop :=
  ∀ inner ∈ specs, ∀ outer ∈ specs, ∀ before after,
    outer.openDelim = before ++ inner.openDelim ++ after → after = []

/-- What is found stays the next opening delimiter. -/
theorem findNextOpen_append (h : NoOpenInside specs) {candidate : Nat × InlineTagSpec T × Nat}
    (hfind : findNextOpen specs pending = some candidate) (newer : Text) :
    findNextOpen specs (pending ++ newer) = some candidate := by
  obtain ⟨k, spec, idx⟩ := candidate
  obtain ⟨hmem, hleast⟩ := findNextOpen_eq_some_iff.mp hfind
  obtain ⟨hspec, hk⟩ := mem_openCandidates.mp hmem
  refine findNextOpen_eq_some_iff.mpr ⟨mem_openCandidates.mpr ⟨hspec, ?_⟩, ?_⟩
  · exact findSub_append_of_some hk newer
  · rintro ⟨pos, other, idx'⟩ hother
    obtain ⟨hspec', hpos⟩ := mem_openCandidates.mp hother
    cases hbefore : findSub other.openDelim pending with
    | some pos' =>
      rw [findSub_append_of_some hbefore] at hpos
      obtain rfl := Option.some.inj hpos
      exact hleast _ (mem_openCandidates.mpr ⟨hspec', hbefore⟩)
    | none =>
      -- a new candidate ends after the text so far, so it begins after what was found
      refine openKey_le_iff.mpr (.inl ?_)
      show k < pos
      by_contra hle
      obtain ⟨-, houter, -⟩ := findSub_eq_some_iff.mp hpos
      obtain ⟨-, hinner, -⟩ := findSub_eq_some_iff.mp (findSub_append_of_some hk newer)
      have hends := add_length_le_of_findSub hk
      have hbeyond : pending.length < pos + other.openDelim.length := by
        by_contra hin
        exact (findSub_eq_none_iff other.open_ne).mp hbefore pos
          (prefix_drop_of_le houter (by omega))
      obtain ⟨before, after, hsplit, hafter⟩ :=
        exists_part_of_occurrences houter hinner (by omega) (by omega)
      exact hafter (h spec (List.mem_of_getElem? hspec) other (List.mem_of_getElem? hspec') before
        after hsplit)

/-- **Text may arrive in pieces**: the parser that has read the first piece goes on as if it had
    got both at once. -/
theorem run_append (h : NoOpenInside specs) (active : Option (ActiveTag T))
    (pending newer : Text) :
    run specs active (pending ++ newer) =
      (((run specs active pending).1.pushStr specs newer).1,
        (run specs active pending).2 ++ ((run specs active pending).1.pushStr specs newer).2) := by
  induction hn : pending.length using Nat.strong_induction_on generalizing pending active with
  | _ n ih =>
  subst hn
  cases active with
  | some active =>
    cases hfind : findSub active.closeDelim pending with
    | some k =>
      have hend := add_length_le_of_findSub hfind
      have hrest := ih _ (length_drop_delim active.close_ne hfind) none _ rfl
      rw [run_close (findSub_append_of_some hfind newer), run_close hfind,
        List.take_append_of_le_length (by omega), List.drop_append_of_le_length hend, hrest,
        StreamTextChunk.append_assoc]
    | none =>
      rw [run_hold hfind]
      have hle := overlapLen_le_length pending active.closeDelim
      obtain ⟨front, back, hsplit, hfront, hback⟩ : ∃ front back, pending = front ++ back ∧
          pending.take (pending.length - overlapLen pending active.closeDelim) = front ∧
          pending.drop (pending.length - overlapLen pending active.closeDelim) = back :=
        ⟨_, _, (List.take_append_drop ..).symm, rfl, rfl⟩
      have hlength := congrArg List.length hback
      rw [List.length_drop] at hlength
      rw [hfront, hback]
      rw [hsplit] at hfind hlength
      have hoverlap : overlapLen (front ++ back) active.closeDelim ≤ back.length := by
        rw [← hsplit] at hlength ⊢
        omega
      rw [hsplit, List.append_assoc, run_some_append
        (findSub_append_of_none active.close_ne hfind hoverlap newer)
        (overlapLen_append hoverlap newer)]
      rfl
  | none =>
    cases hfind : findNextOpen specs pending with
    | some candidate =>
      obtain ⟨k, spec, idx⟩ := candidate
      have hfound := findSub_of_findNextOpen hfind
      have hend := add_length_le_of_findSub hfound
      have hrest := ih _ (length_drop_delim spec.open_ne hfound) (some spec.activate) _ rfl
      rw [run_open (findNextOpen_append h hfind newer), run_open hfind,
        List.take_append_of_le_length (by omega), List.drop_append_of_le_length hend, hrest,
        StreamTextChunk.append_assoc]
    | none =>
      rw [run_idle hfind]
      have hnone := findNextOpen_eq_none_iff.mp hfind
      have hle := maxOpen_le_length specs pending
      have hmax : ∀ spec ∈ specs, overlapLen pending spec.openDelim ≤
          maxOpenPrefixSuffixLen specs pending :=
        fun spec hspec => overlapLen_le_maxOpen hspec pending
      obtain ⟨front, back, hsplit, hfront, hback⟩ : ∃ front back, pending = front ++ back ∧
          pending.take (pending.length - maxOpenPrefixSuffixLen specs pending) = front ∧
          pending.drop (pending.length - maxOpenPrefixSuffixLen specs pending) = back :=
        ⟨_, _, (List.take_append_drop ..).symm, rfl, rfl⟩
      have hlength := congrArg List.length hback
      rw [List.length_drop] at hlength
      rw [hfront, hback]
      have hoverlap : ∀ spec ∈ specs,
          overlapLen (front ++ back) spec.openDelim ≤ back.length := by
        intro spec hspec
        have hspecle := hmax spec hspec
        rw [← hsplit]
        omega
      rw [hsplit] at hnone
      rw [hsplit, List.append_assoc, run_none_append
        (fun spec hspec => findSub_append_of_none spec.open_ne (hnone spec hspec)
          (hoverlap spec hspec) newer)
        (fun spec hspec => overlapLen_append (hoverlap spec hspec) newer)]
      rfl

end CodexMonitor.StreamParser
