import CodexMonitor.Lib.Utf8
import CodexMonitor.StreamParser.AssistantText

namespace CodexMonitor.StreamParser

/-!
# Stream parsers — bytes instead of text

`utils/stream-parser/src/utf8_stream.rs`: a wrapper that takes bytes, gives their characters to a
text parser and keeps back the bytes of a character whose end has not come yet.

* `Utf8StreamParser` — the wrapper; `pushBytes`, `finish`.
* `pushAll_bytes` — the bytes of a text in any chunks reach the inner parser as pieces of the text.
* `utf8Stream_correct` — a text in any chunks of bytes, and a chunk that is refused.
-/

/-- `CitationStreamParser`; the end of the text leaves the parser as it was created. -/
def citationStreamParser : StreamTextParser (InlineHiddenTagParser CitationTag) Text where
  pushStr parser chunk :=
    ((parser.pushStr citationSpecs chunk).1, citationChunk (parser.pushStr citationSpecs chunk).2)
  finish parser := (.new, citationChunk parser.finish)

/-! ### Bytes -/

inductive Utf8StreamParserError where
  | invalidUtf8 (validUpTo errorLen : Nat)
  | incompleteUtf8AtEof
  deriving DecidableEq, Repr

/-- The parser and the bytes of a character whose end has not come yet. -/
structure Utf8StreamParser (P : Type) where
  inner : P
  pendingUtf8 : List UInt8
  deriving DecidableEq, Repr

namespace Utf8StreamParser

variable {P E : Type} (text : StreamTextParser P E) (parser : Utf8StreamParser P)

def new (inner : P) : Utf8StreamParser P := { inner := inner, pendingUtf8 := [] }

/-- The inner parser gets the decoded text, and `pending` stays. -/
def pushDecoded (pending : List UInt8) (decoded : Text) :
    Utf8StreamParser P × Except Utf8StreamParserError (StreamTextChunk E) :=
  let out := text.pushStr parser.inner decoded
  ({ inner := out.1, pendingUtf8 := pending }, .ok out.2)

/-- `push_bytes`: a chunk with an invalid sequence is taken back as a whole. -/
def pushBytes (chunk : List UInt8) :
    Utf8StreamParser P × Except Utf8StreamParserError (StreamTextChunk E) :=
  let oldLen := parser.pendingUtf8.length
  let pendingUtf8 := parser.pendingUtf8 ++ chunk
  match Utf8.fromUtf8 pendingUtf8 with
  | .ok decoded => parser.pushDecoded text [] decoded
  | .error err =>
      match err.errorLen with
      | some errorLen =>
          ({ parser with pendingUtf8 := pendingUtf8.take oldLen },
            .error (.invalidUtf8 err.validUpTo errorLen))
      | none =>
          if err.validUpTo = 0 then ({ parser with pendingUtf8 := pendingUtf8 }, .ok .empty)
          else
            match Utf8.fromUtf8 (pendingUtf8.take err.validUpTo) with
            | .ok decoded => parser.pushDecoded text (pendingUtf8.drop err.validUpTo) decoded
            | .error prefixErr =>
                ({ parser with pendingUtf8 := pendingUtf8.take oldLen },
                  .error (.invalidUtf8 prefixErr.validUpTo (prefixErr.errorLen.getD 0)))

/-- The error for bytes that are left at the end. -/
def pendingError (err : Utf8.Utf8Error) : Utf8StreamParserError :=
  match err.errorLen with
  | some errorLen => .invalidUtf8 err.validUpTo errorLen
  | none => .incompleteUtf8AtEof

/-- `finish`: bytes that are left go to the inner parser first, if they are characters. -/
def finish : Utf8StreamParser P × Except Utf8StreamParserError (StreamTextChunk E) :=
  if parser.pendingUtf8.isEmpty then
    let tail := text.finish parser.inner
    ({ parser with inner := tail.1 }, .ok (.empty ++ tail.2))
  else
    match Utf8.fromUtf8 parser.pendingUtf8 with
    | .error err => (parser, .error (pendingError err))
    | .ok decoded =>
        let out := text.pushStr parser.inner decoded
        let tail := text.finish out.1
        ({ inner := tail.1, pendingUtf8 := [] }, .ok (out.2 ++ tail.2))

/-- `into_inner`. -/
def intoInner : Except Utf8StreamParserError P :=
  if parser.pendingUtf8.isEmpty then .ok parser.inner
  else
    match Utf8.fromUtf8 parser.pendingUtf8 with
    | .ok _ => .ok parser.inner
    | .error err => .error (pendingError err)

/-- The calls of `push_bytes` up to the first that fails. -/
def pushAll (parser : Utf8StreamParser P) :
    List (List UInt8) → Except Utf8StreamParserError (Utf8StreamParser P × StreamTextChunk E)
  | [] => .ok (parser, .empty)
  | chunk :: chunks =>
      match parser.pushBytes text chunk with
      | (_, .error err) => .error err
      | (next, .ok out) =>
          match pushAll next chunks with
          | .error err => .error err
          | .ok rest => .ok (rest.1, out ++ rest.2)

/-- What the parser returns for the chunks and the end of the bytes. -/
def collectBytes (chunks : List (List UInt8)) :
    Except Utf8StreamParserError (StreamTextChunk E) :=
  match parser.pushAll text chunks with
  | .error err => .error err
  | .ok pushed =>
      match (pushed.1.finish text).2 with
      | .error err => .error err
      | .ok tail => .ok (pushed.2 ++ tail)

end Utf8StreamParser

/-! ### Bytes of a text -/

section Texts

variable {P E : Type} {text : StreamTextParser P E} {parser : Utf8StreamParser P}
  {chunk : List UInt8} {t whole left : Text} {cut : List UInt8}

/-- The bytes are a part of the first character of the text, or none. -/
def WithinFirst (cut : List UInt8) (t : Text) : Prop :=
  cut = [] ∨ ∃ c rest, t = c :: rest ∧ cut <+: Utf8.encodeChar c ∧ cut ≠ Utf8.encodeChar c

/-- Bytes that end with a character. -/
theorem pushBytes_whole (hbytes : parser.pendingUtf8 ++ chunk = Utf8.encode whole) :
    parser.pushBytes text chunk = parser.pushDecoded text [] whole := by
  unfold Utf8StreamParser.pushBytes
  simp only [hbytes, Utf8.fromUtf8_encode]

/-- Bytes that end within a character: what is before it goes to the inner parser, if there is
    anything. -/
theorem pushBytes_cut (hbytes : parser.pendingUtf8 ++ chunk = Utf8.encode whole ++ cut)
    (hcut : WithinFirst cut left) (hsome : cut ≠ []) :
    parser.pushBytes text chunk =
      if whole = [] then ({ parser with pendingUtf8 := cut }, .ok .empty)
      else parser.pushDecoded text cut whole := by
  obtain hnone | ⟨c, rest, -, hprefix, hne⟩ := hcut
  · exact absurd hnone hsome
  have hdecode := Utf8.fromUtf8_cut whole hprefix hne hsome
  unfold Utf8StreamParser.pushBytes
  simp only [hbytes, hdecode]
  by_cases hwhole : whole = []
  · subst hwhole
    simp
  · have hlength := Utf8.length_le_encode whole
    have hpos := List.length_pos_iff.mpr hwhole
    rw [if_neg (by omega), if_neg hwhole, List.take_left, List.drop_left, Utf8.fromUtf8_encode]

/-- **The bytes of a text in any chunks** reach the inner parser as pieces of the text, and no
    byte is left at the end. -/
theorem pushAll_bytes (text : StreamTextParser P E) (chunks : List (List UInt8))
    (parser : Utf8StreamParser P) (t : Text)
    (hbytes : parser.pendingUtf8 ++ chunks.flatten = Utf8.encode t)
    (hpending : WithinFirst parser.pendingUtf8 t) :
    ∃ pieces : List Text, pieces.flatten = t ∧
      parser.pushAll text chunks = .ok
        ({ inner := (text.pushAll parser.inner pieces).1, pendingUtf8 := [] },
          (text.pushAll parser.inner pieces).2) := by
  induction chunks generalizing parser t with
  | nil =>
    rw [List.flatten_nil, List.append_nil] at hbytes
    have hnone : parser.pendingUtf8 = [] := by
      obtain hnone | ⟨c, rest, rfl, hprefix, hne⟩ := hpending
      · exact hnone
      · -- all bytes of the text are there, so the first character is not cut off
        rw [hbytes, Utf8.encode_cons] at hprefix hne
        have hlength := hprefix.length_le
        have hrest : Utf8.encode rest = [] := by
          rw [List.length_append] at hlength
          exact List.length_eq_zero_iff.mp (by omega)
        rw [hrest, List.append_nil] at hne
        exact absurd rfl hne
    have ht : t = [] := by
      have hlength := Utf8.length_le_encode t
      rw [← hbytes, hnone] at hlength
      exact List.length_eq_zero_iff.mp (Nat.le_zero.mp hlength)
    refine ⟨[], ht.symm, ?_⟩
    show Except.ok (parser, _) = _
    rw [← hnone]
    rfl
  | cons chunk chunks ih =>
    rw [List.flatten_cons, ← List.append_assoc] at hbytes
    obtain ⟨whole, left, cut, rfl, hfront, hcut⟩ :=
      Utf8.prefix_encode ⟨chunks.flatten, hbytes⟩
    have hleft : cut ++ chunks.flatten = Utf8.encode left := by
      rw [hfront, Utf8.encode_append, List.append_assoc] at hbytes
      exact List.append_cancel_left hbytes
    unfold Utf8StreamParser.pushAll
    by_cases hquiet : whole = [] ∧ cut ≠ []
    · obtain ⟨rfl, hsome⟩ := hquiet
      rw [pushBytes_cut hfront hcut hsome, if_pos rfl]
      obtain ⟨pieces, hpieces, hpushed⟩ :=
        ih { parser with pendingUtf8 := cut } left hleft hcut
      refine ⟨pieces, hpieces, ?_⟩
      simp only [hpushed, StreamTextChunk.empty_append]
    · have hpush : parser.pushBytes text chunk = parser.pushDecoded text cut whole := by
        by_cases hsome : cut = []
        · subst hsome
          exact pushBytes_whole (hfront.trans (List.append_nil _))
        · rw [pushBytes_cut hfront hcut hsome, if_neg]
          exact fun hwhole => hquiet ⟨hwhole, hsome⟩
      obtain ⟨pieces, hpieces, hpushed⟩ :=
        ih { inner := (text.pushStr parser.inner whole).1, pendingUtf8 := cut } left hleft hcut
      refine ⟨whole :: pieces, by rw [List.flatten_cons, hpieces], ?_⟩
      rw [hpush]
      unfold Utf8StreamParser.pushDecoded
      simp only [hpushed]
      rfl

/-- A whole text, read as bytes in any chunks. -/
theorem collectBytes_encode {inner : P} (hinvariant : text.ChunkInvariant inner)
    {chunks : List (List UInt8)} (hchunks : chunks.flatten = Utf8.encode t) :
    Utf8StreamParser.collectBytes text (.new inner) chunks = .ok (text.collect inner [t]) := by
  obtain ⟨pieces, rfl, hpushed⟩ := pushAll_bytes text chunks (.new inner) t
    (by rw [← hchunks]; rfl) (.inl rfl)
  unfold Utf8StreamParser.collectBytes
  rw [hpushed]
  simp only [Utf8StreamParser.finish, List.isEmpty_nil, if_true, StreamTextChunk.empty_append]
  rw [← hinvariant pieces]
  rfl

/-- A chunk that is refused leaves the parser as it was. -/
theorem pushBytes_refused {error : Utf8StreamParserError}
    (h : (parser.pushBytes text chunk).2 = .error error) :
    (parser.pushBytes text chunk).1 = parser := by
  have htruncate : (parser.pendingUtf8 ++ chunk).take parser.pendingUtf8.length =
      parser.pendingUtf8 := List.take_left
  unfold Utf8StreamParser.pushBytes at h ⊢
  simp only [htruncate] at h ⊢
  cases hdecode : Utf8.fromUtf8 (parser.pendingUtf8 ++ chunk) with
  | ok decoded =>
    rw [hdecode] at h
    cases h
  | error err =>
    rw [hdecode] at h
    simp only at h ⊢
    cases herror : err.errorLen with
    | some errorLen => rfl
    | none =>
      rw [herror] at h
      simp only at h ⊢
      by_cases hstart : err.validUpTo = 0
      · rw [if_pos hstart] at h
        cases h
      · rw [if_neg hstart] at h ⊢
        cases hfront : Utf8.fromUtf8 ((parser.pendingUtf8 ++ chunk).take err.validUpTo) with
        | ok decoded =>
          rw [hfront] at h
          cases h
        | error prefixErr => rfl

end Texts

/-- **Bytes in any chunks.**  From a state of the inner parser for which chunks do not matter, the
    bytes of a text give what the text gives at once, and nothing fails.  A chunk that is refused
    leaves the parser as it was. -/
theorem utf8Stream_correct {P E : Type} (text : StreamTextParser P E) :
    (∀ inner, text.ChunkInvariant inner → ∀ (t : Text) (chunks : List (List UInt8)),
      chunks.flatten = Utf8.encode t →
        Utf8StreamParser.collectBytes text (.new inner) chunks =
          .ok (text.collect inner [t])) ∧
      ∀ (parser : Utf8StreamParser P) (chunk : List UInt8) (validUpTo errorLen : Nat),
        (parser.pushBytes text chunk).2 = .error (.invalidUtf8 validUpTo errorLen) →
          (parser.pushBytes text chunk).1 = parser := by
  refine ⟨?_, ?_⟩
  · intro inner hinvariant t chunks hchunks
    exact collectBytes_encode hinvariant hchunks
  · intro parser chunk validUpTo errorLen hrefused
    exact pushBytes_refused hrefused

/-! ### Citations -/

theorem pushAll_citation (parser : InlineHiddenTagParser CitationTag) (chunks : List Text) :
    citationStreamParser.pushAll parser chunks =
      ((parser.pushAll citationSpecs chunks).1,
        citationChunk (parser.pushAll citationSpecs chunks).2) := by
  induction chunks generalizing parser with
  | nil => rfl
  | cons chunk chunks ih =>
    unfold StreamTextParser.pushAll InlineHiddenTagParser.pushAll
    rw [ih]
    simp only [citationStreamParser, citationChunk]
    refine Prod.ext rfl ?_
    show StreamTextChunk.mk _ (_ ++ _) = StreamTextChunk.mk _ (List.map _ (_ ++ _))
    rw [List.map_append]
    rfl

/-- Chunks do not matter for the parser of citations. -/
theorem chunkInvariant_citation : citationStreamParser.ChunkInvariant .new := by
  intro chunks
  have hcollect : ∀ chunks, citationStreamParser.collect .new chunks =
      citationChunk (parseChunks citationSpecs chunks) := by
    intro chunks
    unfold StreamTextParser.collect
    rw [pushAll_citation]
    show StreamTextChunk.mk _ (_ ++ _) = StreamTextChunk.mk _ (List.map _ (_ ++ _))
    rw [List.map_append]
    rfl
  rw [hcollect, hcollect, chunkInvariant_of_noOpenInside citationSpecs_noOpenInside chunks]

/-- A citation whose bytes are cut within characters, and a chunk that is refused between them. -/
theorem utf8Stream_correct_citation :
    Utf8StreamParser.collectBytes citationStreamParser (.new .new)
        [[0x41, 0xC3], [0xA9, 0xE4, 0xB8], [], [0xAD]] =
          .ok (citationStreamParser.collect .new ["Aé中".toList]) ∧
      (Utf8StreamParser.pushBytes citationStreamParser
        { inner := .new, pendingUtf8 := [0xC3] } [0x28]).1 =
          { inner := .new, pendingUtf8 := [0xC3] } :=
  ⟨(utf8Stream_correct citationStreamParser).1 .new chunkInvariant_citation _ _
      (by decide +kernel),
    (utf8Stream_correct citationStreamParser).2 _ _ 0 1 (by decide +kernel)⟩

end CodexMonitor.StreamParser
