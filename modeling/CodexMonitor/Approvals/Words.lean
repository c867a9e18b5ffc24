import CodexMonitor.Approvals.Rules
import CodexMonitor.Lib.ShellWords

namespace CodexMonitor.Approvals

open Text

/-!
# Approvals — what normalisation and the splitter do to the words of a command

* `wordsStand` — the lists of words of which normalisation keeps an initial segment.
* `departs` — the characters at which the splitter leaves the POSIX reading of a line.
* `Follows` — the splitter and the POSIX reader, side by side along a line.
* `normalize_splitCommandLine` — without a departure the two find the same words.
-/

/-! ### Normalised words -/

/-- A word that normalisation leaves alone. -/
def isPlainWord (word : Text) : Bool := jsTrim word == word && !word.isEmpty

/-- A word that normalisation removes. -/
def isBlankWord (word : Text) : Bool := (jsTrim word).isEmpty

theorem normalizeCommandTokens_append (ts us : List Text) :
    normalizeCommandTokens (ts ++ us) = normalizeCommandTokens ts ++ normalizeCommandTokens us := by
  rw [normalizeCommandTokens, List.map_append, List.filter_append]
  rfl

theorem normalizeCommandTokens_cons (t : Text) (ts : List Text) :
    normalizeCommandTokens (t :: ts) =
      (if isBlankWord t then [] else [jsTrim t]) ++ normalizeCommandTokens ts := by
  rw [normalizeCommandTokens, List.map_cons, List.filter_cons, isBlankWord]
  cases (jsTrim t).isEmpty <;> rfl

theorem isPlainWord_jsTrim {t : Text} (h : isBlankWord t = false) : isPlainWord (jsTrim t) := by
  rw [isBlankWord] at h
  simp [isPlainWord, jsTrim, trimBy_trimBy] at h ⊢
  exact h

theorem isBlankWord_of_isPlainWord {t : Text} (h : isPlainWord t) : isBlankWord t = false := by
  simp only [isPlainWord, Bool.and_eq_true, beq_iff_eq] at h
  rw [isBlankWord, h.1]
  simpa using h.2

/-- The normalised words are plain. -/
theorem isPlainWord_of_mem {ts : List Text} {t : Text} (h : t ∈ normalizeCommandTokens ts) :
    isPlainWord t := by
  rw [normalizeCommandTokens, List.mem_filter, List.mem_map] at h
  obtain ⟨⟨word, _, rfl⟩, hNonempty⟩ := h
  exact isPlainWord_jsTrim (by simpa [isBlankWord] using hNonempty)

theorem normalizeCommandTokens_of_plain {ts : List Text} (h : ts.all isPlainWord) :
    normalizeCommandTokens ts = ts := by
  induction ts with
  | nil => rfl
  | cons t ts ih =>
      rw [List.all_cons, Bool.and_eq_true] at h
      have hTrim : jsTrim t = t := by
        have hPlain := h.1
        simp only [isPlainWord, Bool.and_eq_true, beq_iff_eq] at hPlain
        exact hPlain.1
      rw [normalizeCommandTokens_cons, isBlankWord_of_isPlainWord h.1, ih h.2, hTrim]
      rfl

theorem normalizeCommandTokens_eq_nil_iff {ts : List Text} :
    normalizeCommandTokens ts = [] ↔ ts.all isBlankWord := by
  rw [normalizeCommandTokens, List.filter_eq_nil_iff, List.all_eq_true]
  simp [isBlankWord]

theorem normalizeCommandTokens_idem (ts : List Text) :
    normalizeCommandTokens (normalizeCommandTokens ts) = normalizeCommandTokens ts :=
  normalizeCommandTokens_of_plain (List.all_eq_true.mpr fun _ h => isPlainWord_of_mem h)

/-- Normalisation changes nothing before the last word that it keeps: plain words, and after
    them only blank ones. -/
def wordsStand (words : List Text) : Bool := (words.dropWhile isPlainWord).all isBlankWord

/-- **The words that stand**, exactly: normalised, they are how the words begin. -/
theorem wordsStand_iff (words : List Text) :
    wordsStand words ↔ normalizeCommandTokens words <+: words := by
  induction words with
  | nil => exact ⟨fun _ => List.prefix_refl _, fun _ => rfl⟩
  | cons word words ih =>
      rw [normalizeCommandTokens_cons]
      by_cases hPlain : isPlainWord word
      · have hTrim : jsTrim word = word := by
          simp only [isPlainWord, Bool.and_eq_true, beq_iff_eq] at hPlain
          exact hPlain.1
        rw [isBlankWord_of_isPlainWord hPlain, hTrim, wordsStand,
          List.dropWhile_cons_of_pos hPlain]
        simpa [wordsStand, List.cons_prefix_cons] using ih
      · rw [wordsStand, List.dropWhile_cons_of_neg hPlain, List.all_cons]
        cases hBlank : isBlankWord word with
        | true =>
            -- a kept word could only match the blank word in front
            rw [Bool.true_and, ← normalizeCommandTokens_eq_nil_iff]
            refine ⟨fun hNil => by simp [hNil], fun hPrefix => ?_⟩
            cases hNorm : normalizeCommandTokens words with
            | nil => rfl
            | cons t ts =>
                have hMem : isPlainWord t := isPlainWord_of_mem (hNorm ▸ List.mem_cons_self)
                simp only [if_true, List.nil_append, hNorm, List.cons_prefix_cons] at hPrefix
                exact absurd (hPrefix.1 ▸ hMem) hPlain
        | false =>
            -- trimming changed the word, so it cannot be how the words begin
            refine ⟨fun h => by simp at h, fun hPrefix => ?_⟩
            simp only [Bool.false_eq_true, if_false, List.singleton_append,
              List.cons_prefix_cons] at hPrefix
            exact absurd (hPrefix.1 ▸ isPlainWord_jsTrim hBlank) hPlain

/-! ### The splitter and the POSIX reader -/

/-- **Where the splitter departs from the shell**: whitespace that does not separate words, a
    comment, a continuation inside a word, a backslash that single quotes keep, and one that
    double quotes keep. -/
def departs (r : ShellReader) (c : Char) : Bool :=
  match r.quoting with
  | .bare => (isJsWhitespace c && !ShellReader.isSeparator c) || (c == '#' && r.word.isNone)
  | .bareEscape => c == '\n' && r.word.isSome
  | .single => c == '\\'
  | .double => false
  | .doubleEscape => !ShellReader.isDoubleEscapable c
  | .comment => true

/-- No character of the rest of the line is a departure. -/
def readsAlike : ShellReader → Text → Bool
  | _, [] => true
  | r, c :: cs => !departs r c && readsAlike (r.step c) cs

/-- The loop variables of the splitter under each quoting. -/
def splitterQuote : Quoting → Option Char × Bool
  | .bare | .comment => (none, false)
  | .bareEscape => (none, true)
  | .single => (some '\'', false)
  | .double => (some '"', false)
  | .doubleEscape => (some '"', true)

/-- **The splitter beside the POSIX reader.**  The finished tokens agree once normalised; the
    current token is the current word after the newlines of earlier continuations, which the
    splitter keeps. -/
structure Follows (s : Splitter) (r : ShellReader) : Prop where
  tokens : normalizeCommandTokens s.tokens = normalizeCommandTokens r.words
  current : ∃ n, s.current = List.replicate n '\n' ++ r.word.getD []
  quote : (s.quote, s.escaped) = splitterQuote r.quoting

theorem Follows.init : Follows {} {} := ⟨rfl, ⟨0, rfl⟩, rfl⟩

/-- Newlines in front of a word are gone after normalisation. -/
theorem normalize_current {current : Text} {n : Nat} {word : Option Text}
    (h : current = List.replicate n '\n' ++ word.getD []) :
    normalizeCommandTokens [current] = normalizeCommandTokens word.toList := by
  have hTrim : jsTrim current = jsTrim (word.getD []) := by
    rw [h]
    refine trimBy_append (fun c hc => ?_) _
    rw [List.eq_of_mem_replicate hc]
    decide
  cases word with
  | none => simp [normalizeCommandTokens_cons, isBlankWord, hTrim]; rfl
  | some word => simp [normalizeCommandTokens_cons, isBlankWord, hTrim]

theorem normalize_push (s : Splitter) :
    normalizeCommandTokens s.push.tokens =
      normalizeCommandTokens s.tokens ++ normalizeCommandTokens [s.current] := by
  unfold Splitter.push
  cases h : s.current with
  | nil => exact (List.append_nil _).symm
  | cons c cs => exact normalizeCommandTokens_append _ _

/-- At the end of a word both sides finish it. -/
theorem Follows.push {s : Splitter} {r : ShellReader} (h : Follows s r) :
    Follows s.push r.endWord := by
  obtain ⟨n, hCurrent⟩ := h.current
  refine ⟨?_, ⟨0, ?_⟩, ?_⟩
  · rw [normalize_push, h.tokens, normalize_current hCurrent]
    exact (normalizeCommandTokens_append _ _).symm
  · unfold Splitter.push
    split
    · next hEmpty => exact List.isEmpty_iff.mp hEmpty
    · rfl
  · rw [← show (s.quote, s.escaped) = splitterQuote r.endWord.quoting from h.quote]
    unfold Splitter.push
    split <;> rfl

/-- Characters added to both sides. -/
theorem Follows.extend {s s' : Splitter} {r r' : ShellReader} (h : Follows s r) (t : Text)
    (hTokens : s'.tokens = s.tokens) (hCurrent : s'.current = s.current ++ t)
    (hWords : r'.words = r.words) (hWord : r'.word.getD [] = r.word.getD [] ++ t)
    (hQuote : (s'.quote, s'.escaped) = splitterQuote r'.quoting) : Follows s' r' := by
  obtain ⟨n, hOld⟩ := h.current
  refine ⟨?_, ⟨n, ?_⟩, hQuote⟩
  · rw [hTokens, hWords, h.tokens]
  · rw [hCurrent, hWord, hOld, List.append_assoc]

/-- A change of the quoting only; an opening quote may begin an empty word. -/
theorem Follows.requote {s s' : Splitter} {r r' : ShellReader} (h : Follows s r)
    (hTokens : s'.tokens = s.tokens) (hCurrent : s'.current = s.current)
    (hWords : r'.words = r.words) (hWord : r'.word.getD [] = r.word.getD [])
    (hQuote : (s'.quote, s'.escaped) = splitterQuote r'.quoting) : Follows s' r' :=
  h.extend [] hTokens (by rw [hCurrent, List.append_nil]) hWords (by rw [hWord, List.append_nil])
    hQuote

theorem isJsWhitespace_of_isSeparator {c : Char} (h : ShellReader.isSeparator c) :
    isJsWhitespace c := by
  simp only [ShellReader.isSeparator, Bool.or_eq_true, decide_eq_true_eq] at h
  rcases h with (rfl | rfl) | rfl <;> decide

/-- Outside quotes. -/
theorem Follows.step_bare {s : Splitter} {r : ShellReader} (h : Follows s r) {c : Char}
    (hq : r.quoting = .bare) (hc : departs r c = false) : Follows (s.step c) (r.step c) := by
  have hQuote := h.quote
  rw [hq] at hQuote
  obtain ⟨hNone, hEscaped⟩ := Prod.mk.inj hQuote
  simp only [departs, hq, Bool.or_eq_false_iff, Bool.and_eq_false_iff] at hc
  unfold Splitter.step ShellReader.step
  simp only [hEscaped, hNone, hq, Bool.false_eq_true, if_false]
  by_cases hBackslash : c = '\\'
  · subst hBackslash
    exact h.requote rfl rfl rfl rfl rfl
  rw [if_neg hBackslash, if_neg hBackslash]
  by_cases hSingle : c = '\''
  · subst hSingle
    exact h.requote rfl rfl rfl (List.append_nil _) rfl
  by_cases hDouble : c = '"'
  · subst hDouble
    exact h.requote rfl rfl rfl (List.append_nil _) rfl
  rw [if_neg (by simp [hSingle, hDouble]), if_neg hSingle, if_neg hDouble]
  by_cases hSep : ShellReader.isSeparator c
  · rw [if_pos (isJsWhitespace_of_isSeparator hSep), if_pos hSep]
    exact h.push
  · -- neither a separator nor other whitespace, and no comment starts here
    have hSpace : isJsWhitespace c = false := by simpa [hSep] using hc.1
    have hHash : ¬(c = '#' ∧ r.word = none) := by
      rintro ⟨rfl, hWord⟩
      simp [hWord] at hc
    rw [if_neg (by simp [hSpace]), if_neg hSep, if_neg hHash]
    exact h.extend [c] rfl rfl rfl rfl (by simp [hq, splitterQuote, ShellReader.extend])

/-- After a backslash: a continuation leaves its newline in front of the word to come. -/
theorem Follows.step_bareEscape {s : Splitter} {r : ShellReader} (h : Follows s r) {c : Char}
    (hq : r.quoting = .bareEscape) (hc : departs r c = false) :
    Follows (s.step c) (r.step c) := by
  have hQuote := h.quote
  rw [hq] at hQuote
  obtain ⟨hNone, hEscaped⟩ := Prod.mk.inj hQuote
  simp only [departs, hq, Bool.and_eq_false_iff] at hc
  unfold Splitter.step ShellReader.step
  simp only [hEscaped, hq, if_true]
  by_cases hNewline : c = '\n'
  · subst hNewline
    -- the reader drops the newline; the splitter keeps it as the start of a token
    have hWord : r.word = none := by simpa using hc
    obtain ⟨n, hCurrent⟩ := h.current
    refine ⟨h.tokens, ⟨n + 1, ?_⟩, by simp [hNone, splitterQuote]⟩
    simp only [if_true, hCurrent, hWord, Option.getD_none, List.append_nil]
    exact List.replicate_succ'.symm
  · rw [if_neg hNewline]
    exact h.extend [c] rfl rfl rfl rfl (by simp [hNone, splitterQuote])

/-- Inside quotes, and after a backslash in double quotes. -/
theorem Follows.step_quoted {s : Splitter} {r : ShellReader} (h : Follows s r) {c : Char}
    (hq : r.quoting = .single ∨ r.quoting = .double ∨ r.quoting = .doubleEscape)
    (hc : departs r c = false) : Follows (s.step c) (r.step c) := by
  have hQuote := h.quote
  rcases hq with hq | hq | hq
  all_goals
    rw [hq] at hQuote
    obtain ⟨hSome, hEscaped⟩ := Prod.mk.inj hQuote
    simp only [departs, hq] at hc
    unfold Splitter.step ShellReader.step
    simp only [hEscaped, hSome, hq, Bool.false_eq_true, if_false, if_true]
  · -- single quotes: up to the closing one every character counts
    rw [if_neg (by simpa using hc)]
    by_cases hClose : c = '\''
    · rw [if_pos hClose, if_pos hClose]
      exact h.requote rfl rfl rfl rfl rfl
    · rw [if_neg hClose, if_neg hClose]
      exact h.extend [c] rfl rfl rfl rfl (by simp [hq, splitterQuote, ShellReader.extend])
  · -- double quotes: both sides see the backslash and the closing quote
    by_cases hBackslash : c = '\\'
    · rw [if_pos hBackslash, if_pos hBackslash]
      exact h.requote rfl rfl rfl rfl rfl
    rw [if_neg hBackslash, if_neg hBackslash]
    by_cases hClose : c = '"'
    · rw [if_pos hClose, if_pos hClose]
      exact h.requote rfl rfl rfl rfl rfl
    · rw [if_neg hClose, if_neg hClose]
      exact h.extend [c] rfl rfl rfl rfl (by simp [hq, splitterQuote, ShellReader.extend])
  · -- an escape that double quotes honour
    have hEsc : ShellReader.isDoubleEscapable c := by simpa using hc
    have hNewline : c ≠ '\n' := by rintro rfl; revert hEsc; decide
    rw [if_neg hNewline, if_pos hEsc]
    exact h.extend [c] rfl rfl rfl rfl rfl

theorem Follows.step {s : Splitter} {r : ShellReader} (h : Follows s r) {c : Char}
    (hc : departs r c = false) : Follows (s.step c) (r.step c) := by
  cases hq : r.quoting with
  | bare => exact h.step_bare hq hc
  | bareEscape => exact h.step_bareEscape hq hc
  | single => exact h.step_quoted (Or.inl hq) hc
  | double => exact h.step_quoted (Or.inr (Or.inl hq)) hc
  | doubleEscape => exact h.step_quoted (Or.inr (Or.inr hq)) hc
  | comment => simp [departs, hq] at hc

/-- Along a line without departures the two stay side by side. -/
theorem Follows.foldl {s : Splitter} {r : ShellReader} (h : Follows s r) {line : Text}
    (hLine : readsAlike r line) :
    Follows (line.foldl Splitter.step s) (line.foldl ShellReader.step r) := by
  induction line generalizing s r with
  | nil => exact h
  | cons c cs ih =>
      simp only [readsAlike, Bool.and_eq_true, Bool.not_eq_true'] at hLine
      exact ih (h.step hLine.1) hLine.2

/-- **Without a departure the splitter finds the POSIX words**, up to normalisation. -/
theorem normalize_splitCommandLine {line : Text} {words : List Text}
    (hLine : readsAlike {} line) (hWords : shellWords line = some words) :
    normalizeCommandTokens (splitCommandLine line) = normalizeCommandTokens words := by
  have hEnd := (Follows.init.foldl hLine).push
  rw [shellWords, ShellReader.finish] at hWords
  -- the reader ends a line outside quotes or in a comment, else it has no words
  split at hWords
  · cases hWords
    exact hEnd.tokens
  · cases hWords
    exact hEnd.tokens
  · cases hWords

end CodexMonitor.Approvals
