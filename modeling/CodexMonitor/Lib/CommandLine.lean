import CodexMonitor.Lib.Text

namespace CodexMonitor

/-!
# Command lines — options in the words of an argument list

A word that begins with a dash is an option.  Behind one dash stand letters, of which the last may
have its value behind it or in the next word; behind two dashes stands a name, which may be
abbreviated and may have its value behind an equals sign.  A word of two dashes ends the options.

* `OptionSyntax` — the names that are known, and what takes a value.
* `flagsOf`, `takesNext` — what an option word sets, and whether the next word is its value.
* `optionWords` — the words that are read as options, wherever they stand.
* `readLeading` — the options in front of the first word that is none, and the words from there on.
* `readLeading_append_iff` — behind which words a word is the first one that is no option.
-/

namespace CommandLine

open Text

/-- An option, by its letter or by its full name. -/
inductive Flag
  | short (letter : Char)
  | long (name : Text)
  deriving DecidableEq, Repr

/-- What the reading of option words depends on. -/
structure OptionSyntax where
  letterTakesValue : Char → Bool
  names : List Text
  nameTakesValue : Text → Bool
  /-- A name may be cut where it is still the only one that begins so. -/
  abbreviates : Bool

/-- The name that is written in a long option, without dashes and value. -/
def writtenName (body : Text) : Text := body.takeWhile (· ≠ '=')

/-- A word with a dash and something behind it. -/
def isOption : Text → Bool
  | '-' :: _ :: _ => true
  | _ => false

def endOfOptions : Text := "--".toList

namespace OptionSyntax

variable (S : OptionSyntax)

/-- The name that a written name stands for. -/
def resolve (written : Text) : Option Text :=
  if S.names.contains written then some written
  else if S.abbreviates then
    match S.names.filter fun name => written.isPrefixOf name with
    | [name] => some name
    | _ => none
  else none

/-- The letters of a bundle; what is behind one that takes a value is the value. -/
def letters : List Char → List Char
  | [] => []
  | c :: cs => if S.letterTakesValue c then [c] else c :: letters cs

/-- The last letter of a bundle takes a value, and none is behind it. -/
def awaitsValue : List Char → Bool
  | [] => false
  | c :: cs => if S.letterTakesValue c then cs.isEmpty else awaitsValue cs

/-- The options that a word sets. -/
def flagsOf : Text → List Flag
  | '-' :: '-' :: body => ((S.resolve (writtenName body)).map Flag.long).toList
  | '-' :: cs => (S.letters cs).map Flag.short
  | _ => []

/-- The next word is the value of the option. -/
def takesNext : Text → Bool
  | '-' :: '-' :: body => !body.contains '=' && (S.resolve body).any S.nameTakesValue
  | '-' :: cs => S.awaitsValue cs
  | _ => false

/-- The words that are read as options; the flag says that the next word is a value. -/
def optionWords : Bool → List Text → List Text
  | _, [] => []
  | true, _ :: words => optionWords false words
  | false, word :: words =>
      if word = endOfOptions then []
      else if isOption word then word :: optionWords (S.takesNext word) words
      else optionWords false words

/-- **The leading options**, and the words from the first one that is no option. -/
def readLeading : Bool → List Text → List Text × List Text
  | _, [] => ([], [])
  | true, _ :: words => readLeading false words
  | false, word :: words =>
      if word = endOfOptions then ([], words)
      else if isOption word then
        let (options, rest) := readLeading (S.takesNext word) words
        (word :: options, rest)
      else ([], word :: words)

/-- All words are options and their values, and no value is missing. -/
def passes : Bool → List Text → Bool
  | awaiting, [] => !awaiting
  | true, _ :: words => passes false words
  | false, word :: words =>
      -- behind the end of the options every word counts
      if word = endOfOptions then words.isEmpty
      else isOption word && passes (S.takesNext word) words

variable {S} {word : Text} {rest : List Text}

theorem flagsOf_short {first : Char} (h : first ≠ '-') (cs : Text) :
    S.flagsOf ('-' :: first :: cs) = (S.letters (first :: cs)).map Flag.short := by
  unfold flagsOf
  split
  next heq => simp_all
  next cs' _ heq => rw [← List.tail_eq_of_cons_eq heq]
  next hnone => exact absurd rfl (hnone (first :: cs))

theorem readLeading_length_le (words : List Text) (awaiting : Bool) :
    (S.readLeading awaiting words).2.length ≤ words.length := by
  induction words generalizing awaiting with
  | nil => simp [readLeading]
  | cons word words ih =>
    have hrest := ih (S.takesNext word)
    have hvalue := ih false
    cases awaiting with
    | true =>
      show (S.readLeading false words).2.length ≤ words.length + 1
      omega
    | false =>
      unfold readLeading
      split
      · simp
      · split
        · simp only [List.length_cons]
          omega
        · simp

/-- The options that are read in front stand in the list. -/
theorem mem_of_mem_readLeading (words : List Text) (awaiting : Bool)
    (h : word ∈ (S.readLeading awaiting words).1) : word ∈ words ∧ isOption word = true := by
  induction words generalizing awaiting with
  | nil => simp [readLeading] at h
  | cons first words ih =>
    cases awaiting with
    | true =>
      obtain ⟨hmem, hoption⟩ := ih false h
      exact ⟨List.mem_cons_of_mem first hmem, hoption⟩
    | false =>
      unfold readLeading at h
      split at h
      · simp at h
      · split at h
        next hfirst =>
          rcases List.mem_cons.mp h with rfl | h
          · exact ⟨List.mem_cons_self, hfirst⟩
          · obtain ⟨hmem, hoption⟩ := ih _ h
            exact ⟨List.mem_cons_of_mem first hmem, hoption⟩
        next => simp at h

theorem mem_of_mem_optionWords (words : List Text) (awaiting : Bool)
    (h : word ∈ S.optionWords awaiting words) : word ∈ words ∧ isOption word = true := by
  induction words generalizing awaiting with
  | nil => simp [optionWords] at h
  | cons first words ih =>
    have hbehind : ∀ awaiting, word ∈ S.optionWords awaiting words →
        word ∈ first :: words ∧ isOption word = true := by
      intro awaiting hword
      obtain ⟨hmem, hoption⟩ := ih awaiting hword
      exact ⟨List.mem_cons_of_mem first hmem, hoption⟩
    cases awaiting with
    | true => exact hbehind false h
    | false =>
      unfold optionWords at h
      split at h
      · simp at h
      · split at h
        next hfirst =>
          rcases List.mem_cons.mp h with rfl | h
          · exact ⟨List.mem_cons_self, hfirst⟩
          · exact hbehind _ h
        next => exact hbehind false h

/-- **Behind which words a word is the first one that is no option**: behind options with their
    values, the end of the options at most being the last of them. -/
theorem readLeading_append_iff (front : List Text) (awaiting : Bool)
    (hend : word ≠ endOfOptions) (hword : isOption word = false) :
    (S.readLeading awaiting (front ++ word :: rest)).2 = word :: rest ↔
      S.passes awaiting front = true := by
  induction front generalizing awaiting with
  | nil =>
    cases awaiting with
    | true =>
      -- the word is taken for a value, and what is behind it is too short
      have hle : (S.readLeading false rest).2.length ≤ rest.length := readLeading_length_le rest false
      have hne : (S.readLeading true (word :: rest)).2 ≠ word :: rest := by
        intro heq
        have hlength := congrArg List.length heq
        change (S.readLeading false rest).2.length = rest.length + 1 at hlength
        omega
      simp [hne, passes]
    | false => simp [readLeading, passes, hend, hword]
  | cons first front ih =>
    have hlonger : ∀ more : List Text, more ≠ [] → more ++ word :: rest ≠ word :: rest := by
      intro more hmore heq
      have hlength := congrArg List.length heq
      have hpos := List.length_pos_iff.mpr hmore
      rw [List.length_append] at hlength
      omega
    cases awaiting with
    | true => exact ih false
    | false =>
      unfold readLeading passes
      rw [List.cons_append]
      simp only
      split
      · rw [List.isEmpty_iff]
        constructor
        · intro heq
          by_contra hne
          exact hlonger front hne heq
        · rintro rfl
          rfl
      · split
        next hfirst => simp [hfirst, ih]
        next hfirst =>
          have hne := hlonger (first :: front) (List.cons_ne_nil first front)
          simpa [hfirst] using hne

end OptionSyntax

end CommandLine

end CodexMonitor
