import CodexMonitor.Lib.Text

namespace CodexMonitor

/-!
# CmdWords — the words of a command line under the rules of `cmd.exe`

Every double quote begins or ends a quotation, in which all other characters stand for
themselves.  Outside of quotations a caret takes away the meaning of the next character, blanks
separate words, and other characters run further commands or redirect.  Variables are not
expanded.

* `CmdReader`, `CmdReader.step` — the reader of a line, one character after the other.
* `cmdWords` — the words, if the line is one command.
* `cmdWords_join` — words in quotes, with one blank between any two, are read as they are.
-/

open Text

/-- A reader of command lines.  `word` is the word that has been begun, if there is one. -/
structure CmdReader where
  words : List Text := []
  word : Option Text := none
  quoted : Bool := false
  escaped : Bool := false
  /-- The line has run on into something else than the words of one command. -/
  broken : Bool := false
  deriving DecidableEq, Repr

namespace CmdReader

/-- The characters that end a command, redirect it or group commands. -/
def isMeta (c : Char) : Bool := "&|<>()".toList.contains c

def extend (r : CmdReader) (t : Text) : CmdReader := { r with word := some (r.word.getD [] ++ t) }

def endWord (r : CmdReader) : CmdReader :=
  { r with words := r.words ++ r.word.toList, word := none }

def step (r : CmdReader) (c : Char) : CmdReader :=
  if r.escaped then { r.extend [c] with escaped := false }
  else if c = '"' then { r.extend [] with quoted := !r.quoted }
  else if r.quoted then r.extend [c]
  else if c = '^' then { r with escaped := true }
  else if isMeta c then { r with broken := true }
  else if c = ' ' || c = '\t' then r.endWord
  else r.extend [c]

def finish (r : CmdReader) : Option (List Text) := if r.broken then none else some r.endWord.words

/-- The reader between two words. -/
def between (words : List Text) : CmdReader := { words := words }

/-- The reader in a quotation. -/
def within (words : List Text) (word : Text) : CmdReader :=
  { words := words, word := some word, quoted := true }

/-- The reader behind a quotation. -/
def behind (words : List Text) (word : Text) : CmdReader := { words := words, word := some word }

variable {words : List Text} {word t : Text}

theorem foldl_within (h : '"' ∉ t) :
    t.foldl step (within words word) = within words (word ++ t) := by
  induction t generalizing word with
  | nil => rw [List.foldl_nil, List.append_nil]
  | cons c t ih =>
    obtain ⟨hc, ht⟩ := not_or.mp (List.mem_cons.not.mp h)
    have hstep : step (within words word) c = within words (word ++ [c]) := by
      unfold step within
      rw [if_neg Bool.false_ne_true, if_neg fun heq => hc heq.symm]
      rfl
    rw [List.foldl_cons, hstep, ih ht, List.append_assoc, List.singleton_append]

/-- A word that is quoted as a whole. -/
def quotation (t : Text) : Text := '"' :: t ++ ['"']

theorem foldl_quotation (h : '"' ∉ t) :
    (quotation t).foldl step (between words) = behind words t := by
  unfold quotation
  rw [List.cons_append, List.foldl_cons, List.foldl_append]
  show ['"'].foldl step (t.foldl step (within words [])) = _
  rw [foldl_within h, List.nil_append]
  show { (within words t).extend [] with quoted := false } = behind words t
  simp [extend, within, behind]

/-- Some words that are quoted, each with a blank behind it. -/
theorem foldl_quotations {ts : List Text} (h : ∀ t ∈ ts, '"' ∉ t) :
    (ts.flatMap fun t => quotation t ++ [' ']).foldl step (between words) =
      between (words ++ ts) := by
  induction ts generalizing words with
  | nil => rw [List.append_nil]; rfl
  | cons t ts ih =>
    rw [List.flatMap_cons, List.foldl_append, List.foldl_append,
      foldl_quotation (h t List.mem_cons_self)]
    show (ts.flatMap fun t => quotation t ++ [' ']).foldl step (between (words ++ [t])) = _
    rw [ih fun u hu => h u (List.mem_cons_of_mem _ hu), List.append_assoc, List.singleton_append]

/-- A line of quoted words, split before one of them. -/
theorem join_quotations (front back : List Text) (t : Text) :
    ∃ rest, joinWith " ".toList ((front ++ t :: back).map quotation) =
      (front.flatMap fun t => quotation t ++ [' ']) ++ (quotation t ++ rest) ∧
        (back = [] → rest = []) := by
  induction front with
  | nil =>
    cases back with
    | nil => exact ⟨[], by simp [joinWith], fun _ => rfl⟩
    | cons u back =>
      refine ⟨' ' :: joinWith " ".toList ((u :: back).map quotation), ?_,
        fun h => absurd h (List.cons_ne_nil u back)⟩
      simp [joinWith]
  | cons u front ih =>
    obtain ⟨rest, hrest, hback⟩ := ih
    refine ⟨rest, ?_, hback⟩
    have hsplit : ∃ v vs, (front ++ t :: back).map quotation = v :: vs := by
      cases front with
      | nil => exact ⟨_, _, rfl⟩
      | cons w front => exact ⟨_, _, rfl⟩
    obtain ⟨v, vs, hvs⟩ := hsplit
    rw [List.cons_append, List.map_cons, hvs, joinWith, ← hvs, hrest, List.flatMap_cons]
    · simp only [List.append_assoc]
      rfl
    · exact List.cons_ne_nil _ _

end CmdReader

open CmdReader

/-- **The words of a line**, if it is one command. -/
def cmdWords (line : Text) : Option (List Text) := (line.foldl step {}).finish

/-- **Quoted words are read as they are**, if none has a quote in it. -/
theorem cmdWords_join {ts : List Text} (hne : ts ≠ []) (h : ∀ t ∈ ts, '"' ∉ t) :
    cmdWords (joinWith " ".toList (ts.map quotation)) = some ts := by
  rcases List.eq_nil_or_concat ts with rfl | ⟨front, last, rfl⟩
  · exact absurd rfl hne
  · rw [List.concat_eq_append] at h ⊢
    obtain ⟨rest, hline, hrest⟩ := join_quotations front [] last
    have hfront : ∀ t ∈ front, '"' ∉ t := fun t ht => h t (List.mem_append_left _ ht)
    have hread : joinWith " ".toList ((front ++ [last]).map quotation) =
        (front.flatMap fun t => quotation t ++ [' ']) ++ quotation last := by
      rw [hline, hrest rfl, List.append_nil]
    unfold cmdWords
    rw [hread, List.foldl_append]
    show ((quotation last).foldl step (_ : CmdReader)).finish = _
    have hbefore : (front.flatMap fun t => quotation t ++ [' ']).foldl step {} = between front :=
      foldl_quotations hfront
    rw [hbefore, foldl_quotation (h last (by simp))]
    rfl

end CodexMonitor
