import CodexMonitor.Lib.ShellWords
import Mathlib.Data.List.Flatten

namespace CodexMonitor

/-!
# ShellQuoting — the ways of writing a shell word

A word of a command is a run of pieces: text without quotes, in which a backslash quotes the next
character, text in single quotes, and text in double quotes.  The shell passes on what is left
when the quotes and the quoting backslashes are removed.

* `Item`, `Piece`, `ShellWord` — how a word is written; a word is never without a piece.
* `Piece.source`, `Piece.body`, `Piece.value` — the text, the text within the quotes, and what
  quote removal leaves of it.
* `value_eq_body_iff` — where the two agree: where no backslash is removed.
* `shellWords_command` — the value is what the reader of `ShellWords` finds.
-/

namespace ShellQuoting

open ShellReader

/-- A character that stands for itself, or one behind a backslash. -/
inductive Item
  | plain (c : Char)
  | escaped (c : Char)
  deriving DecidableEq, Repr

namespace Item

def source : Item → Text
  | plain c => [c]
  | escaped c => ['\\', c]

/-- Without quotes the backslash goes; with a newline behind it both do. -/
def bareValue : Item → Text
  | plain c => [c]
  | escaped c => if c = '\n' then [] else [c]

/-- In double quotes the backslash goes before a character that it can quote only. -/
def doubleValue : Item → Text
  | plain c => [c]
  | escaped c => if c = '\n' then [] else if isDoubleEscapable c then [c] else ['\\', c]

def isPlain : Item → Bool
  | plain _ => true
  | escaped _ => false

/-- Quote removal in double quotes leaves the item as it is. -/
def keepsInDouble : Item → Bool
  | plain _ => true
  | escaped c => c != '\n' && !isDoubleEscapable c

theorem bareValue_sublist (i : Item) : i.bareValue.Sublist i.source := by
  cases i with
  | plain c => exact List.Sublist.refl _
  | escaped c =>
    simp only [bareValue, source]
    split_ifs
    · exact List.nil_sublist _
    · exact (List.Sublist.refl [c]).cons '\\'

theorem doubleValue_sublist (i : Item) : i.doubleValue.Sublist i.source := by
  cases i with
  | plain c => exact List.Sublist.refl _
  | escaped c =>
    simp only [doubleValue, source]
    split_ifs
    · exact List.nil_sublist _
    · exact (List.Sublist.refl [c]).cons '\\'
    · exact List.Sublist.refl _

theorem bareValue_eq_iff (i : Item) : i.bareValue = i.source ↔ i.isPlain = true := by
  cases i with
  | plain c => simp [bareValue, source, isPlain]
  | escaped c =>
    simp only [bareValue, source, isPlain]
    split_ifs <;> simp

theorem doubleValue_eq_iff (i : Item) : i.doubleValue = i.source ↔ i.keepsInDouble = true := by
  cases i with
  | plain c => simp [doubleValue, source, keepsInDouble]
  | escaped c =>
    simp only [doubleValue, source, keepsInDouble]
    split_ifs with hnl hesc
    · simp [hnl]
    · simp [hesc]
    · simp [hnl, hesc]

end Item

/-! ### Shortening piece by piece -/

section Flat

variable {α β : Type*} {f g : α → List β} {l : List α}

/-- What is shortened piece by piece is the same only where each piece is. -/
theorem flatMap_eq_iff (h : ∀ x ∈ l, (f x).Sublist (g x)) :
    l.flatMap f = l.flatMap g ↔ ∀ x ∈ l, f x = g x := by
  constructor
  · induction l with
    | nil => exact fun _ _ hx => absurd hx List.not_mem_nil
    | cons x l ih =>
      intro heq
      have hhead := h x List.mem_cons_self
      have htail : ∀ y ∈ l, (f y).Sublist (g y) := fun y hy => h y (List.mem_cons_of_mem _ hy)
      simp only [List.flatMap_cons] at heq
      have hlen : (f x ++ l.flatMap f).length = (g x ++ l.flatMap g).length := by rw [heq]
      rw [List.length_append, List.length_append] at hlen
      have hle := hhead.length_le
      have hle' := (List.Sublist.flatMap_right l htail).length_le
      have hx : f x = g x := hhead.eq_of_length (by omega)
      rw [hx] at heq
      have hrest := ih htail (List.append_cancel_left heq)
      intro y hy
      rcases List.mem_cons.mp hy with rfl | hy
      · exact hx
      · exact hrest y hy
  · intro heq
    exact List.flatMap_congr heq

end Flat

/-! ### Pieces and words -/

/-- A piece of a word.  Text without quotes has at least one item. -/
inductive Piece
  | bare (first : Item) (rest : List Item)
  | single (text : Text)
  | double (items : List Item)
  deriving DecidableEq, Repr

namespace Piece

/-- The text of the piece without the quotes around it. -/
def body : Piece → Text
  | bare first rest => (first :: rest).flatMap Item.source
  | single text => text
  | double items => items.flatMap Item.source

def source : Piece → Text
  | bare first rest => body (bare first rest)
  | single text => '\'' :: (text ++ ['\''])
  | double items => '"' :: (items.flatMap Item.source ++ ['"'])

/-- **Quote removal.** -/
def value : Piece → Text
  | bare first rest => (first :: rest).flatMap Item.bareValue
  | single text => text
  | double items => items.flatMap Item.doubleValue

/-- Quote removal takes no backslash away. -/
def isExact : Piece → Bool
  | bare first rest => (first :: rest).all Item.isPlain
  | single _ => true
  | double items => items.all Item.keepsInDouble

theorem source_ne_nil (p : Piece) : p.source ≠ [] := by
  cases p with
  | bare first rest => cases first <;> simp [source, body, Item.source]
  | single text => simp [source]
  | double items => simp [source]

theorem value_sublist (p : Piece) : p.value.Sublist p.body := by
  cases p with
  | bare first rest => exact List.Sublist.flatMap_right _ fun i _ => i.bareValue_sublist
  | single text => exact List.Sublist.refl _
  | double items => exact List.Sublist.flatMap_right _ fun i _ => i.doubleValue_sublist

theorem value_eq_body_iff (p : Piece) : p.value = p.body ↔ p.isExact = true := by
  cases p with
  | bare first rest =>
    show (first :: rest).flatMap Item.bareValue = (first :: rest).flatMap Item.source ↔ _
    rw [flatMap_eq_iff fun i _ => i.bareValue_sublist]
    simp only [Item.bareValue_eq_iff, isExact, List.all_eq_true]
  | single text => exact iff_of_true rfl rfl
  | double items =>
    show items.flatMap Item.doubleValue = items.flatMap Item.source ↔ _
    rw [flatMap_eq_iff fun i _ => i.doubleValue_sublist]
    simp only [Item.doubleValue_eq_iff, isExact, List.all_eq_true]

end Piece

/-- A word: its first piece and those written right behind it. -/
structure ShellWord where
  first : Piece
  rest : List Piece
  deriving DecidableEq, Repr

namespace ShellWord

def pieces (w : ShellWord) : List Piece := w.first :: w.rest

def source (w : ShellWord) : Text := w.pieces.flatMap Piece.source

/-- The text without the quotes around the pieces. -/
def body (w : ShellWord) : Text := w.pieces.flatMap Piece.body

/-- **What the shell passes on.** -/
def value (w : ShellWord) : Text := w.pieces.flatMap Piece.value

def isExact (w : ShellWord) : Bool := w.pieces.all Piece.isExact

theorem source_ne_nil (w : ShellWord) : w.source ≠ [] := by
  intro h
  exact w.first.source_ne_nil (List.flatMap_eq_nil_iff.mp h w.first List.mem_cons_self)

/-- **The text within the quotes is what the shell passes on** only where no backslash is removed. -/
theorem value_eq_body_iff (w : ShellWord) : w.value = w.body ↔ w.isExact = true := by
  unfold value body isExact
  rw [flatMap_eq_iff fun p _ => p.value_sublist, List.all_eq_true]
  exact forall₂_congr fun p _ => p.value_eq_body_iff

end ShellWord

/-! ### Reading what is written -/

/-- The reader takes the item for one of a text without quotes. -/
def Item.readsBare : Item → Bool
  | .plain c => c != '\\' && c != '\'' && c != '"' && !isSeparator c
  | .escaped _ => true

/-- The item begins a word: it is not a line continuation, and not the sign of a comment. -/
def Item.begins : Item → Bool
  | .plain c => c != '#'
  | .escaped c => c != '\n'

def Item.readsDouble : Item → Bool
  | .plain c => c != '\\' && c != '"'
  | .escaped _ => true

def Piece.reads : Piece → Bool
  | .bare first rest => (first :: rest).all Item.readsBare
  | .single text => !text.contains '\''
  | .double items => items.all Item.readsDouble

def Piece.begins : Piece → Bool
  | .bare first _ => first.begins
  | .single _ | .double _ => true

/-- The word is one for the reader. -/
def ShellWord.reads (w : ShellWord) : Bool := w.first.begins && w.pieces.all Piece.reads

/-- A command: its words, each but the first behind a blank text. -/
structure ShellCommand where
  name : ShellWord
  args : List (Text × ShellWord)
  deriving DecidableEq, Repr

namespace ShellCommand

def words (c : ShellCommand) : List ShellWord := c.name :: c.args.map (·.2)

def source (c : ShellCommand) : Text :=
  c.name.source ++ c.args.flatMap fun arg => arg.1 ++ arg.2.source

/-- **The argument list that the shell passes on.** -/
def argv (c : ShellCommand) : List Text := c.words.map ShellWord.value

def reads (c : ShellCommand) : Bool :=
  c.name.reads && c.args.all fun arg => !arg.1.isEmpty && arg.1.all isSeparator && arg.2.reads

theorem source_ne_nil (c : ShellCommand) : c.source ≠ [] := by
  intro h
  exact c.name.source_ne_nil (List.append_eq_nil_iff.mp h).1

end ShellCommand

section Reading

variable {ws : List Text} {v : Text}

theorem read_item_bare {i : Item} (h : i.readsBare = true) :
    i.source.foldl step ⟨ws, some v, .bare⟩ = ⟨ws, some (v ++ i.bareValue), .bare⟩ := by
  cases i with
  | plain c =>
    simp only [Item.readsBare, Bool.and_eq_true, bne_iff_ne, Bool.not_eq_true'] at h
    obtain ⟨⟨⟨hback, hsingle⟩, hdouble⟩, hsep⟩ := h
    simp [Item.source, Item.bareValue, step, extend, hback, hsingle, hdouble, hsep]
  | escaped c =>
    by_cases hnl : c = '\n'
    · simp [Item.source, Item.bareValue, step, hnl]
    · simp [Item.source, Item.bareValue, step, extend, hnl]

theorem read_item_begins {i : Item} (h : i.readsBare = true) (hbegins : i.begins = true) :
    i.source.foldl step ⟨ws, none, .bare⟩ = ⟨ws, some i.bareValue, .bare⟩ := by
  cases i with
  | plain c =>
    simp only [Item.readsBare, Bool.and_eq_true, bne_iff_ne, Bool.not_eq_true'] at h
    obtain ⟨⟨⟨hback, hsingle⟩, hdouble⟩, hsep⟩ := h
    have hhash : c ≠ '#' := by simpa [Item.begins] using hbegins
    simp [Item.source, Item.bareValue, step, extend, hback, hsingle, hdouble, hsep, hhash]
  | escaped c =>
    have hnl : c ≠ '\n' := by simpa [Item.begins] using hbegins
    simp [Item.source, Item.bareValue, step, extend, hnl]

theorem read_item_double {i : Item} (h : i.readsDouble = true) :
    i.source.foldl step ⟨ws, some v, .double⟩ = ⟨ws, some (v ++ i.doubleValue), .double⟩ := by
  cases i with
  | plain c =>
    simp only [Item.readsDouble, Bool.and_eq_true, bne_iff_ne] at h
    simp [Item.source, Item.doubleValue, step, extend, h.1, h.2]
  | escaped c =>
    by_cases hnl : c = '\n'
    · simp [Item.source, Item.doubleValue, step, hnl]
    · by_cases hesc : isDoubleEscapable c = true
      · simp [Item.source, Item.doubleValue, step, extend, hnl, hesc]
      · simp [Item.source, Item.doubleValue, step, extend, hnl, hesc]

/-- Reading what is appended item by item. -/
theorem read_flatMap {α : Type*} {source value : α → Text} {q : Quoting} {l : List α}
    (h : ∀ x ∈ l, ∀ v, (source x).foldl step ⟨ws, some v, q⟩ = ⟨ws, some (v ++ value x), q⟩)
    (v : Text) :
    (l.flatMap source).foldl step ⟨ws, some v, q⟩ = ⟨ws, some (v ++ l.flatMap value), q⟩ := by
  induction l generalizing v with
  | nil => simp
  | cons x l ih =>
    simp only [List.flatMap_cons, List.foldl_append]
    rw [h x List.mem_cons_self v, ih fun y hy => h y (List.mem_cons_of_mem _ hy)]
    simp

theorem read_single {text : Text} (h : '\'' ∉ text) (v : Text) :
    text.foldl step ⟨ws, some v, .single⟩ = ⟨ws, some (v ++ text), .single⟩ := by
  induction text generalizing v with
  | nil => simp
  | cons c t ih =>
    rw [List.mem_cons, not_or] at h
    rw [List.foldl_cons, show step ⟨ws, some v, .single⟩ c = ⟨ws, some (v ++ [c]), .single⟩ by
      simp [step, extend, Ne.symm h.1], ih h.2]
    simp

/-- A piece in quotes, whether a word has begun or not. -/
theorem read_quoted {p : Piece} {word : Option Text} (h : p.reads = true)
    (hquoted : ∀ first rest, p ≠ .bare first rest) :
    p.source.foldl step ⟨ws, word, .bare⟩ = ⟨ws, some (word.getD [] ++ p.value), .bare⟩ := by
  cases p with
  | bare first rest => exact absurd rfl (hquoted first rest)
  | single text =>
    have htext : '\'' ∉ text := by simpa [Piece.reads] using h
    simp only [Piece.source, Piece.value, List.foldl_cons, List.foldl_append, List.foldl_nil]
    rw [show step ⟨ws, word, .bare⟩ '\'' = ⟨ws, some (word.getD []), .single⟩ by
      simp [step, extend], read_single htext]
    simp [step]
  | double items =>
    have hitems : ∀ i ∈ items, i.readsDouble = true := by simpa [Piece.reads] using h
    simp only [Piece.source, Piece.value, List.foldl_cons, List.foldl_append, List.foldl_nil]
    rw [show step ⟨ws, word, .bare⟩ '"' = ⟨ws, some (word.getD []), .double⟩ by
      simp [step, extend], read_flatMap fun i hi _ => read_item_double (hitems i hi)]
    simp [step]

theorem read_piece {p : Piece} (h : p.reads = true) (v : Text) :
    p.source.foldl step ⟨ws, some v, .bare⟩ = ⟨ws, some (v ++ p.value), .bare⟩ := by
  cases p with
  | bare first rest =>
    have hitems : ∀ i ∈ first :: rest, i.readsBare = true := by
      simpa only [Piece.reads, List.all_eq_true] using h
    exact read_flatMap (fun i hi _ => read_item_bare (hitems i hi)) v
  | single text => exact read_quoted h fun _ _ => Piece.noConfusion
  | double items => exact read_quoted h fun _ _ => Piece.noConfusion

/-- The first piece of a word begins it. -/
theorem read_first {p : Piece} (h : p.reads = true) (hbegins : p.begins = true) :
    p.source.foldl step ⟨ws, none, .bare⟩ = ⟨ws, some p.value, .bare⟩ := by
  cases p with
  | bare first rest =>
    have hitems : ∀ i ∈ first :: rest, i.readsBare = true := by
      simpa only [Piece.reads, List.all_eq_true] using h
    simp only [Piece.source, Piece.body, Piece.value, List.flatMap_cons, List.foldl_append]
    rw [read_item_begins (hitems first List.mem_cons_self) hbegins]
    exact read_flatMap (fun i hi _ => read_item_bare (hitems i (List.mem_cons_of_mem _ hi))) _
  | single text => exact read_quoted h fun _ _ => Piece.noConfusion
  | double items => exact read_quoted h fun _ _ => Piece.noConfusion

theorem read_word {w : ShellWord} (h : w.reads = true) :
    w.source.foldl step ⟨ws, none, .bare⟩ = ⟨ws, some w.value, .bare⟩ := by
  simp only [ShellWord.reads, ShellWord.pieces, Bool.and_eq_true, List.all_cons,
    List.all_eq_true] at h
  obtain ⟨hbegins, hfirst, hrest⟩ := h
  simp only [ShellWord.source, ShellWord.value, ShellWord.pieces, List.flatMap_cons,
    List.foldl_append]
  rw [read_first hfirst hbegins]
  exact read_flatMap (fun p hp v => read_piece (hrest p hp) v) _

/-- Blanks end the word that is being read. -/
theorem read_blank {blank : Text} (hne : blank ≠ []) (h : ∀ c ∈ blank, isSeparator c = true)
    (word : Option Text) :
    blank.foldl step ⟨ws, word, .bare⟩ = ⟨ws ++ word.toList, none, .bare⟩ := by
  have hstep : ∀ c ∈ blank, ∀ (ws : List Text) (word : Option Text),
      step ⟨ws, word, .bare⟩ c = ⟨ws ++ word.toList, none, .bare⟩ := by
    intro c hc ws word
    have hsep := h c hc
    have hquote : c ≠ '\\' ∧ c ≠ '\'' ∧ c ≠ '"' := by
      refine ⟨?_, ?_, ?_⟩ <;> rintro rfl <;> exact absurd hsep (by decide)
    simp [step, hquote, hsep, endWord]
  have hidle : ∀ t : Text, (∀ c ∈ t, c ∈ blank) → ∀ ws : List Text,
      t.foldl step ⟨ws, none, .bare⟩ = ⟨ws, none, .bare⟩ := by
    intro t ht ws
    induction t with
    | nil => rfl
    | cons c t ih =>
      rw [List.foldl_cons, hstep c (ht c List.mem_cons_self)]
      simpa using ih fun d hd => ht d (List.mem_cons_of_mem _ hd)
  cases blank with
  | nil => exact absurd rfl hne
  | cons c t =>
    rw [List.foldl_cons, hstep c List.mem_cons_self,
      hidle t fun d hd => List.mem_cons_of_mem _ hd]

/-- **The reader finds the argument list**: quote removal word by word is what the POSIX rules
    make of the text of a command. -/
theorem shellWords_command {c : ShellCommand} (h : c.reads = true) :
    shellWords c.source = some c.argv := by
  obtain ⟨name, args⟩ := c
  simp only [ShellCommand.reads, Bool.and_eq_true, List.all_eq_true, Bool.not_eq_true',
    List.isEmpty_eq_false_iff] at h
  obtain ⟨hname, hargs⟩ := h
  have hrest : ∀ (ws : List Text) (v : Text),
      ((args.flatMap fun arg => arg.1 ++ arg.2.source).foldl step ⟨ws, some v, .bare⟩).finish =
        some (ws ++ v :: args.map (·.2.value)) := by
    clear hname
    induction args with
    | nil =>
      intro ws v
      simp [finish, endWord]
    | cons arg args ih =>
      intro ws v
      obtain ⟨⟨hne, hblank⟩, hword⟩ := hargs arg List.mem_cons_self
      simp only [List.flatMap_cons, List.foldl_append]
      rw [read_blank hne hblank, read_word hword,
        ih fun arg' harg' => hargs arg' (List.mem_cons_of_mem _ harg')]
      simp
  unfold shellWords
  simp only [ShellCommand.source, ShellCommand.argv, ShellCommand.words, List.foldl_append,
    List.map_cons, List.map_map]
  rw [show ({} : ShellReader) = ⟨[], none, .bare⟩ from rfl, read_word hname, hrest]
  rfl

end Reading

end ShellQuoting

end CodexMonitor
