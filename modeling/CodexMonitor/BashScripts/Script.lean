import CodexMonitor.Lib.TextLength
import CodexMonitor.BashScripts.Tree
import CodexMonitor.Lib.ShellQuoting

namespace CodexMonitor.BashScripts

open Text ShellQuoting

/-!
# Bash scripts — plain commands joined by operators

A script of plain commands, as it is written, and the syntax tree that tree-sitter-bash builds of
it.  How the commands are grouped into lists and pipelines is left open.

* `ScriptPart`, `Script` — commands, operators, blanks and groups of these.
* `Script.tree` — the expected tree.
* `Script.commands` — the commands from left to right.
* `tryParse_tree` — what the parser makes of the tree: the texts of the words within their quotes.
-/

/-! ### Scripts -/

inductive Operator
  | and
  | or
  | semicolon
  | pipe
  | newline
  deriving DecidableEq, Repr

def Operator.source : Operator → Text
  | .and => "&&".toList
  | .or => "||".toList
  | .semicolon => ";".toList
  | .pipe => "|".toList
  | .newline => "\n".toList

inductive Grouping
  | list
  | pipeline
  deriving DecidableEq, Repr

def Grouping.kind : Grouping → Text
  | .list => "list".toList
  | .pipeline => "pipeline".toList

/-- A part of a script; a group is a node of its own, and blanks are none. -/
inductive ScriptPart
  | command (c : ShellCommand)
  | operator (op : Operator)
  | blank (text : Text)
  | group (grouping : Grouping) (parts : List ScriptPart)

abbrev Script := List ScriptPart

mutual

def ScriptPart.source : ScriptPart → Text
  | .command c => c.source
  | .operator op => op.source
  | .blank text => text
  | .group _ parts => sourceOf parts

/-- The text of a script. -/
def sourceOf : Script → Text
  | [] => []
  | part :: parts => part.source ++ sourceOf parts

end

mutual

/-- The commands with the bytes at which they start. -/
def ScriptPart.placed (start : Nat) : ScriptPart → List (Nat × ShellCommand)
  | .command c => [(start, c)]
  | .operator _ | .blank _ => []
  | .group _ parts => placedOf start parts

def placedOf (start : Nat) : Script → List (Nat × ShellCommand)
  | [] => []
  | part :: parts => part.placed start ++ placedOf (start + byteLen part.source) parts

end

/-- The commands of a script, from left to right. -/
def Script.commands (script : Script) : List ShellCommand := (placedOf 0 script).map (·.2)

/-! ### The expected tree -/

section Build

-- which texts without quotes the grammar takes for numbers
variable (isNumber : Text → Bool)

def leaf (kind : String) (start : Nat) (text : Text) : Node := .mk kind.toList true start text []

def quoteToken (start : Nat) : Node := .mk "\"".toList false start "\"".toList []

/-- Text without quotes is one word, whatever its backslashes. -/
def pieceNode (start : Nat) : Piece → Node
  | .bare first rest =>
      let text := (Piece.bare first rest).source
      leaf (if isNumber text then "number" else "word") start text
  | .single text => leaf "raw_string" start (Piece.single text).source
  | .double items =>
      let text := (Piece.double items).source
      let content := (Piece.double items).body
      .mk "string".toList true start text
        ([quoteToken start] ++
          (if content.isEmpty then [] else [leaf "string_content" (start + 1) content]) ++
          [quoteToken (start + 1 + byteLen content)])

def pieceNodes (start : Nat) : List Piece → List Node
  | [] => []
  | p :: ps => pieceNode isNumber start p :: pieceNodes (start + byteLen p.source) ps

/-- Pieces right behind each other are a concatenation. -/
def wordNode (start : Nat) (w : ShellWord) : Node :=
  if w.rest.isEmpty then pieceNode isNumber start w.first
  else .mk "concatenation".toList true start w.source (pieceNodes isNumber start w.pieces)

def argNodes (start : Nat) : List (Text × ShellWord) → List Node
  | [] => []
  | (blank, w) :: args =>
      wordNode isNumber (start + byteLen blank) w ::
        argNodes (start + byteLen blank + byteLen w.source) args

def commandNode (start : Nat) (c : ShellCommand) : Node :=
  .mk commandKind true start c.source
    (.mk "command_name".toList true start c.name.source [wordNode isNumber start c.name] ::
      argNodes isNumber (start + byteLen c.name.source) c.args)

mutual

def ScriptPart.nodes (start : Nat) : ScriptPart → List Node
  | .command c => [commandNode isNumber start c]
  | .operator op => [.mk op.source false start op.source []]
  | .blank _ => []
  | .group grouping parts =>
      [.mk grouping.kind true start (sourceOf parts) (nodesOf start parts)]

def nodesOf (start : Nat) : Script → List Node
  | [] => []
  | part :: parts => part.nodes start ++ nodesOf (start + byteLen part.source) parts

end

/-- **The expected tree.** -/
def Script.tree (script : Script) : Tree where
  root := .mk "program".toList true 0 (sourceOf script) (nodesOf isNumber 0 script)
  hasError := false

end Build

/-! ### Every node is allowed -/

section Allowed

variable {isNumber : Text → Bool}

@[simp] theorem allAllowed_leaf {kind : String} {start : Nat} {text : Text} :
    (leaf kind start text).allAllowed = allowedKinds.contains kind.toList := by
  simp [leaf, Node.allAllowed, allAllowed, isAllowedNode, Node.isNamed, Node.kind]

theorem allAllowed_append (xs ys : List Node) :
    allAllowed (xs ++ ys) = (allAllowed xs && allAllowed ys) := by
  simp only [allAllowed_eq, List.all_append]

/-- A named node of an allowed kind is allowed with its children. -/
theorem allAllowed_named {kind : Text} {start : Nat} {text : Text} {children : List Node}
    (hkind : allowedKinds.contains kind = true) (h : allAllowed children = true) :
    (Node.mk kind true start text children).allAllowed = true := by
  simp only [Node.allAllowed, isAllowedNode, Node.isNamed, Node.kind, if_true, hkind, h,
    Bool.and_self]

theorem allAllowed_quoteToken (start : Nat) : (quoteToken start).allAllowed = true := by
  rfl

theorem pieceNode_allowed (start : Nat) (p : Piece) :
    (pieceNode isNumber start p).allAllowed = true := by
  cases p with
  | bare first rest =>
    simp only [pieceNode, allAllowed_leaf]
    split <;> decide
  | single text => rfl
  | double items =>
    refine allAllowed_named (by decide) ?_
    simp only [allAllowed_append, allAllowed, allAllowed_quoteToken, Bool.true_and, Bool.and_true]
    split
    · rfl
    · simp only [allAllowed, allAllowed_leaf, Bool.and_true]
      decide

theorem pieceNodes_allowed (ps : List Piece) (start : Nat) :
    allAllowed (pieceNodes isNumber start ps) = true := by
  induction ps generalizing start with
  | nil => rfl
  | cons p ps ih => simp only [pieceNodes, allAllowed, pieceNode_allowed, ih, Bool.and_self]

theorem wordNode_allowed (start : Nat) (w : ShellWord) :
    (wordNode isNumber start w).allAllowed = true := by
  unfold wordNode
  split
  · exact pieceNode_allowed start w.first
  · exact allAllowed_named (by decide) (pieceNodes_allowed w.pieces start)

theorem argNodes_allowed (args : List (Text × ShellWord)) (start : Nat) :
    allAllowed (argNodes isNumber start args) = true := by
  induction args generalizing start with
  | nil => rfl
  | cons arg args ih =>
    simp only [argNodes, allAllowed, wordNode_allowed, ih, Bool.and_self]

theorem commandNode_allowed (start : Nat) (c : ShellCommand) :
    (commandNode isNumber start c).allAllowed = true := by
  refine allAllowed_named (by decide) ?_
  rw [allAllowed, argNodes_allowed, Bool.and_true]
  refine allAllowed_named (by decide) ?_
  simp only [allAllowed, wordNode_allowed, Bool.and_self]

mutual

theorem ScriptPart.nodes_allowed : (part : ScriptPart) → (start : Nat) →
    allAllowed (part.nodes isNumber start) = true
  | .command c, start => by
      simp only [ScriptPart.nodes, allAllowed, commandNode_allowed, Bool.and_self]
  | .operator op, start => by
      cases op <;> rfl
  | .blank _, _ => rfl
  | .group grouping parts, start => by
      have hkind : allowedKinds.contains grouping.kind = true := by cases grouping <;> decide
      simp only [ScriptPart.nodes, allAllowed, Bool.and_true]
      exact allAllowed_named hkind (nodesOf_allowed parts start)

theorem nodesOf_allowed : (parts : Script) → (start : Nat) →
    allAllowed (nodesOf isNumber start parts) = true
  | [], _ => rfl
  | part :: parts, start => by
      rw [nodesOf, allAllowed_append, part.nodes_allowed, nodesOf_allowed, Bool.and_self]

end

end Allowed

/-! ### The commands of the tree -/

section Commands

variable {isNumber : Text → Bool}

theorem commandsOf_append (xs ys : List Node) :
    commandsOf (xs ++ ys) = commandsOf xs ++ commandsOf ys := by
  induction xs with
  | nil => rfl
  | cons x xs ih => simp only [List.cons_append, commandsOf, ih, List.append_assoc]

/-- A node of another kind has the commands of its children. -/
theorem commands_of_ne {kind : Text} {named : Bool} {start : Nat} {text : Text}
    {children : List Node} (h : kind ≠ commandKind) :
    (Node.mk kind named start text children).commands = commandsOf children := by
  have hne : (kind == commandKind) = false := by simpa using h
  simp only [Node.commands, ownCommand, Node.kind, Node.isNamed, hne, Bool.and_false,
    Bool.false_eq_true, if_false, List.nil_append]

theorem leaf_commands {kind : String} {start : Nat} {text : Text}
    (h : kind.toList ≠ commandKind) : (leaf kind start text).commands = [] :=
  commands_of_ne h

theorem pieceNode_commands (start : Nat) (p : Piece) :
    (pieceNode isNumber start p).commands = [] := by
  cases p with
  | bare first rest =>
    simp only [pieceNode]
    split <;> exact leaf_commands (by decide)
  | single text => exact leaf_commands (by decide)
  | double items =>
    refine (commands_of_ne (by decide)).trans ?_
    simp only [commandsOf_append, commandsOf, List.append_nil]
    split
    · rfl
    · simp only [commandsOf, List.append_nil]
      rw [leaf_commands (by decide)]
      rfl

theorem pieceNodes_commands (ps : List Piece) (start : Nat) :
    commandsOf (pieceNodes isNumber start ps) = [] := by
  induction ps generalizing start with
  | nil => rfl
  | cons p ps ih => simp only [pieceNodes, commandsOf, pieceNode_commands, ih, List.append_nil]

theorem wordNode_commands (start : Nat) (w : ShellWord) :
    (wordNode isNumber start w).commands = [] := by
  unfold wordNode
  split
  · exact pieceNode_commands start w.first
  · exact (commands_of_ne (by decide)).trans (pieceNodes_commands w.pieces start)

theorem argNodes_commands (args : List (Text × ShellWord)) (start : Nat) :
    commandsOf (argNodes isNumber start args) = [] := by
  induction args generalizing start with
  | nil => rfl
  | cons arg args ih =>
    simp only [argNodes, commandsOf, wordNode_commands, ih, List.append_nil]

/-- No command is within the words of another. -/
theorem commandNode_commands (start : Nat) (c : ShellCommand) :
    (commandNode isNumber start c).commands = [commandNode isNumber start c] := by
  have hname : (Node.mk "command_name".toList true start c.name.source
      [wordNode isNumber start c.name]).commands = [] := by
    refine (commands_of_ne (by decide)).trans ?_
    simp only [commandsOf, wordNode_commands, List.append_nil]
  rw [commandNode, Node.commands, commandsOf, hname, argNodes_commands]
  rfl

mutual

/-- The commands of the nodes are those of the script, at their places. -/
theorem ScriptPart.nodes_commands : (part : ScriptPart) → (start : Nat) →
    commandsOf (part.nodes isNumber start) =
      (part.placed start).map fun c => commandNode isNumber c.1 c.2
  | .command c, start => by
      simp only [ScriptPart.nodes, commandsOf, commandNode_commands, List.append_nil,
        ScriptPart.placed, List.map_cons, List.map_nil]
  | .operator op, start => by
      cases op <;> rfl
  | .blank _, _ => rfl
  | .group grouping parts, start => by
      have hkind : grouping.kind ≠ commandKind := by cases grouping <;> decide
      simp only [ScriptPart.nodes, commandsOf, List.append_nil, commands_of_ne hkind,
        ScriptPart.placed]
      exact nodesOf_commands parts start

theorem nodesOf_commands : (parts : Script) → (start : Nat) →
    commandsOf (nodesOf isNumber start parts) =
      (placedOf start parts).map fun c => commandNode isNumber c.1 c.2
  | [], _ => rfl
  | part :: parts, start => by
      rw [nodesOf, commandsOf_append, part.nodes_commands, nodesOf_commands, placedOf,
        List.map_append]

end

end Commands

/-! ### The places of the commands -/

/-- The places in a range, one after the other. -/
def InOrder (low high : Nat) (places : List (Nat × ShellCommand)) : Prop :=
  places.Pairwise (fun a b => a.1 < b.1) ∧ ∀ p ∈ places, low ≤ p.1 ∧ p.1 < high

theorem InOrder.append {low mid high : Nat} {xs ys : List (Nat × ShellCommand)}
    (hx : InOrder low mid xs) (hy : InOrder mid high ys) (hlow : low ≤ mid) (hhigh : mid ≤ high) :
    InOrder low high (xs ++ ys) := by
  refine ⟨List.pairwise_append.mpr ⟨hx.1, hy.1, fun a ha b hb => ?_⟩, fun p hp => ?_⟩
  · exact lt_of_lt_of_le (hx.2 a ha).2 (hy.2 b hb).1
  · rcases List.mem_append.mp hp with hp | hp
    · have h := hx.2 p hp
      omega
    · have h := hy.2 p hp
      omega

mutual

theorem ScriptPart.placed_inOrder : (part : ScriptPart) → (start : Nat) →
    InOrder start (start + byteLen part.source) (part.placed start)
  | .command c, start => by
      have hpos := byteLen_pos c.source_ne_nil
      refine ⟨List.pairwise_singleton _ _, fun p hp => ?_⟩
      obtain rfl := List.mem_singleton.mp hp
      simp only [ScriptPart.source]
      omega
  | .operator _, _ => ⟨.nil, fun _ hp => absurd hp List.not_mem_nil⟩
  | .blank _, _ => ⟨.nil, fun _ hp => absurd hp List.not_mem_nil⟩
  | .group _ parts, start => placedOf_inOrder parts start

theorem placedOf_inOrder : (parts : Script) → (start : Nat) →
    InOrder start (start + byteLen (sourceOf parts)) (placedOf start parts)
  | [], _ => ⟨.nil, fun _ hp => absurd hp List.not_mem_nil⟩
  | part :: parts, start => by
      have hrest := placedOf_inOrder parts (start + byteLen part.source)
      rw [sourceOf, byteLen_append, ← Nat.add_assoc]
      exact (part.placed_inOrder start).append hrest (Nat.le_add_right _ _) (Nat.le_add_right _ _)

end

/-- **The walk and the sort give the commands in the order of the source.** -/
theorem commandNodes_tree (isNumber : Text → Bool) (script : Script) :
    ∃ found, commandNodes (script.tree isNumber).root = some found ∧
      List.insertionSort (fun a b : Node => a.startByte ≤ b.startByte) found =
        (placedOf 0 script).map fun c => commandNode isNumber c.1 c.2 := by
  have hallowed : (script.tree isNumber).root.allAllowed = true :=
    allAllowed_named (by decide) (nodesOf_allowed script 0)
  refine ⟨_, by rw [commandNodes_eq, if_pos hallowed], ?_⟩
  have hcommands : (script.tree isNumber).root.commands =
      (placedOf 0 script).map fun c => commandNode isNumber c.1 c.2 :=
    (commands_of_ne (by decide)).trans (nodesOf_commands script 0)
  refine insertionSort_eq_of_perm ?_ ?_
  · rw [← hcommands]
    exact Node.popped_perm _
  · exact List.pairwise_map.mpr (placedOf_inOrder script 0).1

/-! ### The words of the commands -/

section Words

variable {isNumber : Text → Bool}

/-- A list of results that are all there, or not all. -/
theorem mapM_eq_ite {α β : Type*} {f : α → Option β} {ok : α → Bool} {g : α → β} {l : List α}
    (h : ∀ x ∈ l, f x = if ok x then some (g x) else none) :
    l.mapM f = if l.all ok then some (l.map g) else none := by
  induction l with
  | nil => simp
  | cons x l ih =>
    rw [List.mapM_cons, h x List.mem_cons_self, ih fun y hy => h y (List.mem_cons_of_mem _ hy),
      List.all_cons, List.map_cons]
    cases ok x <;> cases l.all ok <;> rfl

theorem stripQuotes_quoted (quote : Char) (text : Text) :
    stripQuotes quote (quote :: (text ++ [quote])) = some text := by
  simp [stripQuotes]

theorem pieceNode_isNamed (start : Nat) (p : Piece) : (pieceNode isNumber start p).isNamed = true := by
  cases p <;> rfl

/-- The parser takes a piece without its quotes. -/
theorem parsePart_pieceNode (start : Nat) (p : Piece) :
    parsePart (pieceNode isNumber start p) = some p.body := by
  cases p with
  | bare first rest =>
    refine parsePart_of_word ?_
    simp only [pieceNode, leaf, Node.kind]
    split
    · exact .inr rfl
    · exact .inl rfl
  | single text =>
    rw [parsePart_of_rawString rfl]
    exact stripQuotes_quoted '\'' text
  | double items =>
    have hnamed : (pieceNode isNumber start (.double items)).namedChildren.any
        (fun part => part.kind != "string_content".toList) = false := by
      simp only [pieceNode, Node.namedChildren, Node.children, quoteToken, leaf]
      split <;> simp [List.filter, Node.isNamed, Node.kind]
    rw [parsePart_of_string rfl, parseDoubleQuotedString, if_neg (by simp [pieceNode, Node.kind]),
      hnamed, if_neg (by decide)]
    exact stripQuotes_quoted '"' _

theorem pieceNodes_isNamed (ps : List Piece) (start : Nat) :
    (pieceNodes isNumber start ps).filter Node.isNamed = pieceNodes isNumber start ps := by
  induction ps generalizing start with
  | nil => rfl
  | cons p ps ih => rw [pieceNodes, List.filter_cons_of_pos (pieceNode_isNamed start p), ih]

theorem mapM_pieceNodes (ps : List Piece) (start : Nat) :
    (pieceNodes isNumber start ps).mapM parsePart = some (ps.map Piece.body) := by
  induction ps generalizing start with
  | nil => rfl
  | cons p ps ih => simp [pieceNodes, List.mapM_cons, parsePart_pieceNode, ih]

end Words

/-- A concatenation must not be empty. -/
def acceptsArg (w : ShellWord) : Bool := w.rest.isEmpty || !w.body.isEmpty

/-- The name of a command must be one text without quotes, and no number. -/
def acceptsName (isNumber : Text → Bool) (w : ShellWord) : Bool :=
  match w.first with
  | .bare first rest => w.rest.isEmpty && !isNumber (Piece.bare first rest).source
  | .single _ | .double _ => false

def acceptsCommand (isNumber : Text → Bool) (c : ShellCommand) : Bool :=
  acceptsName isNumber c.name && c.args.all fun arg => acceptsArg arg.2

/-- **The scripts that the parser accepts.** -/
def Script.accepted (isNumber : Text → Bool) (script : Script) : Bool :=
  script.commands.all (acceptsCommand isNumber)

section Words

variable {isNumber : Text → Bool}

theorem wordNode_isNamed (start : Nat) (w : ShellWord) :
    (wordNode isNumber start w).isNamed = true := by
  unfold wordNode
  split
  · exact pieceNode_isNamed start w.first
  · rfl

/-- The kind of a piece is none of those that a command treats on their own. -/
theorem pieceNode_kind (start : Nat) (p : Piece) :
    (pieceNode isNumber start p).kind ≠ "command_name".toList ∧
      (pieceNode isNumber start p).kind ≠ "concatenation".toList := by
  cases p with
  | bare first rest =>
    simp only [pieceNode, leaf, Node.kind]
    split <;> decide
  | single text =>
    simp only [pieceNode, leaf, Node.kind]
    decide
  | double items =>
    simp only [pieceNode, Node.kind]
    decide

/-- An argument is taken without the quotes of its pieces. -/
theorem parseCommandChild_wordNode (start : Nat) (w : ShellWord) :
    parseCommandChild (wordNode isNumber start w) = if acceptsArg w then some w.body else none := by
  unfold wordNode
  by_cases hrest : w.rest.isEmpty = true
  · obtain ⟨hname, hconcat⟩ := @pieceNode_kind isNumber start w.first
    rw [if_pos hrest, parseCommandChild_of_part hname hconcat, parsePart_pieceNode]
    have hbody : w.body = w.first.body := by
      simp [ShellWord.body, ShellWord.pieces, List.isEmpty_iff.mp hrest]
    simp [acceptsArg, hrest, hbody]
  · rw [if_neg hrest, parseCommandChild_of_concatenation rfl, parseConcatenation,
      Node.namedChildren, Node.children, pieceNodes_isNamed, mapM_pieceNodes]
    have hbody : (w.pieces.map Piece.body).flatten = w.body := by
      rw [ShellWord.body, List.flatMap_def]
    simp only [Option.bind_eq_bind, Option.bind_some, hbody, acceptsArg, hrest, Bool.false_or]
    by_cases hempty : w.body.isEmpty = true <;> simp [hempty]

/-- The name is taken as it is written. -/
theorem parseCommandChild_name (start : Nat) (w : ShellWord) :
    parseCommandChild (.mk "command_name".toList true start w.source [wordNode isNumber start w]) =
      if acceptsName isNumber w then some w.body else none := by
  have hhead : (Node.mk "command_name".toList true start w.source
      [wordNode isNumber start w]).namedChildren.head? = some (wordNode isNumber start w) := by
    rw [Node.namedChildren, Node.children, List.filter_cons_of_pos (wordNode_isNamed start w)]
    rfl
  rw [parseCommandChild_of_name rfl hhead]
  by_cases hrest : w.rest.isEmpty = true
  · have hbody : w.body = w.first.body := by
      simp [ShellWord.body, ShellWord.pieces, List.isEmpty_iff.mp hrest]
    simp only [wordNode, hrest, if_true]
    cases hfirst : w.first with
    | bare first rest =>
      simp only [pieceNode, leaf, Node.kind, Node.text, acceptsName, hfirst, hrest, Bool.true_and,
        hbody]
      show (if (if isNumber (Piece.bare first rest).source then "number" else "word").toList !=
        "word".toList then none else some (Piece.bare first rest).source) = _
      cases isNumber (Piece.bare first rest).source <;> rfl
    | single text => simp [pieceNode, leaf, Node.kind, acceptsName, hfirst]
    | double items => simp [pieceNode, Node.kind, acceptsName, hfirst]
  · have hnot : acceptsName isNumber w = false := by
      unfold acceptsName
      split <;> simp [hrest]
    simp [wordNode, hrest, Node.kind, hnot]

theorem argNodes_isNamed (args : List (Text × ShellWord)) (start : Nat) :
    (argNodes isNumber start args).filter Node.isNamed = argNodes isNumber start args := by
  induction args generalizing start with
  | nil => rfl
  | cons arg args ih => rw [argNodes, List.filter_cons_of_pos (wordNode_isNamed _ _), ih]

theorem mapM_argNodes (args : List (Text × ShellWord)) (start : Nat) :
    (argNodes isNumber start args).mapM parseCommandChild =
      if args.all (fun arg => acceptsArg arg.2) then some (args.map (·.2.body)) else none := by
  induction args generalizing start with
  | nil => rfl
  | cons arg args ih =>
    rw [argNodes, List.mapM_cons, parseCommandChild_wordNode, ih, List.all_cons, List.map_cons]
    cases acceptsArg arg.2 <;> cases args.all (fun arg => acceptsArg arg.2) <;> rfl

theorem parsePlainCommandFromNode_commandNode (start : Nat) (c : ShellCommand) :
    parsePlainCommandFromNode (commandNode isNumber start c) =
      if acceptsCommand isNumber c then some (c.words.map ShellWord.body) else none := by
  have hnamed : (commandNode isNumber start c).namedChildren =
      .mk "command_name".toList true start c.name.source [wordNode isNumber start c.name] ::
        argNodes isNumber (start + byteLen c.name.source) c.args := by
    rw [commandNode, Node.namedChildren, Node.children, List.filter_cons_of_pos rfl,
      argNodes_isNamed]
  have hkind : ((commandNode isNumber start c).kind != commandKind) = false := by
    simp [commandNode, Node.kind]
  rw [parsePlainCommandFromNode, hkind, if_neg (by decide), hnamed, List.mapM_cons,
    parseCommandChild_name, mapM_argNodes, acceptsCommand, ShellCommand.words, List.map_cons,
    List.map_map]
  cases acceptsName isNumber c.name <;> cases c.args.all (fun arg => acceptsArg arg.2) <;> rfl

end Words

/-- **What the parser makes of the expected tree**: an accepted script gives for each command, in
    the order of the source, the texts of its words within their quotes. -/
theorem tryParse_tree (isNumber : Text → Bool) (script : Script) :
    tryParseWordOnlyCommandsSequence (script.tree isNumber) =
      if script.accepted isNumber then
        some (script.commands.map fun c => c.words.map ShellWord.body)
      else none := by
  obtain ⟨found, hfound, hsorted⟩ := commandNodes_tree isNumber script
  have hwords : ∀ p ∈ placedOf 0 script,
      (parsePlainCommandFromNode ∘ fun c => commandNode isNumber c.1 c.2) p =
        if acceptsCommand isNumber p.2 then some (p.2.words.map ShellWord.body) else none :=
    fun p _ => parsePlainCommandFromNode_commandNode p.1 p.2
  rw [tryParseWordOnlyCommandsSequence, show (script.tree isNumber).hasError = false from rfl,
    if_neg (by decide), hfound]
  show (List.insertionSort (fun a b : Node => a.startByte ≤ b.startByte) found).mapM
    parsePlainCommandFromNode = _
  rw [hsorted, List.mapM_map, mapM_eq_ite hwords]
  unfold Script.accepted Script.commands
  rw [List.all_map, List.map_map]
  rfl

end CodexMonitor.BashScripts
