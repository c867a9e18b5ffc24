import CodexMonitor.Lib.Text
import Mathlib.Data.List.Sort

namespace CodexMonitor.BashScripts

open Text

/-!
# Bash scripts — the commands of a syntax tree

`bash.rs` takes the commands of a script from the syntax tree of tree-sitter-bash.  It accepts
scripts of plain commands only, and gives the words of each from the texts of the nodes.

* `Node`, `Tree` — the syntax tree, as far as the code looks into it.
* `walk` — the walk over the nodes with a stack, which collects the commands.
* `parsePlainCommandFromNode` — the words of a command, by the kinds of its nodes.
* `tryParseWordOnlyCommandsSequence` — both together.
* `walk_eq` — what the walk finds: every node is visited once.
-/

/-! ### Syntax trees -/

/-- A node: its kind, whether it is a named one, where it starts, its text, and its children. -/
inductive Node
  | mk (kind : Text) (isNamed : Bool) (startByte : Nat) (text : Text) (children : List Node)

namespace Node

def kind : Node → Text
  | mk kind _ _ _ _ => kind

def isNamed : Node → Bool
  | mk _ isNamed _ _ _ => isNamed

def startByte : Node → Nat
  | mk _ _ startByte _ _ => startByte

/-- `utf8_text`, the part of the source that the node spans. -/
def text : Node → Text
  | mk _ _ _ text _ => text

def children : Node → List Node
  | mk _ _ _ _ children => children

def namedChildren (node : Node) : List Node := node.children.filter Node.isNamed

end Node

structure Tree where
  root : Node
  hasError : Bool

/-! ### The walk -/

def allowedKinds : List Text :=
  ["program", "list", "pipeline", "command", "command_name", "word", "string", "string_content",
    "raw_string", "number", "concatenation"].map String.toList

def allowedPunctTokens : List Text := ["&&", "||", ";", "|", "\"", "'"].map String.toList

def commandKind : Text := "command".toList

/-- The node may occur in a sequence of plain commands. -/
def isAllowedNode (node : Node) : Bool :=
  if node.isNamed then allowedKinds.contains node.kind
  else if node.kind.any (fun c => "&;|".toList.contains c) &&
      !allowedPunctTokens.contains node.kind then
    false
  else allowedPunctTokens.contains node.kind || node.kind.trim.isEmpty

/-- The command at the node itself. -/
def ownCommand (node : Node) : List Node :=
  if node.isNamed && node.kind == commandKind then [node] else []

/-- The walk with the nodes that wait on the stack, the last pushed first, and the commands found
    so far.  The first argument bounds the steps. -/
def walk : Nat → List Node → List Node → Option (List Node)
  | _, [], found => some found
  | 0, _ :: _, _ => none
  | steps + 1, node :: stack, found =>
      if isAllowedNode node then
        walk steps (node.children.reverse ++ stack) (found ++ ownCommand node)
      else none

mutual

/-- The number of nodes. -/
def Node.size : Node → Nat
  | .mk _ _ _ _ children => sizes children + 1

def sizes : List Node → Nat
  | [] => 0
  | node :: nodes => node.size + sizes nodes

end

/-- The commands of a tree in the order in which the walk comes to them, none if a node is not
    allowed. -/
def commandNodes (root : Node) : Option (List Node) := walk root.size [root] []

/-! ### The words of a command -/

/-- The text between two quotes. -/
def stripQuotes (quote : Char) (raw : Text) : Option Text :=
  match raw with
  | [] => none
  | c :: rest => if c = quote && rest.getLast? = some quote then some rest.dropLast else none

def parseDoubleQuotedString (node : Node) : Option Text :=
  if node.kind != "string".toList then none
  else if node.namedChildren.any fun part => part.kind != "string_content".toList then none
  else stripQuotes '"' node.text

def parseRawString (node : Node) : Option Text :=
  if node.kind != "raw_string".toList then none else stripQuotes '\'' node.text

/-- A word, a number or a string, on its own or as a part of a concatenation. -/
def parsePart (node : Node) : Option Text :=
  if node.kind = "word".toList ∨ node.kind = "number".toList then some node.text
  else if node.kind = "string".toList then parseDoubleQuotedString node
  else if node.kind = "raw_string".toList then parseRawString node
  else none

/-- Concatenated arguments like `-g"*.py"`. -/
def parseConcatenation (node : Node) : Option Text := do
  let concatenated := (← node.namedChildren.mapM parsePart).flatten
  if concatenated.isEmpty then none else some concatenated

/-- The word of a child of a command. -/
def parseCommandChild (child : Node) : Option Text :=
  if child.kind = "command_name".toList then
    match child.namedChildren.head? with
    | some wordNode => if wordNode.kind != "word".toList then none else some wordNode.text
    | none => none
  else if child.kind = "concatenation".toList then parseConcatenation child
  else parsePart child

theorem parsePart_of_word {node : Node}
    (h : node.kind = "word".toList ∨ node.kind = "number".toList) :
    parsePart node = some node.text := by
  rw [parsePart, if_pos h]

theorem parsePart_of_string {node : Node} (h : node.kind = "string".toList) :
    parsePart node = parseDoubleQuotedString node := by
  rw [parsePart, if_neg (by rw [h]; decide), if_pos h]

theorem parsePart_of_rawString {node : Node} (h : node.kind = "raw_string".toList) :
    parsePart node = parseRawString node := by
  rw [parsePart, if_neg (by rw [h]; decide), if_neg (by rw [h]; decide), if_pos h]

theorem parseCommandChild_of_part {child : Node} (hname : child.kind ≠ "command_name".toList)
    (hconcat : child.kind ≠ "concatenation".toList) : parseCommandChild child = parsePart child := by
  rw [parseCommandChild, if_neg hname, if_neg hconcat]

theorem parseCommandChild_of_concatenation {child : Node}
    (h : child.kind = "concatenation".toList) :
    parseCommandChild child = parseConcatenation child := by
  rw [parseCommandChild, if_neg (by rw [h]; decide), if_pos h]

/-- The name of a command is its first named child, which must be a word. -/
theorem parseCommandChild_of_name {child wordNode : Node}
    (h : child.kind = "command_name".toList) (hhead : child.namedChildren.head? = some wordNode) :
    parseCommandChild child =
      if wordNode.kind != "word".toList then none else some wordNode.text := by
  rw [parseCommandChild, if_pos h, hhead]

def parsePlainCommandFromNode (cmd : Node) : Option (List Text) :=
  if cmd.kind != commandKind then none else cmd.namedChildren.mapM parseCommandChild

/-- **The words of the commands**, in the order of the source. -/
def tryParseWordOnlyCommandsSequence (tree : Tree) : Option (List (List Text)) :=
  if tree.hasError then none
  else
    match commandNodes tree.root with
    | none => none
    | some nodes =>
        (List.insertionSort (fun a b => a.startByte ≤ b.startByte) nodes).mapM
          parsePlainCommandFromNode

/-! ### What the walk finds -/

mutual

/-- Every node of the tree is allowed. -/
def Node.allAllowed : Node → Bool
  | .mk kind isNamed startByte text children =>
      isAllowedNode (.mk kind isNamed startByte text children) && allAllowed children

def allAllowed : List Node → Bool
  | [] => true
  | node :: nodes => node.allAllowed && allAllowed nodes

end

mutual

/-- The commands from left to right. -/
def Node.commands : Node → List Node
  | .mk kind isNamed startByte text children =>
      ownCommand (.mk kind isNamed startByte text children) ++ commandsOf children

def commandsOf : List Node → List Node
  | [] => []
  | node :: nodes => node.commands ++ commandsOf nodes

end

mutual

/-- The commands in the order of the walk, the last child first. -/
def Node.popped : Node → List Node
  | .mk kind isNamed startByte text children =>
      ownCommand (.mk kind isNamed startByte text children) ++ poppedOf children

def poppedOf : List Node → List Node
  | [] => []
  | node :: nodes => poppedOf nodes ++ node.popped

end

theorem sizes_append (xs ys : List Node) : sizes (xs ++ ys) = sizes xs + sizes ys := by
  induction xs with
  | nil => simp [sizes]
  | cons x xs ih => simp only [List.cons_append, sizes, ih]; omega

theorem sizes_reverse (xs : List Node) : sizes xs.reverse = sizes xs := by
  induction xs with
  | nil => rfl
  | cons x xs ih =>
    rw [List.reverse_cons, sizes_append, ih]
    simp only [sizes]
    omega

theorem allAllowed_eq (xs : List Node) : allAllowed xs = xs.all Node.allAllowed := by
  induction xs with
  | nil => rfl
  | cons x xs ih => simp only [allAllowed, List.all_cons, ih]

theorem poppedOf_eq (xs : List Node) : poppedOf xs = xs.reverse.flatMap Node.popped := by
  induction xs with
  | nil => rfl
  | cons x xs ih => simp [poppedOf, ih]

/-- **The walk visits every node once**: with a step for each, it finds the commands of the nodes
    on the stack, unless one of their nodes is not allowed. -/
theorem walk_eq {steps : Nat} {stack : List Node} (found : List Node) (h : sizes stack ≤ steps) :
    walk steps stack found =
      if stack.all Node.allAllowed then some (found ++ stack.flatMap Node.popped) else none := by
  induction steps generalizing stack found with
  | zero =>
    cases stack with
    | nil => simp [walk]
    | cons node stack =>
      obtain ⟨kind, isNamed, startByte, text, children⟩ := node
      simp only [sizes, Node.size] at h
      omega
  | succ steps ih =>
    cases stack with
    | nil => simp [walk]
    | cons node stack =>
      obtain ⟨kind, isNamed, startByte, text, children⟩ := node
      have hsteps : sizes (children.reverse ++ stack) ≤ steps := by
        rw [sizes_append, sizes_reverse]
        simp only [sizes, Node.size] at h
        omega
      rw [walk]
      by_cases hallowed : isAllowedNode (.mk kind isNamed startByte text children) = true
      · rw [if_pos hallowed, Node.children, ih _ hsteps]
        simp only [List.all_append, List.all_reverse, List.all_cons, Node.allAllowed, hallowed,
          Bool.true_and, allAllowed_eq, List.flatMap_append, List.flatMap_cons, Node.popped,
          poppedOf_eq, List.append_assoc]
      · rw [if_neg hallowed]
        simp [Node.allAllowed, hallowed]

mutual

theorem Node.popped_perm : (node : Node) → node.popped.Perm node.commands
  | .mk _ _ _ _ children => (poppedOf_perm children).append_left _

theorem poppedOf_perm : (nodes : List Node) → (poppedOf nodes).Perm (commandsOf nodes)
  | [] => .nil
  | node :: nodes =>
      List.perm_append_comm.trans (node.popped_perm.append (poppedOf_perm nodes))

end

/-- The commands are found if every node is allowed. -/
theorem commandNodes_eq (root : Node) :
    commandNodes root = if root.allAllowed then some root.popped else none := by
  unfold commandNodes
  rw [walk_eq [] (by simp [sizes])]
  simp

/-- **Sorting puts the commands in order** where they start one after the other. -/
theorem insertionSort_eq_of_perm {found inOrder : List Node} (hperm : found.Perm inOrder)
    (horder : inOrder.Pairwise fun a b => a.startByte < b.startByte) :
    List.insertionSort (fun a b => a.startByte ≤ b.startByte) found = inOrder := by
  have hinj : ∀ a ∈ inOrder, ∀ b ∈ inOrder, a.startByte = b.startByte → a = b := by
    intro a ha b hb heq
    have hnodup : (inOrder.map Node.startByte).Nodup :=
      List.pairwise_map.mpr (horder.imp fun hlt => Nat.ne_of_lt hlt)
    exact List.inj_on_of_nodup_map hnodup ha hb heq
  have hsorted := List.pairwise_insertionSort (fun a b : Node => a.startByte ≤ b.startByte) found
  have hperm' := (List.perm_insertionSort (fun a b : Node => a.startByte ≤ b.startByte) found).trans
    hperm
  refine hperm'.eq_of_pairwise ?_ hsorted (horder.imp fun hlt => Nat.le_of_lt hlt)
  intro a b ha hb hab hba
  exact hinj a (hperm'.mem_iff.mp ha) b hb (Nat.le_antisymm hab hba)

end CodexMonitor.BashScripts
