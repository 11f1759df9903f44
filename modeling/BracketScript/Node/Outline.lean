import BracketScript.Node

/-! The outline of a program has a line for every node, indented below the line of the node
around it. Bodies and absent parts of a loop have lines too. Branches are drawn from the
last line up, since a branch goes on where a sibling follows. -/
namespace BracketScript

structure OutlineLine where
  depth : Nat
  label : String
deriving DecidableEq

namespace Node

def namesLabel (names : List String) : String := "[" ++ ", ".intercalate names ++ "]"

def leafLabel (t : Token) : String :=
  match t.kind with
  | .string => "string " ++ Text.quote t.payload.display
  | .trueWord | .falseWord => t.kind.name
  | _ => t.kind.name ++ " " ++ t.payload.display

/-- The kind of a node and the names and texts that the node itself holds. -/
def label (node : Node String Token) : String :=
  match node with
  | function name parameters _ => "func_def " ++ name ++ " " ++ namesLabel parameters
  | lambda parameters _ => "lambda " ++ namesLabel parameters
  | binding name _ => "init_var " ++ name
  | assignment target _ => "assign " ++ target.payload.display
  | enumeration names => "enum " ++ namesLabel names
  | leaf token => leafLabel token
  | _ => node.kindName

def bodyOutline (depth : Nat) (inner : List OutlineLine) : List OutlineLine :=
  ⟨depth, "block"⟩ :: inner

mutual

/-- The lines of a node in preorder. A block shows as its body alone. -/
def outline (depth : Nat) (node : Node String Token) : List OutlineLine :=
  match node with
  | block body => bodyOutline depth (listOutline (depth + 1) body)
  | function _ _ body =>
    ⟨depth, node.label⟩ :: bodyOutline (depth + 1) (listOutline (depth + 2) body)
  | lambda _ body =>
    ⟨depth, node.label⟩ :: bodyOutline (depth + 1) (listOutline (depth + 2) body)
  | guarded _ condition body =>
    ⟨depth, node.label⟩ :: condition.outline (depth + 1) ++
      bodyOutline (depth + 1) (listOutline (depth + 2) body)
  | loop init condition step body =>
    ⟨depth, node.label⟩ :: partOutline (depth + 1) init ++ partOutline (depth + 1) condition ++
      partOutline (depth + 1) step ++ bodyOutline (depth + 1) (listOutline (depth + 2) body)
  | binding _ value => ⟨depth, node.label⟩ :: value.outline (depth + 1)
  | assignment _ value => ⟨depth, node.label⟩ :: value.outline (depth + 1)
  | enumeration _ => [⟨depth, node.label⟩]
  | result value => ⟨depth, node.label⟩ :: value.outline (depth + 1)
  | jump _ => [⟨depth, node.label⟩]
  | list elements => ⟨depth, node.label⟩ :: listOutline (depth + 1) elements
  | access of keys =>
    ⟨depth, node.label⟩ :: of.outline (depth + 1) ++ listOutline (depth + 1) keys
  | unary _ operand => ⟨depth, node.label⟩ :: operand.outline (depth + 1)
  | binary _ left right =>
    ⟨depth, node.label⟩ :: left.outline (depth + 1) ++ right.outline (depth + 1)
  | leaf _ => [⟨depth, node.label⟩]
termination_by structural node

def listOutline (depth : Nat) (nodes : List (Node String Token)) : List OutlineLine :=
  match nodes with
  | [] => []
  | node :: nodes => node.outline depth ++ listOutline depth nodes
termination_by structural nodes

/-- An absent part of a loop has a line of its own. -/
def partOutline (depth : Nat) (part : Option (Node String Token)) : List OutlineLine :=
  match part with
  | none => [⟨depth, "(none)"⟩]
  | some node => node.outline depth
termination_by structural part

end

end Node

namespace OutlineLine

/-- The columns left of a branch, with a bar for every lesser depth that continues below. -/
def margin (below : List Bool) (depth : Nat) : String :=
  String.join ((List.range depth).map fun d => if below.getD d false then "│   " else "    ")

/-- Draws a line, given the depths that continue below it. -/
def draw (line : OutlineLine) (below : List Bool) : String :=
  margin below line.depth ++ (if below.getD line.depth false then "├── " else "└── ") ++ line.label

/-- The depths that continue, seen from above a line: its own, no deeper one, and the lesser ones as
below it. -/
def above (line : OutlineLine) (below : List Bool) : List Bool :=
  (List.range line.depth).map (below.getD · false) ++ [true]

def drawAll (lines : List OutlineLine) : List String × List Bool :=
  lines.foldr (fun line (drawn, below) => (line.draw below :: drawn, line.above below)) ([], [])

end OutlineLine

def Program.outline (p : Program) : List OutlineLine := Node.listOutline 0 p.statements

/-- The outline of a program as text, every line ended by a line break. -/
def Program.tree (p : Program) : String :=
  String.join (("program" :: (OutlineLine.drawAll p.outline).1).map (· ++ "\n"))

end BracketScript
