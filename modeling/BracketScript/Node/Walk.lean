import BracketScript.Node

/-! A walk enters every node of a program before the nodes below it, in the order in which
they stand in the source, and leaves it after them. Bodies are opened and closed on the
way; a body that is a statement lies within the node of that statement. -/
namespace BracketScript

inductive Event (ν τ : Type) where
  | enter (node : Node ν τ)
  | leave
  | openBody (size : Nat)
  | closeBody

variable {ν τ : Type}

namespace Node

def bodyWalk (size : Nat) (inner : List (Event ν τ)) : List (Event ν τ) :=
  .openBody size :: inner ++ [.closeBody]

mutual

def walk (node : Node ν τ) : List (Event ν τ) :=
  .enter node ::
    (match node with
      | block body => bodyWalk body.length (listWalk body)
      | function _ _ body => bodyWalk body.length (listWalk body)
      | lambda _ body => bodyWalk body.length (listWalk body)
      | guarded _ condition body => condition.walk ++ bodyWalk body.length (listWalk body)
      | loop init condition step body =>
        optionWalk init ++ optionWalk condition ++ optionWalk step ++
          bodyWalk body.length (listWalk body)
      | binding _ value => value.walk
      | assignment _ value => value.walk
      | enumeration _ => []
      | result value => value.walk
      | jump _ => []
      | list elements => listWalk elements
      | access of keys => of.walk ++ listWalk keys
      | unary _ operand => operand.walk
      | binary _ left right => left.walk ++ right.walk
      | leaf _ => []) ++
    [.leave]
termination_by structural node

def listWalk (nodes : List (Node ν τ)) : List (Event ν τ) :=
  match nodes with
  | [] => []
  | node :: nodes => node.walk ++ listWalk nodes
termination_by structural nodes

def optionWalk (node : Option (Node ν τ)) : List (Event ν τ) :=
  match node with
  | none => []
  | some node => node.walk
termination_by structural node

end

end Node

def Program.walk (p : Program) : List (Event String Token) := Node.listWalk p.statements

/-- A mark for each event: the kind of a node or the size of a body, and their ends. -/
def Event.mark : Event ν Token → String
  | enter node => "<" ++ node.kindName
  | leave => ">"
  | openBody size => "[" ++ toString size
  | closeBody => "]"

def Program.trace (p : Program) : String := " ".intercalate (p.walk.map Event.mark)

def Program.bodySizes (p : Program) : List Nat :=
  p.walk.filterMap fun
    | .openBody size => some size
    | _ => none

structure Stats where
  /-- the statements that are in no other -/
  statements : Nat
  nodes : Nat
  /-- the greatest number of nodes that lie within each other -/
  depth : Nat
deriving DecidableEq

/-- The running count of a walk: nodes so far, greatest depth so far, current depth. -/
structure Tally where
  nodes : Nat
  depth : Nat
  current : Nat
deriving DecidableEq

def Tally.count (t : Tally) : Event ν τ → Tally
  | .enter _ => ⟨t.nodes + 1, max t.depth (t.current + 1), t.current + 1⟩
  | .leave => { t with current := t.current - 1 }
  | .openBody _ => t
  | .closeBody => t

def Program.stats (p : Program) : Stats :=
  let tally := p.walk.foldl Tally.count ⟨0, 0, 0⟩
  ⟨p.statements.length, tally.nodes, tally.depth⟩

end BracketScript
