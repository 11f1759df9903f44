import BracketScript.Node

/-! Programs are compared part by part. Tokens agree with their places and widths, names by
their characters. -/
namespace BracketScript

namespace Node

mutual

/-- Structural agreement, with tokens compared by `Token.sameAs`. -/
def sameAs : Node String Token → Node String Token → Bool
  | block body, block body' => listSameAs body body'
  | function name parameters body, function name' parameters' body' =>
    name == name' && parameters == parameters' && listSameAs body body'
  | lambda parameters body, lambda parameters' body' =>
    parameters == parameters' && listSameAs body body'
  | guarded guard condition body, guarded guard' condition' body' =>
    guard == guard' && condition.sameAs condition' && listSameAs body body'
  | loop init condition step body, loop init' condition' step' body' =>
    optionSameAs init init' && optionSameAs condition condition' && optionSameAs step step' &&
      listSameAs body body'
  | binding name value, binding name' value' => name == name' && value.sameAs value'
  | assignment target value, assignment target' value' =>
    target.sameAs target' && value.sameAs value'
  | enumeration names, enumeration names' => names == names'
  | result value, result value' => value.sameAs value'
  | jump j, jump j' => j == j'
  | list elements, list elements' => listSameAs elements elements'
  | access of keys, access of' keys' => of.sameAs of' && listSameAs keys keys'
  | unary op operand, unary op' operand' => op == op' && operand.sameAs operand'
  | binary op left right, binary op' left' right' =>
    op == op' && left.sameAs left' && right.sameAs right'
  | leaf token, leaf token' => token.sameAs token'
  | _, _ => false

def listSameAs : List (Node String Token) → List (Node String Token) → Bool
  | [], [] => true
  | node :: nodes, node' :: nodes' => node.sameAs node' && listSameAs nodes nodes'
  | _, _ => false

def optionSameAs : Option (Node String Token) → Option (Node String Token) → Bool
  | none, none => true
  | some node, some node' => node.sameAs node'
  | _, _ => false

end

end Node

def Program.sameAs (p q : Program) : Bool := Node.listSameAs p.statements q.statements

end BracketScript
