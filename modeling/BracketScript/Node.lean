import BracketScript.Operator
import BracketScript.Token

/-! The trees that programs are read into. A node holds names, of type `ν`, where only the
name matters, and tokens, of type `τ`, where their place is kept. -/
namespace BracketScript

inductive Guard where
  | ifTrue
  | whileTrue
deriving DecidableEq

inductive Jump where
  | breakLoop
  | continueLoop
deriving DecidableEq

inductive Node (ν τ : Type) where
  | block (body : List (Node ν τ))
  | function (name : ν) (parameters : List ν) (body : List (Node ν τ))
  | lambda (parameters : List ν) (body : List (Node ν τ))
  | guarded (guard : Guard) (condition : Node ν τ) (body : List (Node ν τ))
  | loop (init condition step : Option (Node ν τ)) (body : List (Node ν τ))
  | binding (name : ν) (value : Node ν τ)
  | assignment (target : τ) (value : Node ν τ)
  | enumeration (names : List ν)
  | result (value : Node ν τ)
  | jump (jump : Jump)
  | list (elements : List (Node ν τ))
  /-- access by keys behind a period or between brackets -/
  | access (of : Node ν τ) (keys : List (Node ν τ))
  | unary (op : UnaryOp) (operand : Node ν τ)
  | binary (op : BinaryOp) (left right : Node ν τ)
  /-- a number, a string, a truth value or a symbol -/
  | leaf (token : τ)

structure Program where
  statements : List (Node String Token)

def Guard.name : Guard → String
  | .ifTrue => "if_s"
  | .whileTrue => "while_s"

def Guard.dumpName : Guard → String
  | .ifTrue => "If"
  | .whileTrue => "While"

def Jump.name : Jump → String
  | .breakLoop => "break"
  | .continueLoop => "continue"

def Jump.dumpName : Jump → String
  | .breakLoop => "Break"
  | .continueLoop => "Continue"

namespace Node

/-- The name in documents and listings. Operators and leaves go by their own kinds. -/
def kindName {ν : Type} : Node ν Token → String
  | block _ => "block"
  | function .. => "func_def"
  | lambda .. => "lambda"
  | guarded guard .. => guard.name
  | loop .. => "for_s"
  | binding .. => "init_var"
  | assignment .. => "assign"
  | enumeration _ => "enum"
  | result _ => "return"
  | jump j => j.name
  | list _ => "list"
  | access .. => "access"
  | unary op _ => op.name
  | binary op .. => op.lexeme
  | leaf token => token.kind.name

end Node

end BracketScript
