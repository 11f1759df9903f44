import BracketScript.Token.Kind

/-! The operators of the language. Binary operators stand in six tiers, from the loosest to
the tightest; all group to the left but the comparisons, which group to the right. -/
namespace BracketScript

inductive BinaryOp where
  | add
  | sub
  | mul
  | div
  | lt
  | gt
  | le
  | ge
  | eq
  | ne
  | and
  | or
deriving DecidableEq

namespace BinaryOp

def all : List BinaryOp := [add, sub, mul, div, lt, gt, le, ge, eq, ne, and, or]

def lexeme : BinaryOp → String
  | add => "+"
  | sub => "-"
  | mul => "*"
  | div => "/"
  | lt => "<"
  | gt => ">"
  | le => "<="
  | ge => ">="
  | eq => "=="
  | ne => "!="
  | and => "&&"
  | or => "||"

def dumpName : BinaryOp → String
  | add => "Add"
  | sub => "Sub"
  | mul => "Mul"
  | div => "Div"
  | lt => "Lt"
  | gt => "Gt"
  | le => "Le"
  | ge => "Ge"
  | eq => "Eq"
  | ne => "Ne"
  | and => "And"
  | or => "Or"

def ofLexeme? (text : String) : Option BinaryOp := all.find? (·.lexeme == text)

theorem ofLexeme?_lexeme (op : BinaryOp) : ofLexeme? op.lexeme = some op := by
  cases op <;> decide

end BinaryOp

inductive Tier where
  | or
  | and
  | equality
  | comparison
  | sum
  | product
deriving DecidableEq

namespace Tier

/-- Tighter tiers have higher levels. -/
def level : Tier → Nat
  | or => 1
  | and => 2
  | equality => 3
  | comparison => 4
  | sum => 5
  | product => 6

/-- Whether equal operators group to the right. -/
def groupsRight : Tier → Bool
  | comparison => true
  | _ => false

/-- Whether an operand between two operators belongs to the second one. -/
def yieldsTo (first second : Tier) : Bool :=
  first.level < second.level || first == second && first.groupsRight

end Tier

def Kind.tier? : Kind → Option Tier
  | .or => some .or
  | .and => some .and
  | .equality => some .equality
  | .lt | .le | .gt | .ge => some .comparison
  | .plus | .minus => some .sum
  | .mult | .div => some .product
  | _ => none

inductive UnaryOp where
  | negative
  | bang
  | preInc
  | preDec
  | postInc
  | postDec
deriving DecidableEq

namespace UnaryOp

def name : UnaryOp → String
  | negative => "negative"
  | bang => "bang"
  | preInc => "pre_inc"
  | preDec => "pre_dec"
  | postInc => "post_inc"
  | postDec => "post_dec"

def dumpName : UnaryOp → String
  | negative => "Negative"
  | bang => "Bang"
  | preInc => "PreInc"
  | preDec => "PreDec"
  | postInc => "PostInc"
  | postDec => "PostDec"

/-- The name of the operand: it is on the right of a sign and on the left of a step. -/
def operandName : UnaryOp → String
  | negative | bang => "right"
  | preInc | preDec | postInc | postDec => "left"

end UnaryOp

end BracketScript
