/-! The kinds of tokens and their names. Names are distinct, so a kind can be looked up by
its name. -/
namespace BracketScript

inductive Kind where
  | comment
  | inc
  | dec
  | letWord
  | enumWord
  | returnWord
  | lambda
  | newline
  | falseWord
  | trueWord
  | comma
  | semicolon
  | bang
  | plus
  | minus
  | mult
  | div
  | num
  | lt
  | gt
  | le
  | ge
  /-- both `==` and `!=`, which their text tells apart -/
  | equality
  | and
  | or
  | string
  | funcWord
  | whileWord
  | forWord
  | ifWord
  | symbol
  | leftBracket
  | rightBracket
  | assign
  | period
  | eof
deriving DecidableEq

namespace Kind

def all : List Kind :=
  [comment, inc, dec, letWord, enumWord, returnWord, lambda, newline, falseWord, trueWord,
   comma, semicolon, bang, plus, minus, mult, div, num, lt, gt, le, ge, equality, and, or,
   string, funcWord, whileWord, forWord, ifWord, symbol, leftBracket, rightBracket, assign,
   period, eof]

/-- The name of a kind in messages, listings and documents. -/
def name : Kind → String
  | comment => "comment"
  | inc => "inc"
  | dec => "dec"
  | letWord => "let"
  | enumWord => "enum"
  | returnWord => "return"
  | lambda => "lambda"
  | newline => "newline"
  | falseWord => "false"
  | trueWord => "true"
  | comma => "comma"
  | semicolon => "semicolon"
  | bang => "bang"
  | plus => "plus"
  | minus => "minus"
  | mult => "mult"
  | div => "div"
  | num => "num"
  | lt => "lt"
  | gt => "gt"
  | le => "le"
  | ge => "ge"
  | equality => "eq"
  | and => "and"
  | or => "or"
  | string => "string"
  | funcWord => "func"
  | whileWord => "while"
  | forWord => "for"
  | ifWord => "if"
  | symbol => "symbol"
  | leftBracket => "l_bracket"
  | rightBracket => "r_bracket"
  | assign => "assign"
  | period => "period"
  | eof => "eof"

/-- The name of a kind in structural dumps. -/
def dumpName : Kind → String
  | comment => "Comment"
  | inc => "Inc"
  | dec => "Dec"
  | letWord => "Let"
  | enumWord => "Enum"
  | returnWord => "Return"
  | lambda => "Lambda"
  | newline => "Newline"
  | falseWord => "False"
  | trueWord => "True"
  | comma => "Comma"
  | semicolon => "Semicolon"
  | bang => "Bang"
  | plus => "Plus"
  | minus => "Minus"
  | mult => "Mult"
  | div => "Div"
  | num => "Num"
  | lt => "Lt"
  | gt => "Gt"
  | le => "Le"
  | ge => "Ge"
  | equality => "Eq"
  | and => "And"
  | or => "Or"
  | string => "Str"
  | funcWord => "Func"
  | whileWord => "While"
  | forWord => "For"
  | ifWord => "If"
  | symbol => "Symbol"
  | leftBracket => "LBracket"
  | rightBracket => "RBracket"
  | assign => "Assign"
  | period => "Period"
  | eof => "Eof"

def ofName? (name : String) : Option Kind := all.find? (·.name == name)

theorem mem_all (k : Kind) : k ∈ all := by cases k <;> decide

theorem name_injective {a b : Kind} (same : a.name = b.name) : a = b := by
  have key : ∀ a ∈ all, ∀ b ∈ all, a.name = b.name → a = b := by decide
  exact key a (mem_all a) b (mem_all b) same

theorem ofName?_eq_some_iff {name : String} {k : Kind} : ofName? name = some k ↔ k.name = name := by
  constructor
  · intro found
    simpa using List.find?_some found
  · rintro rfl
    cases found : ofName? k.name with
    | none => exact absurd (beq_self_eq_true k.name) (List.find?_eq_none.mp found k (mem_all k))
    | some other =>
      have same : other.name = k.name := by simpa using List.find?_some found
      rw [name_injective same]

/-- Newlines and semicolons separate statements. -/
def isSeparator : Kind → Bool
  | newline | semicolon => true
  | _ => false

/-- Numbers, strings, truth values and symbols are operands of a single token. -/
def isLeaf : Kind → Bool
  | num | string | trueWord | falseWord | symbol => true
  | _ => false

end Kind

end BracketScript
