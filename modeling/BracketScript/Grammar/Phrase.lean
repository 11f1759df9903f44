import BracketScript.Grammar.Cue

/-! The state of reading. Phrases that have been begun are kept on a stack, the innermost
first, each as a frame that waits for a node; the focus says what the next token is for. -/
namespace BracketScript

variable (ν τ : Type)

/-- A phrase that lacks a single node. -/
inductive Wrapper where
  | unary (op : UnaryOp)
  | key (of : Node ν τ)
  | binding (name : ν)
  | assignment (target : τ)
  | result

/-- A phrase that lacks its body. -/
inductive Header where
  | block
  | function (name : ν) (parameters : List ν)
  | lambda (parameters : List ν)
  | guarded (guard : Guard) (condition : Node ν τ)
  | loop (init condition step : Option (Node ν τ))

/-- An unfinished phrase that waits for a node. -/
inductive Frame where
  | wrap (wrapper : Wrapper ν τ)
  | binary (tier : Tier) (op : BinaryOp) (left : Node ν τ)
  | expression
  | list (before : List (Node ν τ))
  | condition (guard : Guard)
  | loopInit
  | loopCondition (init : Option (Node ν τ))
  | loopStep (init condition : Option (Node ν τ))
  | body (header : Header ν τ) (before : List (Node ν τ))
  | program (before : List (Node ν τ))

/-- What the next token is for. The owner of parameters is the name of a function, or none for a
lambda. -/
inductive Focus where
  | statement
  | operand
  /-- an atom must start; `bangs` says whether behind more exclamation marks -/
  | atom (bangs : Bool)
  | symbol (token : τ) (jump : Option Jump)
  /-- an operand of one token, perhaps with a step operator behind it -/
  | leaf (token : τ)
  /-- a node that may be accessed -/
  | primary (node : Node ν τ)
  | whole (node : Node ν τ)
  | await (kind : Kind) (next : Focus)
  | functionName
  | bindingName
  /-- a parameter or the end of the parameters -/
  | parameterFirst (owner : Option ν)
  | parameterNext (owner : Option ν) (before : List ν)
  | parameterEnd (owner : Option ν) (before : List ν)
  /-- separators, a name, or the end when there is a name already -/
  | enumGap (names : List ν)
  | enumEnd (names : List ν)

structure Config where
  focus : Focus ν τ
  frames : List (Frame ν τ)

inductive Expected where
  | kind (kind : Kind)
  | expression
deriving DecidableEq

inductive Move where
  | shift (next : τ → Config ν τ)
  | accept (nodes : List (Node ν τ))
  | reject (expected : Expected)

variable {ν τ}

def Wrapper.node : Wrapper ν τ → Node ν τ → Node ν τ
  | unary op, n => .unary op n
  | key of, n => .access of [n]
  | binding name, n => .binding name n
  | assignment target, n => .assignment target n
  | result, n => .result n

def Header.node : Header ν τ → List (Node ν τ) → Node ν τ
  | block, body => .block body
  | function name parameters, body => .function name parameters body
  | lambda parameters, body => .lambda parameters body
  | guarded guard condition, body => .guarded guard condition body
  | loop init condition step, body => .loop init condition step body

/-- After its body a lambda may be accessed. The other phrases are complete. -/
def Header.close (h : Header ν τ) (body : List (Node ν τ)) : Focus ν τ :=
  match h with
  | lambda _ => .primary (h.node body)
  | _ => .whole (h.node body)

def Header.ofParameters (owner : Option ν) (parameters : List ν) : Header ν τ :=
  match owner with
  | some name => .function name parameters
  | none => .lambda parameters

end BracketScript
