import BracketScript.Node

/-! The grammar reads tokens by their cues: the kind, the binary operator that the token
stands for, and whether it is a word that leaves a loop. Nothing else of a token decides how
a program is read. -/
namespace BracketScript

/-- The part of a token that the grammar depends on. -/
structure Cue where
  kind : Kind
  /-- the operator, when the kind is one of operators and the text is one -/
  operator : Option (Tier × BinaryOp)
  jump : Option Jump
deriving DecidableEq

def Cue.eof : Cue := ⟨.eof, none, none⟩

/-- The operator of the cue, if an operand after an operator of the tier belongs to it. -/
def Cue.taking? (c : Cue) (tier : Tier) : Option (Tier × BinaryOp) :=
  c.operator.filter fun next => tier.yieldsTo next.1

def Jump.ofText? : String → Option Jump
  | "break" => some .breakLoop
  | "continue" => some .continueLoop
  | _ => none

/-- One kind may stand for two operators, so the operator is read from the text. -/
def Token.operator? (t : Token) : Option (Tier × BinaryOp) := do
  let tier ← t.kind.tier?
  let op ← BinaryOp.ofLexeme? (← t.text?)
  return (tier, op)

def Token.jump? (t : Token) : Option Jump :=
  if t.kind = .symbol then t.text?.bind Jump.ofText? else none

def Token.cue (t : Token) : Cue := ⟨t.kind, t.operator?, t.jump?⟩

/-- An abstract token type, with the cue and the name of each token. -/
structure Vocabulary (ν τ : Type) where
  cue : τ → Cue
  name : τ → ν

def Token.vocabulary : Vocabulary String Token := ⟨cue, fun t => t.payload.display⟩

end BracketScript
