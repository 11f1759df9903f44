import BracketScript.Grammar.Run
import BracketScript.Scanner

/-! A reader stands somewhere in a list of tokens and reads phrases of the grammar from
there. It keeps its place when a phrase cannot be read: at the token that did not fit. -/
namespace BracketScript

/-- The first token that does not fit, and what was expected instead. -/
structure ParseError where
  expected : Expected
  found : Token
deriving DecidableEq

def Expected.name : Expected → String
  | .kind k => k.name
  | .expression => "expression"

namespace ParseError

def message (e : ParseError) : String :=
  "expected " ++ e.expected.name ++ " at " ++ e.found.position.text ++ ", got " ++
    e.found.describe

/-- The message leaves the place to the report. -/
def fault (e : ParseError) : Fault :=
  ⟨"expected " ++ e.expected.name ++ ", got " ++ e.found.describe, e.found.position⟩

end ParseError

/-- The tokens left, and the token that stands for the end. -/
structure Reader where
  rest : List Token
  sentinel : Token

namespace Reader

def ofTokens (ts : List Token) : Reader := ⟨ts, .sentinel ts⟩

def current (r : Reader) : Token := r.rest.head?.getD r.sentinel

def peek (r : Reader) : Token := r.rest.tail.head?.getD r.sentinel

def advance (r : Reader) : Reader := { r with rest := r.rest.tail }

def error (r : Reader) (expected : Expected) : ParseError := ⟨expected, r.current⟩

def expect (r : Reader) (kind : Kind) : Except ParseError Token × Reader :=
  if r.current.kind = kind then (.ok r.current, r.advance) else (.error (r.error (.kind kind)), r)

def read (r : Reader) (config : Config String Token) :
    Except ParseError (List (Node String Token)) × Reader :=
  let (result, rest) := config.run Token.vocabulary r.rest
  let behind := { r with rest }
  (result.mapError behind.error, behind)

/-- Reads an expression, or none where none starts. -/
def expression? (r : Reader) : Except ParseError (Option (Node String Token)) × Reader :=
  let (result, behind) := r.read .expression
  (result.map List.head?, behind)

def expression (r : Reader) : Except ParseError (Node String Token) × Reader :=
  match r.expression? with
  | (.ok (some node), behind) => (.ok node, behind)
  | (.ok none, behind) => (.error (behind.error .expression), behind)
  | (.error e, behind) => (.error e, behind)

def statement? (r : Reader) : Except ParseError (Option (Node String Token)) × Reader :=
  let (result, behind) := r.read .statement
  (result.map List.head?, behind)

def block (r : Reader) : Except ParseError (Option (Node String Token)) × Reader :=
  let (result, behind) := r.read .block
  (result.map List.head?, behind)

/-- Reads to the end of the tokens and passes it. -/
def program (r : Reader) : Except ParseError Program × Reader :=
  match r.read .program with
  | (.ok statements, behind) => (.ok ⟨statements⟩, behind.advance)
  | (.error e, behind) => (.error e, behind)

end Reader

def parse (ts : List Token) : Except ParseError Program := (Reader.ofTokens ts).program.1

inductive Failure where
  | lexical (error : LexError)
  | grammatical (error : ParseError)
deriving DecidableEq

def Failure.fault : Failure → Fault
  | lexical e => e.fault
  | grammatical e => e.fault

def parseSource (source : Source) : Except Failure Program := do
  let ts ← (tokenize source).mapError .lexical
  (parse ts).mapError .grammatical

end BracketScript
