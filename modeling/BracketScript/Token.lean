import BracketScript.Number.Layout
import BracketScript.Report
import BracketScript.Text.Escape
import BracketScript.Token.Kind

/-! A token is a lexeme's kind, its payload and its place. The payload of a number is its
value; every other payload is text. -/
namespace BracketScript

inductive Payload where
  | number (value : Number)
  | text (content : String)
deriving DecidableEq

namespace Payload

def display : Payload → String
  | number value => value.text .plain
  | text content => content

/-- Numbers are compared by value, texts by their characters. -/
def sameAs : Payload → Payload → Bool
  | number a, number b => a.sameValue b
  | text a, text b => a == b
  | _, _ => false

end Payload

structure Token where
  kind : Kind
  payload : Payload
  line : Nat
  col : Nat
  /-- the number of characters of the lexeme -/
  width : Nat
deriving DecidableEq

namespace Token

def position (t : Token) : Position := ⟨t.line, t.col⟩

def ending (t : Token) : Position := ⟨t.line, t.col + t.width⟩

def text? (t : Token) : Option String :=
  match t.payload with
  | .text content => some content
  | .number _ => none

def number? (t : Token) : Option Number :=
  match t.payload with
  | .number value => some value
  | .text _ => none

/-- A token in a message: its kind, and its payload escaped between backquotes. -/
def describe (t : Token) : String :=
  t.kind.name ++ " \x60" ++ Text.escape t.payload.display ++ "\x60"

/-- A token in a listing: its place, its kind and its payload quoted. -/
def listing (t : Token) : String :=
  t.position.text ++ " " ++ t.kind.name ++ " " ++ Text.quote t.payload.display

def sameAs (a b : Token) : Bool :=
  a.kind == b.kind && a.payload.sameAs b.payload && a.line == b.line && a.col == b.col &&
    a.width == b.width

/-- The token for the end, placed where the last one ends, or at the start. -/
def sentinel (ts : List Token) : Token :=
  let position := (ts.getLast?.map ending).getD ⟨1, 1⟩
  ⟨.eof, .text "end", position.line, position.col, 0⟩

end Token

end BracketScript
