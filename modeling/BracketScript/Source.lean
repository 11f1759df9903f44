/-! A source is a named text. Lines and columns count from one, columns in characters.
The text that is scanned leaves out one line break at the end; the lines that reports show
are those of the whole text. -/
namespace BracketScript

/-- A line and a column, both counted from one. -/
structure Position where
  line : Nat
  col : Nat
deriving DecidableEq

namespace Position

def before (a b : Position) : Bool :=
  a.line < b.line || a.line == b.line && a.col < b.col

def atMost (a b : Position) : Bool :=
  a.line < b.line || a.line == b.line && a.col ≤ b.col

def text (p : Position) : String := toString p.line ++ ":" ++ toString p.col

end Position

/-- Removes a single line break, with or without a carriage return, from the end. -/
def dropFinalBreak : List Char → List Char
  | [] => []
  | ['\n'] => []
  | ['\r', '\n'] => []
  | c :: cs => c :: dropFinalBreak cs

/-- Removes a single carriage return from the end. -/
def dropFinalReturn : List Char → List Char
  | [] => []
  | ['\r'] => []
  | c :: cs => c :: dropFinalReturn cs

/-- The line with the given number of line breaks before it, when there are so many. -/
def lineAfter : Nat → List Char → Option (List Char)
  | 0, cs => some (cs.takeWhile (· != '\n'))
  | breaks + 1, cs =>
    match cs.dropWhile (· != '\n') with
    | [] => none
    | _ :: rest => lineAfter breaks rest

structure Source where
  name : String
  content : String

namespace Source

def ofContent (content : String) : Source := ⟨"<input>", content⟩

def trimmed (s : Source) : String := String.ofList (dropFinalBreak s.content.toList)

def line? (s : Source) : Nat → Option String
  | 0 => none
  | breaks + 1 =>
    (lineAfter breaks s.content.toList).map fun cs => String.ofList (dropFinalReturn cs)

end Source

end BracketScript
