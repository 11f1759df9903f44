import BracketScript.Source

/-! A report shows a fault to the writer of a source: the message, the place, and where the
source has the line, that line with a caret under the column. -/
namespace BracketScript

structure Fault where
  message : String
  position : Position
deriving DecidableEq

/-- The styles of a report. -/
structure Paint where
  /-- around the word that opens the report and the caret -/
  alarm : String → String
  /-- around the arrow and the gutter -/
  frame : String → String
  /-- around the message -/
  strong : String → String

namespace Paint

def plain : Paint := ⟨id, id, id⟩

/-- Terminal control sequences: bold red, bold blue and bold. -/
def terminal : Paint where
  alarm s := "\x1b[31m\x1b[1m" ++ s ++ "\x1b[0m"
  frame s := "\x1b[34m\x1b[1m" ++ s ++ "\x1b[0m"
  strong s := "\x1b[1m" ++ s ++ "\x1b[0m"

end Paint

def spaces (count : Nat) : String := String.ofList (List.replicate count ' ')

def reportHeader (paint : Paint) (source : Source) (fault : Fault) : String :=
  paint.alarm "error" ++ ": " ++ paint.strong fault.message ++ "\n" ++
    " " ++ paint.frame "-->" ++ " " ++ source.name ++ ":" ++ fault.position.text ++ "\n"

/-- A line of the source under its number, and a caret under one of its columns. -/
def reportExcerpt (paint : Paint) (position : Position) (line : String) : String :=
  let number := toString position.line
  let margin := spaces number.length
  let bar := paint.frame "|"
  margin ++ " " ++ bar ++ "\n" ++
    paint.frame number ++ " " ++ bar ++ " " ++ line ++ "\n" ++
    margin ++ " " ++ bar ++ " " ++ spaces (position.col - 1) ++ paint.alarm "^" ++ "\n"

def report (paint : Paint) (source : Source) (fault : Fault) : String :=
  reportHeader paint source fault ++
    ((source.line? fault.position.line).map (reportExcerpt paint fault.position)).getD ""

end BracketScript
