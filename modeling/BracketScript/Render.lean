import BracketScript.Node.Document
import BracketScript.Node.Dump
import BracketScript.Node.Outline
import BracketScript.Node.Walk
import BracketScript.Reader
import BracketScript.Text.Blank

/-! Rendering shows the tokens or the program of a source in one of three formats, or a
report when the source cannot be read. Notes on the way count what has been read. -/
namespace BracketScript

inductive Emit where
  | ast
  | tokens
deriving DecidableEq

inductive Format where
  | json
  | tree
  | debug
deriving DecidableEq

/-- Tokens as an array, as a listing of one line each, or as a dump. -/
def renderTokens (ts : List Token) : Format → String
  | .json => (Json.array (ts.map Token.json)).pretty ""
  | .tree => "\n".intercalate (ts.map Token.listing)
  | .debug => (Dump.list (ts.map Token.dump)).pretty ""

/-- A program as a document, as an outline without the last line break, or as a dump. -/
def renderProgram (p : Program) : Format → String
  | .json => p.json.pretty ""
  | .tree => String.ofList (Text.trimBlanks p.tree.toList)
  | .debug => p.dump.pretty ""

structure Rendering where
  notes : List String
  outcome : Except String String

def tokensNote (source : Source) (ts : List Token) : String :=
  source.name ++ ": " ++ toString ts.length ++ " tokens"

def programNote (source : Source) (p : Program) : String :=
  source.name ++ ": " ++ toString p.stats.statements ++ " statements, " ++
    toString p.stats.nodes ++ " nodes, depth " ++ toString p.stats.depth

def render (source : Source) (emit : Emit) (format : Format) : Rendering :=
  match tokenize source with
  | .error e => ⟨[], .error (report .plain source e.fault)⟩
  | .ok ts =>
    match emit with
    | .tokens => ⟨[tokensNote source ts], .ok (renderTokens ts format)⟩
    | .ast =>
      match parse ts with
      | .error e => ⟨[tokensNote source ts], .error (report .plain source e.fault)⟩
      | .ok p => ⟨[tokensNote source ts, programNote source p], .ok (renderProgram p format)⟩

end BracketScript
