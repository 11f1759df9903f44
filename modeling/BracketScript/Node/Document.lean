import BracketScript.Json
import BracketScript.Node

/-! The documents of tokens and programs. Every node is an object whose type is the name of
the node; the place of a token is kept, its width is not. -/
namespace BracketScript

def Payload.json : Payload → Json
  | .number value => .number value
  | .text content => .string content

def Token.json (t : Token) : Json :=
  .object
    [("kind", .string t.kind.name), ("value", t.payload.json), ("line", .natural t.line),
     ("col", .natural t.col)]

/-- A leaf, with the kind of its token as the type. -/
def Token.leafJson (t : Token) : Json :=
  .tagged t.kind.name
    [("value", t.payload.json), ("line", .natural t.line), ("col", .natural t.col)]

namespace Node

def namesJson (names : List String) : Json := .array (names.map .string)

def bodyJson (statements : List Json) : Json := .tagged "block" [("body", .array statements)]

mutual

def json : Node String Token → Json
  | block body => bodyJson (listJson body)
  | function name parameters body =>
    .tagged "func_def"
      [("func_name", .string name), ("parameters", namesJson parameters),
       ("body", bodyJson (listJson body))]
  | lambda parameters body =>
    .tagged "lambda" [("parameters", namesJson parameters), ("body", bodyJson (listJson body))]
  | guarded guard condition body =>
    .tagged guard.name [("cond", condition.json), ("body", bodyJson (listJson body))]
  | loop init condition step body =>
    .tagged "for_s"
      [("init", optionJson init), ("cond", optionJson condition), ("inc", optionJson step),
       ("body", bodyJson (listJson body))]
  | binding name value => .tagged "init_var" [("name", .string name), ("exp", value.json)]
  | assignment target value =>
    .tagged "assign" [("var_name", target.leafJson), ("exp", value.json)]
  | enumeration names => .tagged "enum" [("names", namesJson names)]
  | result value => .tagged "return" [("exp", value.json)]
  | jump j => .tagged j.name []
  | list elements => .tagged "list" [("elements", .array (listJson elements))]
  | access of keys => .tagged "access" [("of", of.json), ("args", .array (listJson keys))]
  | unary op operand => .tagged op.name [(op.operandName, operand.json)]
  | binary op left right => .tagged op.lexeme [("left", left.json), ("right", right.json)]
  | leaf token => token.leafJson

def listJson : List (Node String Token) → List Json
  | [] => []
  | node :: nodes => node.json :: listJson nodes

/-- Absent parts are written as null. -/
def optionJson : Option (Node String Token) → Json
  | none => .null
  | some node => node.json

end

end Node

def Program.json (p : Program) : Json :=
  .tagged "program" [("statements", .array (Node.listJson p.statements))]

end BracketScript
