import BracketScript.Dump
import BracketScript.Node

/-! The structural dumps of tokens and programs, which show every part of them. -/
namespace BracketScript

def Payload.dump : Payload → Dump
  | .number value => .tuple "Number" [.number value]
  | .text content => .tuple "Text" [.string content]

def Token.dump (t : Token) : Dump :=
  .record "Token"
    [("kind", .plain t.kind.dumpName), ("value", t.payload.dump), ("line", .natural t.line),
     ("col", .natural t.col), ("width", .natural t.width)]

namespace Node

def namesDump (names : List String) : Dump := .list (names.map .string)

def bodyDump (statements : List Dump) : Dump := .record "Block" [("body", .list statements)]

mutual

def dump : Node String Token → Dump
  | block body => .tuple "Block" [bodyDump (listDump body)]
  | function name parameters body =>
    .record "FuncDef"
      [("func_name", .string name), ("parameters", namesDump parameters),
       ("body", bodyDump (listDump body))]
  | lambda parameters body =>
    .record "Lambda" [("parameters", namesDump parameters), ("body", bodyDump (listDump body))]
  | guarded guard condition body =>
    .record guard.dumpName [("cond", condition.dump), ("body", bodyDump (listDump body))]
  | loop init condition step body =>
    .record "For"
      [("init", optionDump init), ("cond", optionDump condition), ("inc", optionDump step),
       ("body", bodyDump (listDump body))]
  | binding name value => .record "InitVar" [("name", .string name), ("exp", value.dump)]
  | assignment target value =>
    .record "Assign" [("var_name", target.dump), ("exp", value.dump)]
  | enumeration names => .record "Enum" [("names", namesDump names)]
  | result value => .record "Return" [("exp", value.dump)]
  | jump j => .plain j.dumpName
  | list elements => .record "List" [("elements", .list (listDump elements))]
  | access of keys => .record "Access" [("of", of.dump), ("args", .list (listDump keys))]
  | unary op operand => .record op.dumpName [(op.operandName, operand.dump)]
  | binary op left right =>
    .record "Binary" [("op", .plain op.dumpName), ("left", left.dump), ("right", right.dump)]
  | leaf token => .tuple "Literal" [token.dump]

def listDump : List (Node String Token) → List Dump
  | [] => []
  | node :: nodes => node.dump :: listDump nodes

def optionDump : Option (Node String Token) → Dump
  | none => .option none
  | some node => .option (some node.dump)

end

end Node

def Program.dump (p : Program) : Dump :=
  .record "Program" [("statements", .list (Node.listDump p.statements))]

end BracketScript
