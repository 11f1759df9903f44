import BracketScript.Number.Layout

/-! Documents in the JSON notation, written either without any space or with every member
on a line of its own. The members of an object keep their order. -/
namespace BracketScript

inductive Json where
  | null
  | natural (value : Nat)
  | number (value : Number)
  | string (value : String)
  | array (items : List Json)
  | object (members : List (String × Json))

namespace Json

/-- An object with its type as the first member. -/
def tagged (type : String) (members : List (String × Json)) : Json :=
  object (("type", string type) :: members)

def controlEscape (c : Char) : List Char :=
  ['\\', 'u', '0', '0', Nat.digitChar (c.toNat / 16), Nat.digitChar (c.toNat % 16)]

/-- A character of a string. Only quotation marks, backslashes and controls are escaped. -/
def escapeChar (c : Char) : List Char :=
  if c = '"' ∨ c = '\\' then ['\\', c]
  else if c = '\x08' then ['\\', 'b']
  else if c = '\t' then ['\\', 't']
  else if c = '\n' then ['\\', 'n']
  else if c = '\x0c' then ['\\', 'f']
  else if c = '\r' then ['\\', 'r']
  else if c.toNat < 0x20 then controlEscape c
  else [c]

def quote (s : String) : String :=
  String.ofList ('"' :: s.toList.flatMap escapeChar ++ ['"'])

/-- Infinite and undefined numbers have no notation. -/
def numberText (n : Number) : String :=
  if n.isFinite then n.text .document else "null"

mutual

def compact : Json → String
  | null => "null"
  | natural value => toString value
  | number value => numberText value
  | string value => quote value
  | array items => "[" ++ ",".intercalate (compactItems items) ++ "]"
  | object members => "\x7b" ++ ",".intercalate (compactMembers members) ++ "\x7d"

def compactItems : List Json → List String
  | [] => []
  | item :: items => item.compact :: compactItems items

def compactMembers : List (String × Json) → List String
  | [] => []
  | (name, value) :: members => (quote name ++ ":" ++ value.compact) :: compactMembers members

end

/-- Items are indented below the margin. Without items the brackets stay on one line. -/
def bracketLines (left right margin : String) (lines : List String) : String :=
  if lines.isEmpty then left ++ right
  else left ++ "\n" ++ ",\n".intercalate lines ++ "\n" ++ margin ++ right

mutual

def pretty (margin : String) : Json → String
  | null => "null"
  | natural value => toString value
  | number value => numberText value
  | string value => quote value
  | array items => bracketLines "[" "]" margin (prettyItems (margin ++ "  ") items)
  | object members =>
    bracketLines "\x7b" "\x7d" margin (prettyMembers (margin ++ "  ") members)

def prettyItems (margin : String) : List Json → List String
  | [] => []
  | item :: items => (margin ++ item.pretty margin) :: prettyItems margin items

def prettyMembers (margin : String) : List (String × Json) → List String
  | [] => []
  | (name, value) :: members =>
    (margin ++ quote name ++ ": " ++ value.pretty margin) :: prettyMembers margin members

end

end Json

end BracketScript
