import BracketScript.Number.Layout
import BracketScript.Text.Escape

/-! A structural dump shows a value as it is built, by the names of its constructors and
fields, either on one line or with a line for every part. -/
namespace BracketScript

inductive Dump where
  | plain (text : String)
  | record (name : String) (fields : List (String × Dump))
  | tuple (name : String) (parts : List Dump)
  | list (items : List Dump)

namespace Dump

def natural (value : Nat) : Dump := plain (toString value)

def number (value : Number) : Dump := plain (value.text .dump)

def string (value : String) : Dump := plain (Text.quote value)

def option : Option Dump → Dump
  | none => plain "None"
  | some value => tuple "Some" [value]

mutual

def inline : Dump → String
  | plain text => text
  | record name fields => name ++ " \x7b " ++ ", ".intercalate (inlineFields fields) ++ " \x7d"
  | tuple name parts => name ++ "(" ++ ", ".intercalate (inlineItems parts) ++ ")"
  | list items => "[" ++ ", ".intercalate (inlineItems items) ++ "]"

def inlineItems : List Dump → List String
  | [] => []
  | item :: items => item.inline :: inlineItems items

def inlineFields : List (String × Dump) → List String
  | [] => []
  | (name, value) :: fields => (name ++ ": " ++ value.inline) :: inlineFields fields

end

/-- Lines between brackets, each ended by a comma. -/
def bracketLines (left right margin : String) (lines : List String) : String :=
  if lines.isEmpty then left ++ right
  else left ++ "\n" ++ String.join (lines.map (· ++ ",\n")) ++ margin ++ right

mutual

def pretty (margin : String) : Dump → String
  | plain text => text
  | record name fields =>
    bracketLines (name ++ " \x7b") "\x7d" margin (prettyFields (margin ++ "    ") fields)
  | tuple name parts =>
    bracketLines (name ++ "(") ")" margin (prettyItems (margin ++ "    ") parts)
  | list items => bracketLines "[" "]" margin (prettyItems (margin ++ "    ") items)

def prettyItems (margin : String) : List Dump → List String
  | [] => []
  | item :: items => (margin ++ item.pretty margin) :: prettyItems margin items

def prettyFields (margin : String) : List (String × Dump) → List String
  | [] => []
  | (name, value) :: fields =>
    (margin ++ name ++ ": " ++ value.pretty margin) :: prettyFields margin fields

end

end Dump

end BracketScript
