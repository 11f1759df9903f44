import BracketScript.Text.GraphemeExtension
import BracketScript.Text.Unprintable

/-! Escaped text shows every character visibly. The usual controls have short names, a
backslash and the chosen quotation marks stand behind a backslash, and what cannot be seen
on its own is written by its code point. -/
namespace BracketScript.Text

/-- A character by its code point in lower case hexadecimal, as in `\u{301}`. -/
def codePointEscape (c : Char) : List Char :=
  ['\\', 'u', '\x7b'] ++ Nat.toDigits 16 c.toNat ++ ['\x7d']

/-- One escaped character. The quotation marks in `marks` are escaped; `extensions` says
whether a grapheme extender is. -/
def escapeChar (marks : List Char) (extensions : Bool) (c : Char) : List Char :=
  if c = '\x00' then ['\\', '0']
  else if c = '\t' then ['\\', 't']
  else if c = '\r' then ['\\', 'r']
  else if c = '\n' then ['\\', 'n']
  else if c = '\\' ∨ c ∈ marks then ['\\', c]
  else if (extensions && isGraphemeExtension c) || isUnprintable c then codePointEscape c
  else [c]

def quote (s : String) : String :=
  String.ofList ('"' :: s.toList.flatMap (escapeChar ['"'] true) ++ ['"'])

def quoteChar (c : Char) : String :=
  String.ofList ('\'' :: escapeChar ['\''] true c ++ ['\''])

/-- An escaped text without quotation marks around it. A grapheme extender is escaped only
where it has no character before it. -/
def escape (s : String) : String :=
  String.ofList <|
    match s.toList with
    | [] => []
    | c :: cs => escapeChar ['"', '\''] true c ++ cs.flatMap (escapeChar ['"', '\''] false)

end BracketScript.Text
