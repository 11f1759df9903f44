import BracketScript.Text.CodeRanges

/-! Blank characters are those with the property White_Space. Trimming a text removes the
blank characters at its end. -/
namespace BracketScript.Text

/-- The characters with the property White_Space. -/
def blankRanges : CodeRanges :=
  [(0x9, 0xd), (0x20, 0x20), (0x85, 0x85), (0xa0, 0xa0), (0x1680, 0x1680), (0x2000, 0x200a),
   (0x2028, 0x2029), (0x202f, 0x202f), (0x205f, 0x205f), (0x3000, 0x3000)]

def isBlank (c : Char) : Bool :=
  blankRanges.covers c

def trimBlanks (cs : List Char) : List Char :=
  (cs.reverse.dropWhile isBlank).reverse

end BracketScript.Text
