import BracketScript.Lexeme.Pattern
import BracketScript.Token.Kind

/-! The lexical rules of the language, in the order in which they are tried. The first rule
whose pattern is at the start of the text decides the kind of the lexeme. -/
namespace BracketScript

structure Rule where
  kind : Kind
  pattern : Pattern

structure Match where
  kind : Kind
  lexeme : List Char
  rest : List Char

/-- The table of rules, in order of priority. -/
def rules : List Rule :=
  [⟨.comment, .lineComment⟩,
   ⟨.comment, .blockComment⟩,
   ⟨.inc, .exact '+' ['+']⟩,
   ⟨.dec, .exact '-' ['-']⟩,
   ⟨.letWord, .word 'l' ['e', 't']⟩,
   ⟨.enumWord, .word 'e' ['n', 'u', 'm']⟩,
   ⟨.returnWord, .word 'r' ['e', 't', 'u', 'r', 'n']⟩,
   ⟨.lambda, .exact '=' ['>']⟩,
   ⟨.newline, .exact '\n' []⟩,
   ⟨.falseWord, .word 'f' ['a', 'l', 's', 'e']⟩,
   ⟨.trueWord, .word 't' ['r', 'u', 'e']⟩,
   ⟨.comma, .exact ',' []⟩,
   ⟨.semicolon, .exact ';' []⟩,
   ⟨.le, .exact '<' ['=']⟩,
   ⟨.ge, .exact '>' ['=']⟩,
   ⟨.equality, .exact '=' ['=']⟩,
   ⟨.equality, .exact '!' ['=']⟩,
   ⟨.and, .exact '&' ['&']⟩,
   ⟨.or, .exact '|' ['|']⟩,
   ⟨.bang, .exact '!' []⟩,
   ⟨.plus, .exact '+' []⟩,
   ⟨.minus, .exact '-' []⟩,
   ⟨.mult, .exact '*' []⟩,
   ⟨.div, .exact '/' []⟩,
   ⟨.num, .number⟩,
   ⟨.lt, .exact '<' []⟩,
   ⟨.gt, .exact '>' []⟩,
   ⟨.string, .quoted '"'⟩,
   ⟨.string, .quoted '\''⟩,
   ⟨.funcWord, .word 'f' ['n']⟩,
   ⟨.whileWord, .word 'w' ['h', 'i', 'l', 'e']⟩,
   ⟨.forWord, .word 'f' ['o', 'r']⟩,
   ⟨.ifWord, .word 'i' ['f']⟩,
   ⟨.symbol, .name⟩,
   ⟨.leftBracket, .exact '[' []⟩,
   ⟨.rightBracket, .exact ']' []⟩,
   ⟨.assign, .exact '=' []⟩,
   ⟨.period, .exact '.' []⟩]

def Rule.match? (r : Rule) (text : List Char) : Option Match :=
  (r.pattern.split text).map fun (lexeme, rest) => ⟨r.kind, lexeme, rest⟩

/-- The match of the first rule that has one. -/
def firstMatch? (text : List Char) : Option Match := rules.findSome? (·.match? text)

theorem Rule.match?_append {r : Rule} {text : List Char} {m : Match}
    (found : r.match? text = some m) : m.lexeme ++ m.rest = text ∧ m.lexeme ≠ [] := by
  obtain ⟨⟨lexeme, rest⟩, split, same⟩ := Option.map_eq_some_iff.mp found
  cases same
  exact Pattern.split_append split

theorem firstMatch?_append {text : List Char} {m : Match}
    (found : firstMatch? text = some m) : m.lexeme ++ m.rest = text ∧ m.lexeme ≠ [] := by
  obtain ⟨r, _, found⟩ := List.exists_of_findSome?_eq_some found
  exact Rule.match?_append found

/-- Every match makes progress. -/
theorem firstMatch?_rest_length {text : List Char} {m : Match}
    (found : firstMatch? text = some m) : m.rest.length < text.length := by
  obtain ⟨same, nonempty⟩ := firstMatch?_append found
  have := List.length_pos_iff.mpr nonempty
  rw [← same, List.length_append]
  omega

end BracketScript
