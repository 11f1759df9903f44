import BracketScript.Lexeme.Rule
import BracketScript.Token

/-! A scanner stands somewhere in a source and gives its tokens one by one. Spaces and
comments are passed over; a character that no rule accepts ends the scan for good. Every
token and every comment shortens the text that is left. -/
namespace BracketScript

def Position.after (p : Position) (c : Char) : Position :=
  if c = '\n' then ⟨p.line + 1, 1⟩ else ⟨p.line, p.col + 1⟩

def byteLength : List Char → Nat
  | [] => 0
  | c :: cs => c.utf8Size + byteLength cs

/-- No lexeme starts with this character. -/
structure LexError where
  /-- the number of bytes before the character -/
  offset : Nat
  position : Position
  found : Char
deriving DecidableEq

namespace LexError

def reason (e : LexError) : String := "unexpected character " ++ Text.quoteChar e.found

def message (e : LexError) : String :=
  "no rule matches at position " ++ toString e.offset ++ ": " ++ e.reason

def fault (e : LexError) : Fault := ⟨e.reason, e.position⟩

end LexError

/-- The payload of a lexeme: the value of a number, a string without its quotation marks,
and otherwise the lexeme. -/
def Payload.ofLexeme? (kind : Kind) (lexeme : List Char) : Option Payload :=
  match kind with
  | .num => (Decimal.ofChars? lexeme).map fun d => .number d.toNumber
  | .string => some (.text (String.ofList lexeme.tail.dropLast))
  | _ => some (.text (String.ofList lexeme))

structure Scanner where
  rest : List Char
  offset : Nat
  position : Position

namespace Scanner

def ofSource (source : Source) : Scanner := ⟨source.trimmed.toList, 0, ⟨1, 1⟩⟩

/-- Moves over characters to the given rest. -/
def pass (s : Scanner) (cs rest : List Char) : Scanner :=
  ⟨rest, s.offset + byteLength cs, cs.foldl Position.after s.position⟩

def skipSpaces (s : Scanner) : Scanner :=
  s.pass (s.rest.takeWhile (· == ' ')) (s.rest.dropWhile (· == ' '))

/-- Nothing is read after an error. -/
def stop (s : Scanner) : Scanner := { s with rest := [] }

def error (s : Scanner) (found : Char) : LexError := ⟨s.offset, s.position, found⟩

theorem skipSpaces_rest_length (s : Scanner) : s.skipSpaces.rest.length ≤ s.rest.length := by
  have := congrArg List.length (List.takeWhile_append_dropWhile (p := (· == ' ')) (l := s.rest))
  rw [List.length_append] at this
  simp only [skipSpaces, pass]
  omega

/-- The token of a match, if its payload can be read. -/
def token? (s : Scanner) (m : Match) : Option Token :=
  (Payload.ofLexeme? m.kind m.lexeme).map fun payload =>
    ⟨m.kind, payload, s.position.line, s.position.col, m.lexeme.length⟩

/-- The next token, the error, or nothing at the end, with the scanner behind it. -/
def next (s : Scanner) : Option (Except LexError Token) × Scanner :=
  match s.skipSpaces.rest with
  | [] => (none, s.skipSpaces)
  | c :: _ =>
    match _found : firstMatch? s.skipSpaces.rest with
    | none => (some (.error (s.skipSpaces.error c)), s.skipSpaces.stop)
    | some m =>
      if m.kind = .comment then (s.skipSpaces.pass m.lexeme m.rest).next
      else
        match s.skipSpaces.token? m with
        | none => (some (.error (s.skipSpaces.error c)), s.skipSpaces.stop)
        | some t => (some (.ok t), s.skipSpaces.pass m.lexeme m.rest)
termination_by s.rest.length
decreasing_by
  have := skipSpaces_rest_length s
  have := firstMatch?_rest_length _found
  simp only [pass]
  omega

theorem next_rest_length {s behind : Scanner} {t : Token}
    (found : s.next = (some (.ok t), behind)) : behind.rest.length < s.rest.length := by
  fun_induction next s with
  | case1 => simp at found
  | case2 => simp at found
  | case3 s c cs _ m matched _ ih =>
    have := skipSpaces_rest_length s
    have := firstMatch?_rest_length matched
    have := ih found
    simp only [pass] at this
    omega
  | case4 => simp at found
  | case5 s c cs _ m matched _ t' _ =>
    have := skipSpaces_rest_length s
    have := firstMatch?_rest_length matched
    simp only [Prod.mk.injEq] at found
    rw [← found.2]
    simp only [pass]
    omega

def tokens (s : Scanner) : Except LexError (List Token) :=
  match _found : s.next with
  | (none, _) => .ok []
  | (some (.error e), _) => .error e
  | (some (.ok t), behind) => behind.tokens.map (t :: ·)
termination_by s.rest.length
decreasing_by exact next_rest_length _found

end Scanner

def tokenize (source : Source) : Except LexError (List Token) :=
  (Scanner.ofSource source).tokens

end BracketScript
