import BracketScript.Proofs.Closing
import BracketScript.Proofs.Gap
import BracketScript.Proofs.Rounding

/-! Nothing of a text is lost when it is scanned: it is gaps and lexemes in turn, and every
token tells how its lexeme is written. Spellings are described apart from the rules. -/
namespace BracketScript

/-- The spellings of kinds that have finitely many. -/
def Kind.spellings : Kind → List String
  | inc => ["++"]
  | dec => ["--"]
  | letWord => ["let"]
  | enumWord => ["enum"]
  | returnWord => ["return"]
  | lambda => ["=>"]
  | newline => ["\n"]
  | falseWord => ["false"]
  | trueWord => ["true"]
  | comma => [","]
  | semicolon => [";"]
  | bang => ["!"]
  | plus => ["+"]
  | minus => ["-"]
  | mult => ["*"]
  | div => ["/"]
  | lt => ["<"]
  | gt => [">"]
  | le => ["<="]
  | ge => [">="]
  | equality => ["==", "!="]
  | and => ["&&"]
  | or => ["||"]
  | funcWord => ["fn"]
  | whileWord => ["while"]
  | forWord => ["for"]
  | ifWord => ["if"]
  | leftBracket => ["["]
  | rightBracket => ["]"]
  | assign => ["="]
  | period => ["."]
  | comment | num | string | symbol | eof => []

/-- The lexemes of each kind with their payloads, independent of the rules. -/
inductive Spelling : Kind → Payload → List Char → Prop where
  | fixed {kind : Kind} {text : String} : text ∈ kind.spellings →
      Spelling kind (.text text) text.toList
  | name {cs : List Char} : cs ≠ [] → (∀ c ∈ cs, c.isAlpha ∨ c = '_') →
      Spelling .symbol (.text (.ofList cs)) cs
  | quoted {mark : Char} {cs : List Char} : IsQuotationMark mark → '\n' ∉ cs → Escaped mark cs →
      Spelling .string (.text (.ofList cs)) (mark :: (cs ++ [mark]))
  | whole {cs : List Char} {n : Number} : cs ≠ [] → (∀ c ∈ cs, c.isDigit) →
      n.IsNearest (Decimal.mk (Decimal.digitsValue cs) 0).value →
      Spelling .num (.number n) cs
  /-- with a point, and as many places behind it as the exponent says -/
  | places {cs ds : List Char} {n : Number} : cs ≠ [] → (∀ c ∈ cs, c.isDigit) →
      (∀ d ∈ ds, d.isDigit) →
      n.IsNearest (Decimal.mk (Decimal.digitsValue (cs ++ ds)) (-ds.length)).value →
      Spelling .num (.number n) (cs ++ '.' :: ds)

/-- The text is a sequence of gaps and of lexemes, one for each token, with a gap at the end. -/
inductive Layout : List Token → List Char → Prop where
  | finish {gap : List Char} : Gap gap [] → Layout [] gap
  | token {gap lexeme rest : List Char} {t : Token} {ts : List Token} :
      Gap gap (lexeme ++ rest) → lexeme ≠ [] → Spelling t.kind t.payload lexeme →
      t.width = lexeme.length → Layout ts rest → Layout (t :: ts) (gap ++ (lexeme ++ rest))

namespace Spelling

theorem of_fixed {kind : Kind} {payload : Payload} {lexeme : List Char}
    (member : String.ofList lexeme ∈ kind.spellings)
    (read : Payload.ofLexeme? kind lexeme = some payload) : Spelling kind payload lexeme := by
  have spelled := Spelling.fixed member
  rw [String.toList_ofList] at spelled
  cases kind with
  | num | string | comment | symbol | eof => cases member
  | _ => cases read; exact spelled

/-- No lexeme spells a comment or the end. -/
theorem kind_ne {kind : Kind} {payload : Payload} {lexeme : List Char}
    (spelled : Spelling kind payload lexeme) : kind ≠ .comment ∧ kind ≠ .eof := by
  cases spelled with
  | fixed member =>
    constructor
    all_goals
      rintro rfl
      cases member
  | _ => simp

end Spelling

namespace Pattern

theorem splitNumber_cases {cs lexeme rest : List Char}
    (found : splitNumber cs = some (lexeme, rest)) :
    ∃ whole, whole ≠ [] ∧ (∀ c ∈ whole, c.isDigit) ∧
      (lexeme = whole ∨ ∃ places, (∀ c ∈ places, c.isDigit) ∧ lexeme = whole ++ '.' :: places) := by
  have digits (cs : List Char) : ∀ c ∈ cs.takeWhile Char.isDigit, c.isDigit :=
    List.all_eq_true.mp List.all_takeWhile
  simp only [splitNumber] at found
  split at found
  · cases found
  · next nonempty =>
    refine ⟨cs.takeWhile Char.isDigit, nonempty, digits cs, ?_⟩
    split at found
    · next tail _ =>
      cases found
      exact .inr ⟨tail.takeWhile Char.isDigit, digits tail, rfl⟩
    · cases found
      exact .inl rfl

end Pattern

namespace Decimal

theorem ofChars?_whole {cs : List Char} (nonempty : cs ≠ []) (digits : ∀ c ∈ cs, c.isDigit) :
    ofChars? cs = some ⟨digitsValue cs, 0⟩ := by
  have taken : (cs ++ []).takeWhile Char.isDigit = cs ++ [] :=
    List.takeWhile_append_of_pos digits
  have dropped : (cs ++ []).dropWhile Char.isDigit = [] := List.dropWhile_append_of_pos digits
  rw [List.append_nil] at taken dropped
  simp [ofChars?, taken, dropped, nonempty]

theorem ofChars?_places {cs ds : List Char} (nonempty : cs ≠ []) (whole : ∀ c ∈ cs, c.isDigit)
    (places : ∀ d ∈ ds, d.isDigit) :
    ofChars? (cs ++ '.' :: ds) = some ⟨digitsValue (cs ++ ds), -ds.length⟩ := by
  have point : ('.' :: ds).takeWhile Char.isDigit = [] ∧
      ('.' :: ds).dropWhile Char.isDigit = '.' :: ds := ⟨rfl, rfl⟩
  simp [ofChars?, List.takeWhile_append_of_pos whole, List.dropWhile_append_of_pos whole, point,
    nonempty]
  exact places

end Decimal

namespace Rule

/-- Every rule other than those of comments takes spellings of its kind. -/
theorem spells {r : Rule} (member : r ∈ rules) :
    match r.pattern with
    | .exact first more | .word first more => String.ofList (first :: more) ∈ r.kind.spellings
    | .number => r.kind = .num
    | .quoted mark => r.kind = .string ∧ IsQuotationMark mark
    | .name => r.kind = .symbol
    | .lineComment | .blockComment => r.kind = .comment := by
  revert r
  simp [rules, Kind.spellings, IsQuotationMark]

end Rule

/-- The payload read from a lexeme is the one that the lexeme spells. -/
theorem firstMatch?_spelling {text : List Char} {m : Match} {payload : Payload}
    (found : firstMatch? text = some m) (lexical : m.kind ≠ .comment)
    (read : Payload.ofLexeme? m.kind m.lexeme = some payload) :
    Spelling m.kind payload m.lexeme := by
  obtain ⟨r, member, matched⟩ := List.exists_of_findSome?_eq_some found
  obtain ⟨⟨lexeme, rest⟩, split, rfl⟩ := Option.map_eq_some_iff.mp matched
  have spells := Rule.spells member
  obtain ⟨kind, pattern⟩ := r
  cases pattern with
  | exact first more =>
    obtain ⟨_, _, same⟩ := Option.map_eq_some_iff.mp split
    cases same
    exact .of_fixed spells read
  | word first more =>
    obtain ⟨_, _, ended⟩ := Option.bind_eq_some_iff.mp split
    split at ended
    · cases ended
    · cases ended
      exact .of_fixed spells read
  | number =>
    cases spells
    obtain ⟨whole, nonempty, digits, rfl | ⟨places, further, rfl⟩⟩ :=
      Pattern.splitNumber_cases split
    · simp only [Payload.ofLexeme?, Decimal.ofChars?_whole nonempty digits] at read
      cases read
      exact .whole nonempty digits (Decimal.toNumber_isNearest _)
    · simp only [Payload.ofLexeme?, Decimal.ofChars?_places nonempty digits further] at read
      cases read
      exact .places nonempty digits further (Decimal.toNumber_isNearest _)
  | quoted mark =>
    obtain ⟨rfl, marks⟩ := spells
    simp only [Pattern.split] at split
    split at split
    · split at split
      · obtain ⟨⟨inside, _⟩, closed, same⟩ := Option.map_eq_some_iff.mp split
        cases same
        simp only [Payload.ofLexeme?] at read
        cases read
        obtain ⟨line, escaped⟩ :=
          Pattern.splitQuoted_inside Bool.noConfusion closed
        simpa using Spelling.quoted marks line escaped
      · cases split
    · cases split
  | name =>
    cases spells
    simp only [Pattern.split] at split
    split at split
    · cases split
    · next nonempty =>
      cases split
      cases read
      refine .name nonempty fun c member => ?_
      have name := List.all_eq_true.mp List.all_takeWhile c member
      simpa [Pattern.isNameCharacter] using name
  | lineComment | blockComment => exact absurd spells lexical

namespace Scanner

theorem Reads.layout {s : Scanner} {ts : List Token} (reads : s.Reads ts) : Layout ts s.rest := by
  induction reads with
  | finish stands => exact .finish stands
  | @token s gap m t ts same stands lexical found read _ ih =>
    obtain ⟨payload, isPayload, rfl⟩ := Option.map_eq_some_iff.mp read
    rw [same]
    refine .token stands (firstMatch?_append found).2 ?_ rfl ih
    exact firstMatch?_spelling found (lexical.comment m found) isPayload

end Scanner

theorem Layout.spelled {ts : List Token} {text : List Char} (laid : Layout ts text) :
    ∀ t ∈ ts, ∃ lexeme, Spelling t.kind t.payload lexeme := by
  induction laid with
  | finish => simp
  | token _ _ spelled _ _ ih => exact List.forall_mem_cons.mpr ⟨⟨_, spelled⟩, ih⟩

theorem Layout.kind_ne {ts : List Token} {text : List Char} (laid : Layout ts text) :
    ∀ t ∈ ts, t.kind ≠ .comment ∧ t.kind ≠ .eof := by
  intro t member
  obtain ⟨_, spelled⟩ := laid.spelled t member
  exact spelled.kind_ne

/-- Scanning loses nothing: the trimmed text is the concatenation of gaps and lexemes, token by
token, and no token is a comment or the end. -/
theorem tokenize_layout {source : Source} {ts : List Token} (scanned : tokenize source = .ok ts) :
    Layout ts source.trimmed.toList ∧ ∀ t ∈ ts, t.kind ≠ .comment ∧ t.kind ≠ .eof := by
  have laid := (Scanner.tokens_eq_ok_iff.mp scanned).layout
  exact ⟨laid, laid.kind_ne⟩

theorem tokenize_layout_comment :
    let source := Source.ofContent "x/* \n*/'é'"
    let ts : List Token := [⟨.symbol, .text "x", 1, 1, 1⟩, ⟨.string, .text "é", 2, 3, 3⟩]
    tokenize source = .ok ts ∧ Layout ts source.trimmed.toList ∧
      ∀ t ∈ ts, t.kind ≠ .comment ∧ t.kind ≠ .eof := by
  intro source ts
  have start : Scanner.ofSource source =
      ⟨['x', '/', '*', ' ', '\n', '*', '/', '\'', 'é', '\''], 0, ⟨1, 1⟩⟩ := by cbv
  have gap : Gap ['/', '*', ' ', '\n', '*', '/'] ['\'', 'é', '\''] :=
    .blockComment (show ¬ commentEnd <:+: [' ', '\n'] by decide) .none
  have scanned : (Scanner.ofSource source).Reads ts := by
    rw [start]
    refine .cons .none rfl rfl (by decide) rfl ?_
    exact .cons gap rfl rfl (by decide) rfl (.finish .none)
  have ok := Scanner.tokens_eq_ok_iff.mpr scanned
  exact ⟨ok, tokenize_layout ok⟩

end BracketScript
