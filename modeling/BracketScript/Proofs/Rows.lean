import BracketScript.Proofs.Words

/-! Lexemes that are written in a row, with spaces between them, are read back one by one. A space
ends every lexeme but a string, and a string ends at its mark whatever stands behind it. Line breaks
are left out of a row, and so are names that are keywords and strings with a mark inside that would
close them. -/
namespace BracketScript
open Pattern (isNameCharacter)

/-- Lexemes that are complete in front of a space, with their kinds and payloads. -/
inductive Standalone : Kind → Payload → List Char → Prop where
  | fixed {kind : Kind} {text : String} : kind ≠ .newline → text ∈ kind.spellings →
      Standalone kind (.text text) text.toList
  | number {payload : Payload} {cs : List Char} : Spelling .num payload cs →
      Standalone .num payload cs
  | name {cs : List Char} : cs ≠ [] → (∀ c ∈ cs, isNameCharacter c = true) →
      String.ofList cs ∉ keywords → Standalone .symbol (.text (.ofList cs)) cs
  | quoted {mark : Char} {inside : List Char} : IsQuotationMark mark → '\n' ∉ inside →
      Escaped mark inside → ¬ ['\\'] <:+ inside →
      Standalone .string (.text (.ofList inside)) (mark :: (inside ++ [mark]))

section Match

variable {kind : Kind} {payload : Payload} {cs more : List Char} {m : Match}

/-- A match that every matching rule agrees on is the first match. -/
theorem firstMatch?_eq_some {text : List Char} (matching : firstMatch? text ≠ none)
    (only : ∀ r ∈ rules, ∀ m', r.match? text = .some m' → m' = m) :
    firstMatch? text = .some m := by
  obtain ⟨m', found⟩ := Option.ne_none_iff_exists'.mp matching
  obtain ⟨r, member, matched⟩ := List.exists_of_findSome?_eq_some found
  rw [found, only r member m' matched]

theorem firstMatch?_fixed {text : String} (other : kind ≠ .newline) (member : text ∈ kind.spellings)
    (stop : ∀ c ∈ more.head?, c = ' ') :
    firstMatch? (text.toList ++ more) = some ⟨kind, text.toList, more⟩ := by
  have space : more = [] ∨ ∃ rest, more = ' ' :: rest := by
    cases more with
    | nil => exact .inl rfl
    | cons c rest => exact .inr ⟨rest, by rw [stop c rfl]⟩
  rcases space with rfl | ⟨rest, rfl⟩
  all_goals
    cases kind with
    | newline => exact absurd rfl other
    | comment | num | string | symbol | eof => cases member
    | equality => rcases List.mem_pair.mp member with rfl | rfl <;> rfl
    | _ =>
      obtain rfl := List.mem_singleton.mp member
      rfl

/-- A numeral is split at the first character that cannot continue it. -/
theorem splitNumber_spelled (spelled : Spelling .num payload cs)
    (stop : ∀ c ∈ more.head?, c.isDigit = false ∧ (c = '.' → '.' ∈ cs)) :
    Pattern.splitNumber (cs ++ more) = some (cs, more) := by
  have digits {cs : List Char} (digits : ∀ c ∈ cs, c.isDigit = true) :
      (cs ++ more).takeWhile Char.isDigit = cs ∧ (cs ++ more).dropWhile Char.isDigit = more := by
    have stopped : ∀ c ∈ more.head?, c.isDigit = false := fun c first => (stop c first).1
    rw [takeWhile_stop stopped, dropWhile_stop stopped, List.takeWhile_eq_self_iff.mpr digits,
      List.dropWhile_eq_nil_iff.mpr digits]
    exact ⟨rfl, rfl⟩
  cases spelled with
  | fixed member => cases member
  | whole nonempty all =>
    obtain ⟨taken, left⟩ := digits all
    rw [Pattern.splitNumber, taken, left, if_neg nonempty]
    cases more with
    | nil => rfl
    | cons c rest =>
      split
      · next point => cases all '.' ((stop c rfl).2 (List.cons.inj point).1)
      · rfl
  | @places whole places _ nonempty all further _ =>
    obtain ⟨taken, left⟩ := digits further
    have point : ∀ c ∈ ('.' :: (places ++ more)).head?, c.isDigit = false := by
      rintro c ⟨⟩
      rfl
    rw [Pattern.splitNumber, List.append_assoc, List.cons_append, takeWhile_stop point,
      dropWhile_stop point, List.takeWhile_eq_self_iff.mpr all, List.dropWhile_eq_nil_iff.mpr all,
      if_neg nonempty]
    simp only [List.nil_append, taken, left]

theorem splitNumber_stop {text : List Char} (found : Pattern.splitNumber text = some (cs, more)) :
    ∀ c ∈ more.head?, c.isDigit = false ∧ (c = '.' → '.' ∈ cs) := by
  have stop {text : List Char} {c : Char} (next : c ∈ (text.dropWhile Char.isDigit).head?) :
      c.isDigit = false := by
    have stopped := List.head?_dropWhile_not Char.isDigit text
    rw [Option.mem_def.mp next] at stopped
    simpa using stopped
  intro c next
  rw [Pattern.splitNumber] at found
  split at found
  · cases found
  · split at found
    · cases found
      exact ⟨stop next, fun _ => by simp⟩
    · next plain =>
      cases found
      refine ⟨stop next, fun point => ?_⟩
      obtain ⟨more, same⟩ := List.head?_eq_some_iff.mp next
      exact absurd same (point ▸ plain more)

theorem Pattern.split_number_iff {text : List Char} :
    number.split text = some (cs, more) ↔ (∃ payload, Spelling .num payload cs) ∧
      text = cs ++ more ∧ ∀ c ∈ more.head?, c.isDigit = false ∧ (c = '.' → '.' ∈ cs) := by
  constructor
  · intro found
    refine ⟨?_, (split_append found).1.symm, splitNumber_stop found⟩
    obtain ⟨whole, nonempty, digits, rfl | ⟨places, further, rfl⟩⟩ := splitNumber_cases found
    · exact ⟨_, .whole nonempty digits (Decimal.toNumber_isNearest _)⟩
    · exact ⟨_, .places nonempty digits further (Decimal.toNumber_isNearest _)⟩
  · rintro ⟨⟨payload, spelled⟩, rfl, stop⟩
    exact splitNumber_spelled spelled stop

theorem ofLexeme?_number (spelled : Spelling .num payload cs) :
    Payload.ofLexeme? .num cs = some payload := by
  cases spelled with
  | fixed member => cases member
  | whole nonempty digits nearest =>
    rw [← Decimal.toNumber_eq_iff] at nearest
    simp [Payload.ofLexeme?, Decimal.ofChars?_whole nonempty digits, nearest]
  | places nonempty whole places nearest =>
    rw [← Decimal.toNumber_eq_iff] at nearest
    simp [Payload.ofLexeme?, Decimal.ofChars?_places nonempty whole places, nearest]

theorem exists_digit (spelled : Spelling .num payload cs) :
    ∃ d ds, cs = d :: ds ∧ d.isDigit = true := by
  cases spelled with
  | fixed member => cases member
  | whole nonempty digits =>
    obtain ⟨d, ds, rfl⟩ := List.exists_cons_of_ne_nil nonempty
    exact ⟨d, ds, rfl, digits d List.mem_cons_self⟩
  | places nonempty digits =>
    obtain ⟨d, ds, rfl⟩ := List.exists_cons_of_ne_nil nonempty
    exact ⟨d, _, rfl, digits d List.mem_cons_self⟩

theorem firstMatch?_number (spelled : Spelling .num payload cs)
    (stop : ∀ c ∈ more.head?, c.isDigit = false ∧ (c = '.' → '.' ∈ cs)) :
    firstMatch? (cs ++ more) = some ⟨.num, cs, more⟩ := by
  obtain ⟨d, ds, rfl, digit⟩ := exists_digit spelled
  apply firstMatch?_eq_some
  · exact firstMatch?_ne_none_of_isDigit digit
  · intro r member m matched
    obtain ⟨kind, pattern⟩ := Rule.of_isDigit member digit matched
    rw [Rule.match?, pattern, Pattern.split, splitNumber_spelled spelled stop, kind] at matched
    exact (Option.some.inj matched).symm

theorem Rule.of_isNameCharacter {r : Rule} {c : Char} (member : r ∈ rules)
    (letter : isNameCharacter c = true) (found : r.match? (c :: cs) = some m) :
    r.pattern.isNameWord = true ∨ r.pattern = .name := by
  have key : ∀ r ∈ rules, ∀ k ∈ r.pattern.opening.head?,
      (r.pattern.isNameWord = true ∨ r.pattern = .name) ∨
        CharacterClass.isDisjoint .nameCharacter k = true := by decide
  obtain ⟨k, first, holds⟩ := Rule.exists_holds found
  apply (key r member k first).resolve_right
  intro disjoint
  exact CharacterClass.not_holds_of_isDisjoint disjoint letter holds

theorem Rule.lexeme_mem_keywords {r : Rule} {text : List Char} (member : r ∈ rules)
    (word : r.pattern.isNameWord = true) (found : r.match? text = some m) :
    String.ofList m.lexeme ∈ keywords := by
  have key : ∀ kind ∈ Kind.all, kind.isKeyword = true → ∀ text ∈ kind.spellings,
      text ∈ keywords := by decide
  have keyword := (Rule.isNameWord_iff member).mp word
  have spells := Rule.spells member
  obtain ⟨split, _⟩ := Rule.match?_eq_some_iff.mp found
  obtain ⟨kind, pattern⟩ := r
  cases pattern with
  | word first more =>
    rw [(Pattern.split_word_iff.mp split).1]
    exact key kind kind.mem_all keyword _ spells
  | _ => cases word

theorem firstMatch?_name (nonempty : cs ≠ []) (letters : ∀ c ∈ cs, isNameCharacter c = true)
    (other : String.ofList cs ∉ keywords) (stop : ∀ c ∈ more.head?, isNameCharacter c = false) :
    firstMatch? (cs ++ more) = .some ⟨.symbol, cs, more⟩ := by
  have whole : Pattern.name.split (cs ++ more) = .some (cs, more) :=
    Pattern.split_name_iff.mpr ⟨nonempty, rfl, letters, stop⟩
  obtain ⟨c, cs, rfl⟩ := List.exists_cons_of_ne_nil nonempty
  have letter := letters c List.mem_cons_self
  apply firstMatch?_eq_some
  · exact firstMatch?_ne_none_of_isNameCharacter letter
  · intro r member m matched
    rcases Rule.of_isNameCharacter member letter matched with word | pattern
    · have keyword := Rule.lexeme_mem_keywords member word matched
      obtain ⟨⟨lexeme, rest⟩, split, rfl⟩ := Option.map_eq_some_iff.mp matched
      rw [← Pattern.lexeme_eq_of_isNameWord word split whole] at keyword
      contradiction
    · have symbol := (Rule.eq_name_iff member).mp pattern
      rw [Rule.match?, pattern, whole, symbol] at matched
      exact (Option.some.inj matched).symm

theorem firstMatch?_string {mark : Char} {inside : List Char} (quotation : IsQuotationMark mark)
    (line : '\n' ∉ inside) (escaped : Escaped mark inside) (unclosed : ¬ ['\\'] <:+ inside)
    (more : List Char) :
    firstMatch? (mark :: (inside ++ [mark]) ++ more) =
      some ⟨.string, mark :: (inside ++ [mark]), more⟩ := by
  have text : mark :: (inside ++ [mark]) ++ more = mark :: (inside ++ mark :: more) := by simp
  rw [text, firstMatch?_quoted quotation]
  exact (match?_quoted_self_iff quotation).mpr
    ⟨line, escaped, fun backslash => absurd backslash unclosed⟩

end Match

namespace Standalone

variable {kind : Kind} {payload : Payload} {cs more : List Char}

/-- Before a space a standalone lexeme is its own first match. -/
theorem found (standalone : Standalone kind payload cs) (stop : ∀ c ∈ more.head?, c = ' ') :
    firstMatch? (cs ++ more) = some ⟨kind, cs, more⟩ := by
  cases standalone with
  | fixed other member => exact firstMatch?_fixed other member stop
  | number spelled =>
    apply firstMatch?_number spelled
    intro c first
    rw [stop c first]
    exact ⟨rfl, fun point => absurd point (by decide)⟩
  | name nonempty letters other =>
    apply firstMatch?_name nonempty letters other
    intro c first
    rw [stop c first]
    decide
  | quoted quotation line escaped unclosed =>
    exact firstMatch?_string quotation line escaped unclosed more

theorem read (standalone : Standalone kind payload cs) :
    Payload.ofLexeme? kind cs = some payload := by
  cases standalone with
  | @fixed _ text _ member =>
    cases kind with
    | num | string => cases member
    | _ => simp [Payload.ofLexeme?]
  | number spelled => exact ofLexeme?_number spelled
  | name => rfl
  | quoted => simp [Payload.ofLexeme?]

theorem line (standalone : Standalone kind payload cs) : '\n' ∉ cs := by
  cases standalone with
  | @fixed _ text other member =>
    have key : ∀ kind ∈ Kind.all, kind ≠ .newline → ∀ text ∈ kind.spellings,
        '\n' ∉ text.toList := by decide
    exact key kind kind.mem_all other text member
  | number spelled =>
    obtain ⟨d, ds, rfl, digit⟩ := exists_digit spelled
    rcases spelled.line with line | break_
    · exact line
    · cases break_
      cases digit
  | name _ letters => exact fun newline => by cases letters _ newline
  | quoted quotation line => simpa [line] using quotation.other.2.2.symm

theorem kind_ne (standalone : Standalone kind payload cs) : kind ≠ .comment := by
  cases standalone with
  | fixed _ member =>
    rintro rfl
    cases member
  | _ => exact nofun

end Standalone

structure Lexeme where
  kind : Kind
  payload : Payload
  characters : List Char
  standalone : Standalone kind payload characters

namespace Lexeme

def row (ls : List Lexeme) : List Char := [' '].intercalate (ls.map (·.characters))

/-- The text before the next lexeme of a row. -/
def lead (front : List Lexeme) : List Char := front.flatMap (·.characters ++ [' '])

def token (l : Lexeme) (front : List Lexeme) : Token :=
  ⟨l.kind, l.payload, 1, 1 + (lead front).length, l.characters.length⟩

theorem lead_concat (front : List Lexeme) (l : Lexeme) :
    lead (front ++ [l]) = lead front ++ (l.characters ++ [' ']) := by
  simp [lead]

theorem newline_not_mem_lead (front : List Lexeme) : '\n' ∉ lead front := by
  simp only [lead, List.mem_flatMap, not_exists, not_and]
  intro l _ member
  rcases List.mem_append.mp member with within | last
  · exact l.standalone.line within
  · simp at last

theorem row_cons (l : Lexeme) (ls : List Lexeme) :
    ∃ more, row (l :: ls) = l.characters ++ more ∧
      (ls = [] ∧ more = [] ∨ more = ' ' :: row ls) := by
  cases ls with
  | nil => exact ⟨[], by simp [row], .inl ⟨rfl, rfl⟩⟩
  | cons l' ls =>
    refine ⟨' ' :: row (l' :: ls), ?_, .inr rfl⟩
    simp [row, List.intercalate_cons_cons]

theorem newline_not_mem_row (ls : List Lexeme) : '\n' ∉ row ls := by
  induction ls with
  | nil => simp [row]
  | cons l ls ih =>
    obtain ⟨more, same, ended⟩ := row_cons l ls
    rw [same, List.mem_append, not_or]
    refine ⟨l.standalone.line, ?_⟩
    rcases ended with ⟨_, rfl⟩ | rfl
    · exact List.not_mem_nil
    · simpa using ih

end Lexeme

namespace Scanner

variable {ls front : List Lexeme}

theorem Reads.space {s : Scanner} {ts : List Token} {rest : List Char}
    (space : s.rest = ' ' :: rest) (reads : (s.pass [' '] rest).Reads ts) : s.Reads ts := by
  rw [← tokens_eq_ok_iff] at reads ⊢
  rw [tokens_eq_of_next_eq (next_eq_of_skipSpaces (skipSpaces_space s space)), reads]

theorem token?_lexeme {s : Scanner} (l : Lexeme) (stands : s.Behind (Lexeme.lead front))
    (more : List Char) : s.token? ⟨l.kind, l.characters, more⟩ = some (l.token front) := by
  have line := Position.behind_line [] (Lexeme.newline_not_mem_lead front)
  rw [token?, l.standalone.read, stands.position, ← List.nil_append (Lexeme.lead front), line]
  rfl

/-- Induction on the row, with the lexemes in front fixing the column. -/
theorem reads_row {s : Scanner} (rest : s.rest = Lexeme.row ls)
    (stands : s.Behind (Lexeme.lead front)) :
    s.Reads (ls.mapIdx fun i l => l.token (front ++ ls.take i)) := by
  induction ls generalizing s front with
  | nil =>
    have empty : s.rest = [] := rest
    exact .finish (empty ▸ .none)
  | cons l ls ih =>
    obtain ⟨more, same, ended⟩ := Lexeme.row_cons l ls
    have stop : ∀ c ∈ more.head?, c = ' ' := by
      rcases ended with ⟨_, rfl⟩ | rfl <;> simp
    have found := l.standalone.found stop
    rw [List.mapIdx_cons, List.take_zero, List.append_nil]
    refine .cons .none (rest.trans same) found l.standalone.kind_ne (token?_lexeme l stands more) ?_
    rcases ended with ⟨rfl, rfl⟩ | rfl
    · exact .finish .none
    · apply Reads.space rfl
      have behind := (stands.pass l.characters (' ' :: Lexeme.row ls)).pass [' '] (Lexeme.row ls)
      rw [List.append_assoc, ← Lexeme.lead_concat] at behind
      simpa using ih rfl behind

end Scanner

/-- Lexemes separated by spaces are scanned to one token each, on the first line and at the column
that the lexemes before leave. -/
theorem tokenize_row (ls : List Lexeme) :
    tokenize (.ofContent (.ofList (Lexeme.row ls))) =
      .ok (ls.mapIdx fun i l => l.token (ls.take i)) := by
  have kept : dropFinalBreak (Lexeme.row ls) = Lexeme.row ls := by
    apply dropFinalBreak_eq_self
    intro last
    exact Lexeme.newline_not_mem_row ls (List.mem_of_getLast? last)
  have start : (Scanner.start (Lexeme.row ls)).Behind (Lexeme.lead []) := ⟨rfl, rfl⟩
  rw [tokenize_ofContent, String.toList_ofList, kept, Scanner.tokens_eq_ok_iff]
  exact Scanner.reads_row rfl start

/-- The string holds its own mark escaped, and characters that would open a comment. -/
theorem tokenize_row_mixed :
    let inside := ['/', '*', '\\', '\'']
    let text := ['l', 'e', 't', ' ', 'l', 'e', ' ', '4', '.', ' '] ++ '\'' :: (inside ++ ['\''])
    tokenize (.ofContent (.ofList text)) =
      .ok [⟨.letWord, .text "let", 1, 1, 3⟩, ⟨.symbol, .text "le", 1, 5, 2⟩,
        ⟨.num, .number (Decimal.mk 4 0).toNumber, 1, 8, 2⟩,
        ⟨.string, .text (.ofList inside), 1, 11, 6⟩] := by
  intro inside text
  have word : Standalone .letWord (.text "let") "let".toList := .fixed (by decide) (by decide)
  have name : Standalone .symbol (.text (.ofList ['l', 'e'])) ['l', 'e'] :=
    .name (List.cons_ne_nil _ _) (List.all_eq_true.mp rfl) (by decide)
  have places := Spelling.places (List.cons_ne_nil '4' []) (List.all_eq_true.mp rfl)
    (List.forall_mem_nil _) (Decimal.toNumber_isNearest _)
  have number : Standalone .num (.number (Decimal.mk 4 0).toNumber) ['4', '.'] := .number places
  have escaped : Escaped '\'' inside :=
    escapedBehind_cons.mpr ⟨by decide, escapedBehind_cons.mpr ⟨by decide,
      escapedBehind_cons.mpr ⟨by decide, escapedBehind_cons.mpr ⟨fun _ => by decide,
        .of_not_mem List.not_mem_nil⟩⟩⟩⟩
  have string : Standalone .string (.text (.ofList inside)) ('\'' :: (inside ++ ['\''])) :=
    .quoted (.inr rfl) (by decide) escaped (by decide)
  let ls : List Lexeme :=
    [⟨_, _, _, word⟩, ⟨_, _, _, name⟩, ⟨_, _, _, number⟩, ⟨_, _, _, string⟩]
  have row : Lexeme.row ls = text := rfl
  have read := tokenize_row ls
  rw [row] at read
  simpa [ls, inside, Lexeme.token, Lexeme.lead] using read

end BracketScript
