import BracketScript.Proofs.Rejection

/-! The words of a source are its keywords and symbols. No run of name characters is divided among
tokens, so between two words there is something else. What follows a word tells the two sorts apart:
no word character follows a keyword, and a symbol that is spelled like one comes before a digit. -/
namespace BracketScript
open Pattern (isNameCharacter)

/-- No run of name characters crosses the place. -/
def Edge (before rest : List Char) : Prop :=
  ∀ c ∈ before.getLast?, isNameCharacter c = true → ∀ d ∈ rest.head?, isNameCharacter d = false

section Edge

variable {before gap rest : List Char}

theorem Edge.of_head (other : ∀ d ∈ rest.head?, isNameCharacter d = false) : Edge before rest :=
  fun _ _ _ => other

theorem Edge.nil : Edge [] rest := by
  intro c last
  cases last

theorem Edge.concat {c : Char} (other : isNameCharacter c = false) : Edge (before ++ [c]) rest := by
  intro d last letter
  rw [List.getLast?_concat, Option.mem_some_iff] at last
  subst last
  cases other.symm.trans letter

/-- A gap neither continues a run of name characters nor starts one. -/
theorem Gap.edge (stands : Gap gap rest) (edge : Edge before (gap ++ rest)) :
    Edge (before ++ gap) rest := by
  induction stands generalizing before with
  | none => simpa using edge
  | @space gap rest _ ih =>
    have further : Edge (before ++ [' ']) (gap ++ rest) := .concat rfl
    simpa using ih further
  | @lineComment body gap rest _ ended _ ih =>
    have further : Edge (before ++ '/' :: '/' :: body) (gap ++ rest) := by
      apply Edge.of_head
      intro d first
      rw [ended d first]
      decide
    simpa using ih further
  | @blockComment body gap rest _ _ ih =>
    have further : Edge (before ++ '/' :: '*' :: (body ++ ['*']) ++ ['/']) (gap ++ rest) :=
      .concat rfl
    simpa [commentEnd] using ih further

theorem Gap.eq_nil (stands : Gap gap rest) (other : ∀ c ∈ (gap ++ rest).head?, c ≠ ' ' ∧ c ≠ '/') :
    gap = [] := by
  cases stands with
  | none => rfl
  | space => exact absurd rfl (other ' ' rfl).1
  | lineComment => exact absurd rfl (other '/' rfl).2
  | blockComment => exact absurd rfl (other '/' rfl).2

end Edge

def Kind.isLettered (kind : Kind) : Bool := kind.isKeyword || kind == .symbol

def keywords : List String :=
  ["let", "enum", "return", "fn", "while", "for", "if", "true", "false"]

section Word

variable {kind : Kind} {payload : Payload} {lexeme text : List Char} {m : Match}

/-- The lexemes of words are runs of name characters. -/
theorem Spelling.name_of_isLettered (spelled : Spelling kind payload lexeme)
    (word : kind.isLettered = true) :
    lexeme ≠ [] ∧ (∀ c ∈ lexeme, isNameCharacter c = true) ∧ payload = .text (.ofList lexeme) := by
  cases spelled with
  | @fixed _ text member =>
    have key : ∀ kind ∈ Kind.all, kind.isLettered = true → ∀ text ∈ kind.spellings,
        text.toList ≠ [] ∧ text.toList.all isNameCharacter = true := by decide
    obtain ⟨nonempty, letters⟩ := key kind kind.mem_all word text member
    exact ⟨nonempty, List.all_eq_true.mp letters, by rw [String.ofList_toList]⟩
  | name nonempty letters =>
    refine ⟨nonempty, fun c member => ?_, rfl⟩
    rw [isNameCharacter, Bool.or_eq_true, beq_iff_eq]
    exact letters c member
  | quoted | whole | places => cases word

theorem Spelling.mem_of_isKeyword (spelled : Spelling kind payload lexeme)
    (keyword : kind.isKeyword = true) : String.ofList lexeme ∈ kind.spellings := by
  cases spelled with
  | fixed member => rwa [String.ofList_toList]
  | name | quoted | whole | places => cases keyword

theorem Spelling.isLettered_of_getLast? (spelled : Spelling kind payload lexeme) {c : Char}
    (last : c ∈ lexeme.getLast?) (letter : isNameCharacter c = true) : kind.isLettered = true := by
  have member := List.mem_of_getLast? last
  have of_digit (digit : c.isDigit = true) : kind.isLettered = true := by
    cases (not_isNameCharacter_of_isDigit digit).symm.trans letter
  cases spelled with
  | @fixed _ text spells =>
    have key : ∀ kind ∈ Kind.all, ∀ text ∈ kind.spellings,
        text.toList.getLast?.any isNameCharacter = true → kind.isLettered = true := by decide
    apply key kind kind.mem_all text spells
    rwa [Option.mem_def.mp last]
  | name => rfl
  | @quoted mark cs quotation =>
    rw [← List.cons_append, List.getLast?_concat, Option.mem_some_iff] at last
    subst last
    rcases quotation with rfl | rfl <;> cases letter
  | whole _ digits => exact of_digit (digits c member)
  | places _ whole places =>
    rcases List.mem_append.mp member with member | member
    · exact of_digit (whole c member)
    · rcases List.mem_cons.mp member with rfl | member
      · cases letter
      · exact of_digit (places c member)

/-- A keyword match stops before anything but a word character. -/
theorem firstMatch?_keyword (found : firstMatch? text = some m)
    (keyword : m.kind.isKeyword = true) : ∀ d ∈ m.rest.head?, Text.isWordCharacter d = false := by
  obtain ⟨r, member, matched⟩ := List.exists_of_findSome?_eq_some found
  obtain ⟨split, kind⟩ := Rule.match?_eq_some_iff.mp matched
  have word := (Rule.isNameWord_iff member).mpr (kind ▸ keyword)
  cases pattern : r.pattern with
  | word first more =>
    rw [pattern, Pattern.split_word_iff] at split
    exact split.2.2
  | _ =>
    rw [pattern] at word
    cases word

/-- A symbol match is maximal. -/
theorem firstMatch?_symbol (found : firstMatch? text = some m) (symbol : m.kind = .symbol) :
    ∀ d ∈ m.rest.head?, isNameCharacter d = false := by
  obtain ⟨r, member, matched⟩ := List.exists_of_findSome?_eq_some found
  obtain ⟨split, kind⟩ := Rule.match?_eq_some_iff.mp matched
  rw [(Rule.eq_name_iff member).mpr (kind.trans symbol), Pattern.split_name_iff] at split
  exact split.2.2.2

theorem isNameCharacter_eq_false {c : Char} (other : Text.isWordCharacter c = false) :
    isNameCharacter c = false := by
  rw [Bool.eq_false_iff]
  intro letter
  cases other.symm.trans (isWordCharacter_of_isNameCharacter letter)

theorem firstMatch?_lettered (found : firstMatch? text = some m) (word : m.kind.isLettered = true) :
    ∀ d ∈ m.rest.head?, isNameCharacter d = false := by
  rw [Kind.isLettered, Bool.or_eq_true, beq_iff_eq] at word
  rcases word with keyword | symbol
  · intro d next
    exact isNameCharacter_eq_false (firstMatch?_keyword found keyword d next)
  · exact firstMatch?_symbol found symbol

theorem Pattern.split_of_isNameWord {p : Pattern} {rest : List Char} (word : p.isNameWord = true)
    (opening : p.opening = lexeme.map .only)
    (stop : ∀ d ∈ rest.head?, Text.isWordCharacter d = false) :
    p.split (lexeme ++ rest) = some (lexeme, rest) := by
  cases p with
  | word first more =>
    obtain rfl : first :: more = lexeme :=
      List.map_injective_iff.mpr (fun _ _ => CharacterClass.only.inj) opening
    exact split_word_iff.mpr ⟨rfl, rfl, stop⟩
  | _ => cases word

theorem exists_rule_of_keyword {text : String} (keyword : text ∈ keywords) :
    ∃ r ∈ rules, r.kind.isKeyword = true ∧ r.pattern.isNameWord = true ∧
      r.pattern.opening = text.toList.map .only := by
  have key : ∀ text ∈ keywords, ∃ r ∈ rules, r.kind.isKeyword = true ∧
      r.pattern.isNameWord = true ∧ r.pattern.opening = text.toList.map .only := by decide
  exact key text keyword

/-- A symbol spelled like a keyword is followed by a word character. -/
theorem exists_isWordCharacter_of_keyword (found : firstMatch? text = some m)
    (symbol : m.kind = .symbol) (keyword : String.ofList m.lexeme ∈ keywords) :
    ∃ d ∈ m.rest.head?, Text.isWordCharacter d = true := by
  obtain ⟨r, member, isKeyword, word, opening⟩ := exists_rule_of_keyword keyword
  rw [String.toList_ofList] at opening
  obtain ⟨front, r', back, leads⟩ := Leads.of_firstMatch? found
  have other : r'.kind.isKeyword = false := by
    obtain ⟨_, _, rfl⟩ := Option.map_eq_some_iff.mp leads.found
    exact congrArg Kind.isKeyword symbol
  by_contra ended
  have matched : r.match? text = some ⟨r.kind, m.lexeme, m.rest⟩ := by
    rw [Rule.match?, ← (firstMatch?_append found).1,
      Pattern.split_of_isNameWord word opening (by simpa using ended)]
    rfl
  rw [leads.table, List.mem_append, List.mem_cons] at member
  rcases member with before | rfl | behind
  · cases (leads.first r before).symm.trans matched
  · cases other.symm.trans isKeyword
  · have among := List.mem_append_right front behind
    have leading := (leads.longest r among _ matched).2.mp rfl
    cases other.symm.trans leading.1

/-- After a run of name characters the only word characters that start a lexeme are digits. -/
theorem isDigit_of_isWordCharacter {d : Char} (lexical : IsLexical d)
    (word : Text.isWordCharacter d = true) (other : isNameCharacter d = false) :
    d.isDigit = true := by
  have key : ∀ d ∈ lexicalSigns, Text.isWordCharacter d = true → isNameCharacter d = true :=
    List.all_iff_forall_prop.mp (by decide)
  rcases lexical with letter | digit | sign
  · simp [isNameCharacter, letter] at other
  · exact digit
  · cases other.symm.trans (key d sign word)

theorem Rule.of_isDigit {r : Rule} {d : Char} (member : r ∈ rules) (digit : d.isDigit = true)
    (found : r.match? (d :: text) = some m) : r.kind = .num ∧ r.pattern = .number := by
  have key : ∀ r ∈ rules, ∀ k ∈ r.pattern.opening.head?,
      (r.kind = .num ∧ r.pattern = .number) ∨ CharacterClass.isDisjoint .digit k = true := by decide
  obtain ⟨k, first, holds⟩ := Rule.exists_holds found
  apply (key r member k first).resolve_right
  intro disjoint
  exact CharacterClass.not_holds_of_isDisjoint disjoint digit holds

/-- A lexeme that starts with a word character other than a name character is a numeral. -/
theorem firstMatch?_divided {d : Char} (found : firstMatch? (d :: text) = some m)
    (word : Text.isWordCharacter d = true) (other : isNameCharacter d = false) :
    m.kind = .num := by
  obtain ⟨r, member, matched⟩ := List.exists_of_findSome?_eq_some found
  have digit := isDigit_of_isWordCharacter (Rule.isLexical member matched) word other
  obtain ⟨num, _⟩ := Rule.of_isDigit member digit matched
  obtain ⟨_, _, rfl⟩ := Option.map_eq_some_iff.mp matched
  exact num

end Word

/-- The token is the first match after `front`, where no run of name characters goes on. -/
structure Token.Taken (t : Token) (text front : List Char) (m : Match) : Prop where
  whole : text = front ++ (m.lexeme ++ m.rest)
  found : firstMatch? (m.lexeme ++ m.rest) = some m
  kind : m.kind = t.kind
  spelled : Spelling t.kind t.payload m.lexeme
  position : t.position = .behind front
  width : t.width = m.lexeme.length
  edge : Edge front (m.lexeme ++ m.rest)

namespace Token.Taken

variable {t : Token} {text front : List Char} {m : Match}

/-- The character before a word is no name character. -/
theorem getLast?_front (taken : t.Taken text front m) (word : t.kind.isLettered = true) :
    ∀ c ∈ front.getLast?, isNameCharacter c = false := by
  intro c last
  obtain ⟨nonempty, letters, _⟩ := taken.spelled.name_of_isLettered word
  have next : m.lexeme.head nonempty ∈ (m.lexeme ++ m.rest).head? := by
    rw [List.head?_append_of_ne_nil _ nonempty, List.head?_eq_some_head nonempty]
    rfl
  rw [Bool.eq_false_iff]
  intro letter
  cases (taken.edge c last letter _ next).symm.trans (letters _ (List.head_mem nonempty))

/-- Every token ends at an edge, which is what the scanner keeps invariant. -/
theorem edge_behind (taken : t.Taken text front m) : Edge (front ++ m.lexeme) m.rest := by
  intro c last letter
  obtain ⟨_, nonempty⟩ := firstMatch?_append taken.found
  rw [List.getLast?_append_of_ne_nil _ nonempty] at last
  apply firstMatch?_lettered taken.found
  rw [taken.kind]
  exact taken.spelled.isLettered_of_getLast? last letter

theorem ending (taken : t.Taken text front m) (word : t.kind.isLettered = true) :
    t.ending = .behind (front ++ m.lexeme) := by
  obtain ⟨_, letters, _⟩ := taken.spelled.name_of_isLettered word
  have line : '\n' ∉ m.lexeme := by
    intro newline
    cases letters _ newline
  rw [Position.behind_line front line, ← taken.position, ← taken.width]
  rfl

end Token.Taken

namespace Scanner

/-- The invariant of a scan: it stands after `before`, at an edge, and reads the tokens. -/
structure Reaches (s : Scanner) (before : List Char) (ts : List Token) : Prop where
  stands : s.Behind before
  edge : Edge before s.rest
  reads : s.Reads ts

variable {s : Scanner} {before : List Char} {t : Token} {us ts : List Token}

theorem Reaches.cons (reaches : s.Reaches before (t :: ts)) :
    ∃ gap m, Gap gap (m.lexeme ++ m.rest) ∧ s.rest = gap ++ (m.lexeme ++ m.rest) ∧
      t.Taken (before ++ s.rest) (before ++ gap) m ∧
      (s.pass (gap ++ m.lexeme) m.rest).Reaches (before ++ gap ++ m.lexeme) ts := by
  obtain ⟨stands, edge, reads⟩ := reaches
  cases reads with
  | @token _ gap m _ _ same gapped lexical found read behind =>
    have here := stands.pass gap (m.lexeme ++ m.rest)
    have taken : t.Taken (before ++ s.rest) (before ++ gap) m := by
      obtain ⟨payload, isPayload, rfl⟩ := Option.map_eq_some_iff.mp read
      constructor
      · rw [same, List.append_assoc]
      · exact found
      · rfl
      · exact firstMatch?_spelling found (lexical.comment m found) isPayload
      · exact here.position
      · rfl
      · exact gapped.edge (same ▸ edge)
    have further := here.pass m.lexeme m.rest
    rw [pass_pass] at further
    exact ⟨gap, m, gapped, same, taken, further, taken.edge_behind, behind⟩

theorem Reaches.suffix (reaches : s.Reaches before (us ++ ts)) :
    ∃ s' before', before' ++ s'.rest = before ++ s.rest ∧ Reaches s' before' ts := by
  induction us generalizing s before with
  | nil => exact ⟨s, before, rfl, reaches⟩
  | cons u us ih =>
    obtain ⟨gap, m, _, same, _, behind⟩ := reaches.cons
    obtain ⟨s', before', whole, further⟩ := ih behind
    refine ⟨s', before', ?_, further⟩
    rw [whole, same]
    simp [pass]

end Scanner

theorem exists_taken {source : Source} {us vs : List Token} {t : Token}
    (scanned : tokenize source = .ok (us ++ t :: vs)) :
    ∃ front m s, t.Taken source.trimmed.toList front m ∧
      Scanner.Reaches s (front ++ m.lexeme) vs ∧ s.rest = m.rest := by
  rw [tokenize, Scanner.tokens_eq_ok_iff, Scanner.ofSource_eq_start] at scanned
  have start : (Scanner.start source.trimmed.toList).Reaches [] (us ++ t :: vs) :=
    ⟨⟨rfl, rfl⟩, .nil, scanned⟩
  obtain ⟨s, before, whole, reaches⟩ := start.suffix
  obtain ⟨gap, m, _, _, taken, behind⟩ := reaches.cons
  rw [List.nil_append, Scanner.start_rest] at whole
  rw [whole] at taken
  exact ⟨before ++ gap, m, _, taken, behind, rfl⟩

structure Token.StandsIn (t : Token) (source : Source) (front text back : List Char) : Prop where
  content : source.content.toList = front ++ (text ++ back)
  position : t.position = .behind front
  payload : t.payload = .text (.ofList text)
  width : t.width = text.length

/-- A maximal run of name characters. -/
structure IsNameRun (front text back : List Char) : Prop where
  nonempty : text ≠ []
  letters : ∀ c ∈ text, isNameCharacter c = true
  before : ∀ c ∈ front.getLast?, isNameCharacter c = false
  behind : ∀ c ∈ back.head?, isNameCharacter c = false

structure Source.Words (source : Source) (ts : List Token) : Prop where
  apart : ∀ us a b vs, ts = us ++ a :: b :: vs →
    a.kind.isLettered = true → b.kind.isLettered = true →
    ∃ front text between text' back, between ≠ [] ∧
      a.StandsIn source front text (between ++ (text' ++ back)) ∧
      b.StandsIn source (front ++ text ++ between) text' back
  keyword : ∀ t ∈ ts, t.kind.isKeyword = true → ∃ front text back,
    t.StandsIn source front text back ∧ String.ofList text ∈ t.kind.spellings ∧
      ∀ c ∈ back.head?, Text.isWordCharacter c = false
  symbol : ∀ t ∈ ts, t.kind = .symbol → ∃ front text back,
    t.StandsIn source front text back ∧ IsNameRun front text back
  /-- after a symbol spelled like a keyword a numeral follows immediately -/
  divided : ∀ us t vs, ts = us ++ t :: vs → t.kind = .symbol →
    ∀ text ∈ keywords, t.payload = .text text →
      ∃ u ws, vs = u :: ws ∧ u.kind = .num ∧ u.position = t.ending

section Source

variable {source : Source} {t : Token} {ts : List Token} {front tail : List Char} {m : Match}

theorem Source.exists_break (source : Source) :
    ∃ tail, source.content.toList = source.trimmed.toList ++ tail ∧
      ∀ c ∈ tail.head?, Text.isWordCharacter c = false := by
  rw [trimmed, String.toList_ofList]
  rcases dropFinalBreak_cases source.content.toList with same | same | same
  · exact ⟨[], by simpa using same, by simp⟩
  · exact ⟨['\n'], same, by rintro c ⟨⟩; rfl⟩
  · exact ⟨['\r', '\n'], same, by rintro c ⟨⟩; rfl⟩

theorem head?_append_stop {p : Char → Bool} {rest : List Char}
    (stop : ∀ c ∈ rest.head?, p c = false) (stop' : ∀ c ∈ tail.head?, p c = false) :
    ∀ c ∈ (rest ++ tail).head?, p c = false := by
  cases rest with
  | nil => exact stop'
  | cons d rest => exact stop

theorem Token.Taken.standsIn (taken : t.Taken source.trimmed.toList front m)
    (word : t.kind.isLettered = true)
    (content : source.content.toList = source.trimmed.toList ++ tail) :
    t.StandsIn source front m.lexeme (m.rest ++ tail) where
  content := by rw [content, taken.whole, List.append_assoc, List.append_assoc]
  position := taken.position
  payload := (taken.spelled.name_of_isLettered word).2.2
  width := taken.width

theorem apart_of_tokenize {us vs : List Token} {a b : Token}
    (scanned : tokenize source = .ok (us ++ a :: b :: vs)) (first : a.kind.isLettered = true)
    (second : b.kind.isLettered = true) :
    ∃ front text between text' back, between ≠ [] ∧
      a.StandsIn source front text (between ++ (text' ++ back)) ∧
      b.StandsIn source (front ++ text ++ between) text' back := by
  obtain ⟨front, m, s, taken, reaches, rest⟩ := exists_taken scanned
  obtain ⟨gap, m', _, same, taken', _⟩ := reaches.cons
  obtain ⟨tail, content, _⟩ := source.exists_break
  rw [rest] at same
  rw [rest, List.append_assoc front, ← taken.whole] at taken'
  have here := taken.standsIn first content
  rw [same, List.append_assoc, List.append_assoc] at here
  have there := taken'.standsIn second content
  refine ⟨front, m.lexeme, gap, m'.lexeme, m'.rest ++ tail, ?_, here, there⟩
  rintro rfl
  obtain ⟨nonempty, letters, _⟩ := taken.spelled.name_of_isLettered first
  have last : m.lexeme.getLast nonempty ∈ (front ++ m.lexeme ++ []).getLast? := by
    rw [List.append_nil, List.getLast?_append_of_ne_nil _ nonempty,
      List.getLast?_eq_some_getLast nonempty]
    rfl
  cases (taken'.getLast?_front second _ last).symm.trans (letters _ (List.getLast_mem nonempty))

theorem keyword_of_tokenize (scanned : tokenize source = .ok ts) (member : t ∈ ts)
    (keyword : t.kind.isKeyword = true) :
    ∃ front text back, t.StandsIn source front text back ∧ String.ofList text ∈ t.kind.spellings ∧
      ∀ c ∈ back.head?, Text.isWordCharacter c = false := by
  obtain ⟨us, vs, rfl⟩ := List.append_of_mem member
  obtain ⟨front, m, s, taken, _⟩ := exists_taken scanned
  obtain ⟨tail, content, stop⟩ := source.exists_break
  have word : t.kind.isLettered = true := by simp [Kind.isLettered, keyword]
  refine ⟨front, m.lexeme, m.rest ++ tail, taken.standsIn word content,
    taken.spelled.mem_of_isKeyword keyword, ?_⟩
  apply head?_append_stop _ stop
  exact firstMatch?_keyword taken.found (taken.kind ▸ keyword)

theorem symbol_of_tokenize (scanned : tokenize source = .ok ts) (member : t ∈ ts)
    (symbol : t.kind = .symbol) :
    ∃ front text back, t.StandsIn source front text back ∧ IsNameRun front text back := by
  obtain ⟨us, vs, rfl⟩ := List.append_of_mem member
  obtain ⟨front, m, s, taken, _⟩ := exists_taken scanned
  obtain ⟨tail, content, stop⟩ := source.exists_break
  have word : t.kind.isLettered = true := by simp [Kind.isLettered, symbol]
  obtain ⟨nonempty, letters, _⟩ := taken.spelled.name_of_isLettered word
  refine ⟨front, m.lexeme, m.rest ++ tail, taken.standsIn word content, nonempty, letters,
    taken.getLast?_front word, ?_⟩
  apply head?_append_stop (firstMatch?_symbol taken.found (taken.kind.trans symbol))
  intro c next
  exact isNameCharacter_eq_false (stop c next)

theorem number_of_tokenize {us vs : List Token} {text : String}
    (scanned : tokenize source = .ok (us ++ t :: vs)) (symbol : t.kind = .symbol)
    (keyword : text ∈ keywords) (payload : t.payload = .text text) :
    ∃ u ws, vs = u :: ws ∧ u.kind = .num ∧ u.position = t.ending := by
  obtain ⟨front, m, s, taken, reaches, rest⟩ := exists_taken scanned
  have word : t.kind.isLettered = true := by simp [Kind.isLettered, symbol]
  have symbol' : m.kind = .symbol := taken.kind.trans symbol
  have spelled : String.ofList m.lexeme ∈ keywords := by
    rw [(taken.spelled.name_of_isLettered word).2.2] at payload
    cases payload
    exact keyword
  obtain ⟨d, next, continues⟩ := exists_isWordCharacter_of_keyword taken.found symbol' spelled
  have other := firstMatch?_symbol taken.found symbol' d next
  have plain : ∀ c ∈ s.rest.head?, c ≠ ' ' ∧ c ≠ '/' := by
    intro c first
    rw [rest, Option.mem_def.mp next, Option.mem_some_iff] at first
    subst first
    constructor
    all_goals
      rintro rfl
      cases continues
  cases vs with
  | nil =>
    cases reaches.reads with
    | finish stands =>
      have empty := stands.eq_nil (by rwa [List.append_nil])
      rw [← rest, empty] at next
      cases next
  | cons u ws =>
    obtain ⟨gap, m', gapped, same, taken', _⟩ := reaches.cons
    rw [same] at plain
    obtain rfl := gapped.eq_nil plain
    refine ⟨u, ws, rfl, ?_, ?_⟩
    · have found := taken'.found
      rw [← rest, same, List.nil_append] at next
      obtain ⟨more, starts⟩ := List.head?_eq_some_iff.mp next
      rw [starts] at found
      exact taken'.kind.symm.trans (firstMatch?_divided found continues other)
    · rw [taken'.position, taken.ending word, List.append_nil]

end Source

/-- Words are separated by something else, no word character follows a keyword, and a symbol is a
maximal run of name characters. A symbol is spelled like a keyword only where a numeral follows
immediately. -/
theorem tokenize_words {source : Source} {ts : List Token} (scanned : tokenize source = .ok ts) :
    source.Words ts where
  apart := by
    rintro us a b vs rfl
    exact apart_of_tokenize scanned
  keyword _ := keyword_of_tokenize scanned
  symbol _ := symbol_of_tokenize scanned
  divided := by
    rintro us t vs rfl symbol text
    exact number_of_tokenize scanned symbol

/-- The last word would be a keyword without the numeral that follows it. -/
theorem tokenize_words_divided :
    let source := Source.ofContent "fn x let7"
    let ts : List Token := [⟨.funcWord, .text "fn", 1, 1, 2⟩, ⟨.symbol, .text "x", 1, 4, 1⟩,
      ⟨.symbol, .text "let", 1, 6, 3⟩, ⟨.num, .number (Decimal.mk 7 0).toNumber, 1, 9, 1⟩]
    tokenize source = .ok ts ∧ source.Words ts := by
  intro source ts
  have start : Scanner.ofSource source =
      ⟨['f', 'n', ' ', 'x', ' ', 'l', 'e', 't', '7'], 0, ⟨1, 1⟩⟩ := by cbv
  have reads : (Scanner.ofSource source).Reads ts := by
    rw [start]
    refine .cons .none rfl rfl (by decide) rfl ?_
    refine .cons (.space .none) rfl rfl (by decide) rfl ?_
    refine .cons (.space .none) rfl rfl (by decide) rfl ?_
    exact .cons .none rfl rfl (by decide) rfl (.finish .none)
  have scanned := Scanner.tokens_eq_ok_iff.mpr reads
  exact ⟨scanned, tokenize_words scanned⟩

end BracketScript
