import BracketScript.Proofs.Closing
import BracketScript.Proofs.Concatenation

/-! The rules of strings find a string where its mark stands, and where there is another one on
the line. Text whose marks stand behind backslashes is that of a string, and every string is such
a text between two marks. -/
namespace BracketScript

/-- Splitting a string reads no further than its line. -/
theorem Pattern.splitQuoted_line_append (mark : Char) (escaped : Bool) (text : List Char)
    (other : mark ≠ '\r') :
    splitQuoted mark escaped text =
      (splitQuoted mark escaped (text.takeWhile (· != '\n'))).map fun (inside, behind) =>
        (inside, behind ++ text.dropWhile (· != '\n')) := by
  have whole : text.takeWhile (· != '\n') ++ text.dropWhile (· != '\n') = text :=
    List.takeWhile_append_dropWhile
  cases below : text.dropWhile (· != '\n') with
  | nil =>
    rw [below, List.append_nil] at whole
    simp [whole]
  | cons c below' =>
    have newline : c = '\n' := by
      have stopped := List.head?_dropWhile_not (· != '\n') text
      rw [below] at stopped
      simpa using stopped
    have seam : Seam (c :: below') := newline ▸ .newline
    rw [← splitQuoted_seam seam other, ← below, whole]

def Rule.quoted (mark : Char) : Rule := ⟨.string, .quoted mark⟩

section Rules

variable {mark : Char}

theorem Rule.quoted_mem (quotation : IsQuotationMark mark) : Rule.quoted mark ∈ rules := by
  rcases quotation with rfl | rfl <;> simp [Rule.quoted, rules]

theorem Rule.eq_quoted {r : Rule} (member : r ∈ rules) (pattern : r.pattern = .quoted mark) :
    r = Rule.quoted mark := by
  obtain ⟨kind, _⟩ := r
  subst pattern
  obtain ⟨rfl, _⟩ := Rule.spells member
  rfl

theorem Rule.isQuotationMark {r : Rule} (member : r ∈ rules) (pattern : r.pattern = .quoted mark) :
    IsQuotationMark mark := by
  have spells := Rule.spells member
  rw [pattern] at spells
  exact spells.2

theorem Pattern.exists_inside {text lexeme rest : List Char}
    (found : (quoted mark).split text = some (lexeme, rest)) :
    ∃ inside, lexeme = mark :: (inside ++ [mark]) := by
  simp only [split] at found
  split at found
  · split at found
    · obtain ⟨⟨inside, _⟩, _, same⟩ := Option.map_eq_some_iff.mp found
      cases same
      exact ⟨inside, rfl⟩
    · cases found
  · cases found

theorem Rule.first_ne {r : Rule} (member : r ∈ rules) :
    match r.pattern with
    | .exact first _ | .word first _ => first ≠ '"' ∧ first ≠ '\''
    | _ => True := by
  revert r
  simp [rules]

/-- At a mark only the rule of strings with this mark can match. -/
theorem Rule.match?_mark {r : Rule} (quotation : IsQuotationMark mark) (member : r ∈ rules)
    (other : r.pattern ≠ .quoted mark) (text : List Char) : r.match? (mark :: text) = none := by
  have differs := Rule.first_ne member
  obtain ⟨kind, pattern⟩ := r
  cases pattern with
  | exact first more | word first more =>
    have first_ne : first ≠ mark := by
      rcases quotation with rfl | rfl
      · exact differs.1
      · exact differs.2
    simp [match?, Pattern.split, Pattern.behind?, first_ne]
  | quoted mark' =>
    have mark_ne : mark ≠ mark' := fun same => other (congrArg Pattern.quoted same.symm)
    simp [match?, Pattern.split, mark_ne]
  | lineComment | blockComment | number | name => rcases quotation with rfl | rfl <;> rfl

theorem firstMatch?_quoted (quotation : IsQuotationMark mark) (text : List Char) :
    firstMatch? (mark :: text) = (Rule.quoted mark).match? (mark :: text) := by
  cases first : firstMatch? (mark :: text) with
  | none => exact (List.findSome?_eq_none_iff.mp first _ (Rule.quoted_mem quotation)).symm
  | some m =>
    obtain ⟨r, member, found⟩ := List.exists_of_findSome?_eq_some first
    by_cases pattern : r.pattern = .quoted mark
    · rw [← Rule.eq_quoted member pattern, found]
    · cases (Rule.match?_mark quotation member pattern text).symm.trans found

theorem match?_quoted (quotation : IsQuotationMark mark) (text : List Char) :
    (Rule.quoted mark).match? (mark :: text) =
      (Pattern.splitQuoted mark false (text.takeWhile (· != '\n'))).map fun (inside, behind) =>
        ⟨.string, mark :: (inside ++ [mark]), behind ++ text.dropWhile (· != '\n')⟩ := by
  obtain ⟨_, carriage, _⟩ := quotation.other
  rw [Rule.match?, Rule.quoted, Pattern.split, Pattern.splitQuoted_line_append _ _ _ carriage]
  simp [Option.map_map, Function.comp_def]

theorem newline_not_mem_line (text : List Char) : '\n' ∉ text.takeWhile (· != '\n') := by
  intro member
  simpa using List.mem_takeWhile_imp member

/-- The rule matches exactly where another mark is on the line, and its match is the one of
`ClosesAt`. -/
theorem match?_quoted_iff (quotation : IsQuotationMark mark) (text : List Char) :
    let line := text.takeWhile (· != '\n')
    let below := text.dropWhile (· != '\n')
    (((Rule.quoted mark).match? (mark :: text)).isSome ↔ mark ∈ line) ∧
      ∀ m, (Rule.quoted mark).match? (mark :: text) = some m ↔ ∃ inside behind,
        ClosesAt mark [] line inside behind ∧
          m = ⟨.string, mark :: (inside ++ [mark]), behind ++ below⟩ := by
  intro line below
  obtain ⟨backslash, _, _⟩ := quotation.other
  have single : '\n' ∉ line := newline_not_mem_line text
  have absent : Pattern.splitQuoted mark false line = none ↔ mark ∉ line :=
    Pattern.splitQuoted_eq_none_iff single
  have closes (inside behind : List Char) :
      Pattern.splitQuoted mark false line = some (inside, behind) ↔
        ClosesAt mark [] line inside behind :=
    Pattern.splitQuoted_eq_some_iff backslash single (by simp)
  rw [match?_quoted quotation]
  constructor
  · rw [Option.isSome_map, Option.isSome_iff_ne_none, ne_eq, absent, not_not]
  · intro m
    rw [Option.map_eq_some_iff]
    constructor
    · rintro ⟨⟨inside, behind⟩, split, rfl⟩
      exact ⟨inside, behind, (closes inside behind).mp split, rfl⟩
    · rintro ⟨inside, behind, closed, rfl⟩
      exact ⟨(inside, behind), (closes inside behind).mpr closed, rfl⟩

/-- A given string is the match exactly when its inner marks are escaped and a backslash at its end
leaves no later mark on the line. -/
theorem match?_quoted_self_iff {inside rest : List Char} (quotation : IsQuotationMark mark) :
    (Rule.quoted mark).match? (mark :: (inside ++ mark :: rest)) =
        some ⟨.string, mark :: (inside ++ [mark]), rest⟩ ↔
      '\n' ∉ inside ∧ EscapedBehind mark [] inside ∧
        (['\\'] <:+ inside → mark ∉ rest.takeWhile (· != '\n')) := by
  have line (single : '\n' ∉ inside) :
      (inside ++ mark :: rest).takeWhile (· != '\n') =
          inside ++ mark :: rest.takeWhile (· != '\n') ∧
        (inside ++ mark :: rest).dropWhile (· != '\n') = rest.dropWhile (· != '\n') := by
    have all : ∀ c ∈ inside ++ [mark], (c != '\n') = true := by
      intro c member
      rw [bne_iff_ne]
      rcases List.mem_append.mp member with within | last
      · exact fun same => single (same ▸ within)
      · rw [List.mem_singleton.mp last]
        exact quotation.other.2.2
    rw [List.append_cons, List.takeWhile_append_of_pos all, List.dropWhile_append_of_pos all,
      ← List.append_cons]
    exact ⟨rfl, rfl⟩
  rw [(match?_quoted_iff quotation _).2]
  constructor
  · rintro ⟨inside', behind, closes, same⟩
    obtain ⟨_, lexeme, _⟩ := Match.mk.inj same
    obtain rfl : inside = inside' := List.append_cancel_right (List.cons.inj lexeme).2
    obtain ⟨split, escaped, last⟩ := closesAt_iff.mp closes
    have single : '\n' ∉ inside := by
      intro newline
      apply newline_not_mem_line (inside ++ mark :: rest)
      rw [split]
      exact List.mem_append_left _ newline
    rw [(line single).1] at split
    obtain rfl := (List.cons.inj (List.append_cancel_left split)).2
    exact ⟨single, escaped, last⟩
  · rintro ⟨single, escaped, last⟩
    obtain ⟨taken, left⟩ := line single
    refine ⟨inside, _, closesAt_iff.mpr ⟨taken, escaped, last⟩, ?_⟩
    rw [left, List.takeWhile_append_dropWhile]

end Rules

theorem Scanner.Reads.exists_match {s : Scanner} {before : List Char} {ts : List Token}
    (reads : s.Reads ts) (stands : s.Behind before) :
    ∀ t ∈ ts, ∃ front m, before ++ s.rest = front ++ (m.lexeme ++ m.rest) ∧
      firstMatch? (m.lexeme ++ m.rest) = some m ∧ t.position = .behind front ∧ t.kind = m.kind ∧
      Payload.ofLexeme? m.kind m.lexeme = some t.payload ∧ t.width = m.lexeme.length := by
  induction reads generalizing before with
  | finish => simp
  | @token s gap m t ts same _ _ found read _ ih =>
    have further := stands.pass (gap ++ m.lexeme) m.rest
    obtain ⟨payload, isPayload, rfl⟩ := Option.map_eq_some_iff.mp read
    refine List.forall_mem_cons.mpr ⟨?_, fun u member => ?_⟩
    · exact ⟨before ++ gap, m, by simp [same], found,
        (stands.pass gap (m.lexeme ++ m.rest)).position, rfl, isPayload, rfl⟩
    · obtain ⟨front, m', text, others⟩ := ih further u member
      refine ⟨front, m', ?_, others⟩
      rw [← text, same]
      simp [Scanner.pass]

structure Token.Quotes (t : Token) (source : Source) (mark : Char) (inside : List Char) : Prop where
  quotation : IsQuotationMark mark
  single : '\n' ∉ inside
  escaped : Escaped mark inside
  payload : t.payload = .text (.ofList inside)
  width : t.width = inside.length + 2
  place : ∃ front back, source.trimmed.toList = front ++ mark :: (inside ++ [mark]) ++ back ∧
    t.position = .behind front

theorem Rule.quoted_of_string {r : Rule} (member : r ∈ rules) (string : r.kind = .string) :
    ∃ mark, IsQuotationMark mark ∧ r = Rule.quoted mark := by
  revert r
  simp [rules, Rule.quoted, IsQuotationMark]

theorem Rule.head_of_quoted {mark : Char} {text : List Char} {m : Match}
    (matched : (Rule.quoted mark).match? text = some m) : ∃ more, text = mark :: more := by
  obtain ⟨_, split, _⟩ := Option.map_eq_some_iff.mp matched
  obtain ⟨inside, lexeme⟩ := Pattern.exists_inside split
  exact ⟨_, by rw [← (Pattern.split_append split).1, lexeme, List.cons_append]⟩

/-- Every string token of a source stands between two marks, with the text inside as its payload. -/
theorem quotes_of_tokenize {source : Source} {ts : List Token}
    (scanned : tokenize source = .ok ts) :
    ∀ t ∈ ts, t.kind = .string → ∃ mark inside, t.Quotes source mark inside := by
  intro t member string
  have start : (Scanner.ofSource source).Behind [] := ⟨rfl, rfl⟩
  obtain ⟨front, m, text, found, position, kind, payload, width⟩ :=
    (Scanner.tokens_eq_ok_iff.mp scanned).exists_match start t member
  obtain ⟨r, among, matched⟩ := List.exists_of_findSome?_eq_some found
  have rule : r.kind = .string := by
    obtain ⟨_, _, rfl⟩ := Option.map_eq_some_iff.mp matched
    exact kind.symm.trans string
  obtain ⟨mark, quotation, rfl⟩ := Rule.quoted_of_string among rule
  obtain ⟨more, starts⟩ := Rule.head_of_quoted matched
  rw [starts] at matched
  obtain ⟨inside, behind, closes, rfl⟩ := ((match?_quoted_iff quotation more).2 m).mp matched
  have line := newline_not_mem_line more
  rw [closes.split] at line
  refine ⟨mark, inside, quotation, fun newline => line (List.mem_append_left _ newline),
    closes.escaped, ?_, ?_, front,
    behind ++ more.dropWhile (· != '\n'), ?_, position⟩
  · simpa [Payload.ofLexeme?] using payload.symm
  · simpa using width
  · simpa [Scanner.ofSource] using text

theorem dropFinalBreak_eq_self {cs : List Char} (line : cs.getLast? ≠ some '\n') :
    dropFinalBreak cs = cs := by
  rcases dropFinalBreak_cases cs with same | same | same
  · exact same.symm
  · rw [same] at line
    simp at line
  · rw [same] at line
    simp at line

theorem Escaped.closesAt {mark : Char} {inside : List Char} (escaped : Escaped mark inside) :
    ClosesAt mark [] (inside ++ [mark]) inside [] :=
  closesAt_iff.mpr ⟨rfl, escaped, fun _ => List.not_mem_nil⟩

/-- A text with escaped marks, put between two marks, is scanned to a single string. -/
theorem tokenize_quoted {mark : Char} {inside : List Char} (quotation : IsQuotationMark mark)
    (single : '\n' ∉ inside) (escaped : Escaped mark inside) :
    tokenize (.ofContent (.ofList (mark :: (inside ++ [mark])))) =
      .ok [⟨.string, .text (.ofList inside), 1, 1, inside.length + 2⟩] := by
  have matched : firstMatch? (mark :: (inside ++ [mark])) =
      some ⟨.string, mark :: (inside ++ [mark]), []⟩ := by
    rw [firstMatch?_quoted quotation]
    exact (match?_quoted_self_iff quotation).mpr ⟨single, escaped, fun _ => by simp⟩
  have kept : dropFinalBreak (mark :: (inside ++ [mark])) = mark :: (inside ++ [mark]) := by
    apply dropFinalBreak_eq_self
    rw [← List.cons_append, List.getLast?_concat]
    exact fun same => quotation.other.2.2 (Option.some.inj same)
  rw [tokenize_ofContent, String.toList_ofList, kept, Scanner.tokens_eq_ok_iff]
  refine .cons .none rfl matched (show Kind.string ≠ .comment by decide) ?_ (.finish .none)
  simp [Scanner.token?, Payload.ofLexeme?, Scanner.pass, Scanner.start]

/-- A mark opens a string exactly when the line holds another one. The string closes at the first
mark without a backslash before it, or else at the last mark. Consequently the string tokens are
exactly the texts with escaped marks, between two marks on a line. -/
theorem strings_exact :
    (∀ mark text, IsQuotationMark mark →
      let line := text.takeWhile (· != '\n')
      let below := text.dropWhile (· != '\n')
      firstMatch? (mark :: text) = (Rule.quoted mark).match? (mark :: text) ∧
      (((Rule.quoted mark).match? (mark :: text)).isSome ↔ mark ∈ line) ∧
      ∀ m, (Rule.quoted mark).match? (mark :: text) = some m ↔ ∃ inside behind,
        ClosesAt mark [] line inside behind ∧
          m = ⟨.string, mark :: (inside ++ [mark]), behind ++ below⟩) ∧
    (∀ mark inside, IsQuotationMark mark → '\n' ∉ inside → Escaped mark inside →
      tokenize (.ofContent (.ofList (mark :: (inside ++ [mark])))) =
        .ok [⟨.string, .text (.ofList inside), 1, 1, inside.length + 2⟩]) ∧
    ∀ source ts, tokenize source = .ok ts →
      ∀ t ∈ ts, t.kind = .string → ∃ mark inside, t.Quotes source mark inside := by
  refine ⟨fun mark text quotation => ?_, fun _ _ => tokenize_quoted, fun _ _ => quotes_of_tokenize⟩
  exact ⟨firstMatch?_quoted quotation text, match?_quoted_iff quotation text⟩

/-- A string whose marks are all escaped ends at the last of them, and so in a backslash. -/
theorem strings_exact_backslash :
    let inside := ['a', '\\', '"', '\\']
    let source := Source.ofContent (.ofList ('"' :: (inside ++ ['"'])))
    let t : Token := ⟨.string, .text (.ofList inside), 1, 1, 6⟩
    IsQuotationMark '"' ∧ '\n' ∉ inside ∧ Escaped '"' inside ∧
      firstMatch? ('"' :: (inside ++ ['"'])) = some ⟨.string, '"' :: (inside ++ ['"']), []⟩ ∧
      tokenize source = .ok [t] ∧ ∃ mark inside, t.Quotes source mark inside := by
  intro inside source t
  have quotation : IsQuotationMark '"' := .inl rfl
  have escaped : Escaped '"' inside :=
    escapedBehind_cons.mpr ⟨by decide, escapedBehind_cons.mpr ⟨by decide,
      escapedBehind_cons.mpr ⟨fun _ => by decide, .of_not_mem (by decide)⟩⟩⟩
  have single : '\n' ∉ inside := by decide
  obtain ⟨matching, closing, quoting⟩ := strings_exact
  have ok := closing '"' inside quotation single escaped
  obtain ⟨first, _, found⟩ := matching '"' (inside ++ ['"']) quotation
  refine ⟨quotation, single, escaped, ?_, ok, ?_⟩
  · rw [first, found]
    exact ⟨inside, [], escaped.closesAt, rfl⟩
  · exact quoting source [t] ok t List.mem_cons_self rfl

end BracketScript
