import BracketScript.Proofs.Apart
import BracketScript.Proofs.Gap

/-! A line break is a seam: no lexeme reaches over it but a block comment. Where more text
stands behind a break at the end of a text, the tokens of the text come out as before, unless
a block comment was left open, and the scanner goes on at the break. A carriage return at
the end of a text is a seam as well; it can only be the end of a comment. -/
namespace BracketScript

/-- Texts in front of which every lexeme but a comment ends. -/
inductive Seam : List Char → Prop where
  | newline {more : List Char} : Seam ('\n' :: more)
  | carriage : Seam ['\r']

/-- The text starts with a block comment that is never closed. -/
def Unclosed (text : List Char) : Prop :=
  ∃ body, text = '/' :: '*' :: body ∧ ¬ commentEnd <:+: body

section Split

variable {text tail : List Char}

theorem takeWhile_stop {p : Char → Bool} (stop : ∀ c ∈ tail.head?, p c = false) :
    (text ++ tail).takeWhile p = text.takeWhile p := by
  induction text with
  | nil =>
    cases tail with
    | nil => rfl
    | cons c tail => simp [stop c rfl]
  | cons c text ih => simp only [List.cons_append, List.takeWhile_cons, ih]

theorem dropWhile_stop {p : Char → Bool} (stop : ∀ c ∈ tail.head?, p c = false) :
    (text ++ tail).dropWhile p = text.dropWhile p ++ tail := by
  induction text with
  | nil =>
    cases tail with
    | nil => rfl
    | cons c tail => simp [stop c rfl]
  | cons c text ih =>
    simp only [List.cons_append, List.dropWhile_cons, ih]
    split <;> rfl

namespace Seam

theorem stop {p : Char → Bool} (seam : Seam tail) (newline : p '\n' = false)
    (carriage : p '\r' = false) : ∀ c ∈ tail.head?, p c = false := by
  intro c first
  cases seam <;> cases first <;> assumption

end Seam

namespace Pattern

theorem behind?_seam (seam : Seam tail) {start : List Char} (newline : '\n' ∉ start)
    (carriage : '\r' ∉ start) :
    behind? start (text ++ tail) = (behind? start text).map (· ++ tail) := by
  induction start generalizing text with
  | nil => rfl
  | cons c start ih =>
    rw [List.mem_cons, not_or] at newline carriage
    cases text with
    | nil => cases seam <;> simp [behind?, Ne.symm newline.1, Ne.symm carriage.1]
    | cons d text =>
      simp only [List.cons_append, behind?, ih newline.2 carriage.2]
      split <;> rfl

theorem behind?_cons_seam (seam : Seam tail) {first : Char} {start : List Char}
    (newline : '\n' ∉ start) (carriage : '\r' ∉ start) (nonempty : text ≠ []) :
    behind? (first :: start) (text ++ tail) = (behind? (first :: start) text).map (· ++ tail) := by
  cases text with
  | nil => contradiction
  | cons c text =>
    simp only [List.cons_append, behind?, behind?_seam seam newline carriage]
    split <;> rfl

theorem splitQuoted_seam (seam : Seam tail) {mark : Char} (other : mark ≠ '\r') (escaped : Bool) :
    splitQuoted mark escaped (text ++ tail) =
      (splitQuoted mark escaped text).map fun (inside, rest) => (inside, rest ++ tail) := by
  induction text generalizing escaped with
  | nil => cases seam <;> simp [splitQuoted, other.symm]
  | cons c text ih =>
    simp only [List.cons_append, splitQuoted, ih]
    split
    · rfl
    · split
      · split
        · cases splitQuoted mark false text <;> rfl
        · rfl
      · simp [Option.map_map, Function.comp_def]

theorem splitNumber_seam (seam : Seam tail) :
    splitNumber (text ++ tail) =
      (splitNumber text).map fun (lexeme, rest) => (lexeme, rest ++ tail) := by
  have stop : ∀ c ∈ tail.head?, c.isDigit = false := seam.stop rfl rfl
  simp only [splitNumber, takeWhile_stop stop, dropWhile_stop stop]
  split
  · rfl
  · cases text.dropWhile Char.isDigit with
    | nil => cases seam <;> rfl
    | cons c rest =>
      by_cases point : c = '.'
      · subst point
        simp [takeWhile_stop stop, dropWhile_stop stop]
      · simp [point]

theorem splitComment_closed {inside rest : List Char}
    (closed : splitComment text = some (inside, rest)) :
    splitComment (text ++ tail) = some (inside, rest ++ tail) := by
  obtain ⟨body, rfl, outside⟩ := splitComment_eq_some closed
  rw [← splitComment_append closed, List.append_assoc]
  exact splitComment_append_end outside

/-- Patterns whose lexemes hold no line break behind their first character. -/
def IsSeamless : Pattern → Prop
  | exact _ more | word _ more => '\n' ∉ more ∧ '\r' ∉ more
  | quoted mark => mark ≠ '\r'
  | lineComment | blockComment => False
  | number | name => True

/-- Patterns other than comments match the same lexeme with and without a seam behind the text. -/
theorem split_seam (seam : Seam tail) {p : Pattern} (seamless : p.IsSeamless)
    (nonempty : text ≠ []) :
    p.split (text ++ tail) = (p.split text).map fun (lexeme, rest) => (lexeme, rest ++ tail) := by
  cases p with
  | exact first start =>
    obtain ⟨newline, carriage⟩ := seamless
    simp only [split, behind?_cons_seam seam newline carriage nonempty, Option.map_map,
      Function.comp_def]
  | word first start =>
    obtain ⟨newline, carriage⟩ := seamless
    have next (rest : List Char) : (rest ++ tail).head?.any Text.isWordCharacter =
        rest.head?.any Text.isWordCharacter := by
      cases rest <;> cases seam <;> rfl
    simp only [split, behind?_cons_seam seam newline carriage nonempty]
    cases behind? (first :: start) text with
    | none => rfl
    | some rest =>
      simp only [Option.map_some, Option.bind_eq_bind, Option.bind_some, next]
      split <;> rfl
  | lineComment | blockComment => cases seamless
  | number => exact splitNumber_seam seam
  | quoted mark =>
    cases text with
    | nil => exact absurd rfl nonempty
    | cons c text =>
      simp only [List.cons_append, split, splitQuoted_seam seam seamless]
      split
      · simp [Option.map_map, Function.comp_def]
      · rfl
  | name =>
    have stop : ∀ c ∈ tail.head?, isNameCharacter c = false := seam.stop rfl rfl
    simp only [split, takeWhile_stop stop, dropWhile_stop stop]
    split <;> rfl

theorem split_lineComment_newline (more : List Char) (nonempty : text ≠ []) :
    split (text ++ '\n' :: more) lineComment =
      (split text lineComment).map fun (lexeme, rest) => (lexeme, rest ++ '\n' :: more) := by
  match text, nonempty with
  | [c], _ =>
    by_cases slash : c = '/'
    · subst slash; rfl
    · simp [split, slash]
  | c :: d :: text, _ =>
    by_cases slashes : c = '/' ∧ d = '/'
    · obtain ⟨rfl, rfl⟩ := slashes
      have stop : ∀ c ∈ ('\n' :: more).head?, (c != '\n') = false := by simp
      simp [split, takeWhile_stop stop, dropWhile_stop stop]
    · have neither (text : List Char) : split (c :: d :: text) lineComment = none := by
        simp only [split]
        split
        · next same => cases same; simp at slashes
        · rfl
      rw [List.cons_append, List.cons_append, neither, neither]
      rfl

theorem split_blockComment_closed (seam : Seam tail) (nonempty : text ≠ [])
    (closed : ¬ Unclosed text) :
    split (text ++ tail) blockComment =
      (split text blockComment).map fun (lexeme, rest) => (lexeme, rest ++ tail) := by
  match text, nonempty with
  | [c], _ =>
    by_cases slash : c = '/'
    · subst slash; cases seam <;> rfl
    · simp [split, slash]
  | c :: d :: text, _ =>
    by_cases opens : c = '/' ∧ d = '*'
    · obtain ⟨rfl, rfl⟩ := opens
      cases comment : splitComment text with
      | none => exact absurd ⟨text, rfl, splitComment_eq_none_iff.mp comment⟩ closed
      | some parts => simp [split, comment, splitComment_closed comment]
    · have neither (text : List Char) : split (c :: d :: text) blockComment = none := by
        simp only [split]
        split
        · next same => cases same; simp at opens
        · rfl
      rw [List.cons_append, List.cons_append, neither, neither]
      rfl

end Pattern

end Split

def Match.append (m : Match) (more : List Char) : Match := { m with rest := m.rest ++ more }

section Rules

variable {text tail : List Char}

theorem Rule.pattern_cases {r : Rule} (member : r ∈ rules) :
    r.pattern = .lineComment ∨ r.pattern = .blockComment ∨ r.pattern.IsSeamless := by
  revert r
  simp [rules, Pattern.IsSeamless]

/-- If comments match alike before a seam, the first match does. -/
theorem firstMatch?_seam (seam : Seam tail) (nonempty : text ≠ [])
    (comments : ∀ p : Pattern, p = .lineComment ∨ p = .blockComment → p.split (text ++ tail) =
      (p.split text).map fun (lexeme, rest) => (lexeme, rest ++ tail)) :
    firstMatch? (text ++ tail) = (firstMatch? text).map (·.append tail) := by
  have same : ∀ r ∈ rules, r.match? (text ++ tail) = (r.match? text).map (·.append tail) := by
    intro r member
    have split : r.pattern.split (text ++ tail) =
        (r.pattern.split text).map fun (lexeme, rest) => (lexeme, rest ++ tail) := by
      rcases Rule.pattern_cases member with pattern | pattern | seamless
      · exact comments _ (.inl pattern)
      · exact comments _ (.inr pattern)
      · exact Pattern.split_seam seam seamless nonempty
    simp only [Rule.match?, split, Option.map_map]
    rfl
  rw [firstMatch?, firstMatch?, List.map_findSome?]
  generalize rules = table at same
  induction table with
  | nil => rfl
  | cons r table ih =>
    obtain ⟨first, others⟩ := List.forall_mem_cons.mp same
    simp only [List.findSome?_cons, first, ih others, Function.comp_apply]

theorem firstMatch?_newline (nonempty : text ≠ []) (closed : ¬ Unclosed text) (more : List Char) :
    firstMatch? (text ++ '\n' :: more) = (firstMatch? text).map (·.append ('\n' :: more)) := by
  refine firstMatch?_seam .newline nonempty fun p comment => ?_
  rcases comment with rfl | rfl
  · exact Pattern.split_lineComment_newline more nonempty
  · exact Pattern.split_blockComment_closed .newline nonempty closed

/-- An unclosed block comment falls through to the rule of the slash. -/
theorem Unclosed.firstMatch? (unclosed : Unclosed text) :
    ∃ rest, firstMatch? text = some ⟨.div, ['/'], '*' :: rest⟩ := by
  obtain ⟨body, rfl, outside⟩ := unclosed
  refine ⟨body, ?_⟩
  have line : Rule.match? ⟨.comment, .lineComment⟩ ('/' :: '*' :: body) = none := rfl
  have block : Rule.match? ⟨.comment, .blockComment⟩ ('/' :: '*' :: body) = none := by
    simp only [Rule.match?, Pattern.split, Pattern.splitComment_eq_none_iff.mpr outside,
      Option.map_none]
  simp only [BracketScript.firstMatch?, rules, List.findSome?_cons, block]
  rfl

theorem firstMatch?_star (rest : List Char) :
    firstMatch? ('*' :: rest) = some ⟨.mult, ['*'], rest⟩ := rfl

end Rules

namespace Gap

/-- A gap stays one if the first character behind it is the same or becomes a line break. -/
theorem change {gap rest rest' : List Char} (stands : Gap gap rest)
    (starts : ∀ c ∈ rest'.head?, c ∈ rest.head? ∨ c = '\n') : Gap gap rest' := by
  induction stands with
  | none => exact .none
  | space _ ih => exact .space (ih starts)
  | @lineComment body gap rest inside ended _ ih =>
    refine .lineComment inside (fun c first => ?_) (ih starts)
    cases gap with
    | nil =>
      rcases starts c first with first | same
      · exact ended c first
      · exact same
    | cons d gap => exact ended c first
  | blockComment outside _ ih => exact .blockComment outside (ih starts)

theorem star {gap rest body : List Char} (stands : Gap gap rest)
    (same : '*' :: body = gap ++ rest) : gap = [] := by
  cases stands with
  | none => rfl
  | _ => cases same

end Gap

namespace Scanner

def append (s : Scanner) (more : List Char) : Scanner := { s with rest := s.rest ++ more }

theorem tokens_eq_of_next_eq {s s' : Scanner} (same : s.next = s'.next) :
    s.tokens = s'.tokens := by
  rcases next : s'.next with ⟨_ | e | t, behind⟩
  · rw [tokens_of_next_none next, tokens_of_next_none (same.trans next)]
  · rw [tokens_of_next_error next, tokens_of_next_error (same.trans next)]
  · rw [tokens_of_next_ok next, tokens_of_next_ok (same.trans next)]

theorem Reads.star {s : Scanner} {ts : List Token} {rest : List Char} (reads : s.Reads ts)
    (star : s.rest = '*' :: rest) : ∃ t us, ts = t :: us ∧ t.kind = .mult := by
  cases reads with
  | finish stands =>
    rw [star] at stands
    cases stands.star (by rw [List.append_nil])
  | @token s gap m t ts same stands lexical found read _ =>
    obtain rfl := stands.star (star.symm.trans same)
    rw [← same.trans (List.nil_append _), star, firstMatch?_star] at found
    cases found
    obtain ⟨payload, _, rfl⟩ := Option.map_eq_some_iff.mp read
    exact ⟨_, ts, rfl, rfl⟩

/-- A line break behind a text without an open comment leaves the tokens before it unchanged. -/
theorem Reads.tokens_newline {s : Scanner} {ts : List Token} (reads : s.Reads ts)
    (inside : ts.IsChain fun d m => ¬ d.OpensComment m) (more : List Char) :
    (s.append ('\n' :: more)).tokens =
      (s.pass s.rest ('\n' :: more)).tokens.map (ts ++ ·) := by
  induction reads with
  | @finish s stands =>
    have next : (s.append ('\n' :: more)).next = (s.pass s.rest ('\n' :: more)).next :=
      next_eq_pass (stands.change (by simp)) (s.append ('\n' :: more)) rfl
    rw [tokens_eq_of_next_eq next]
    cases (s.pass s.rest ('\n' :: more)).tokens <;> rfl
  | @token s gap m t ts same stands lexical found read reads ih =>
    have closed : ¬ Unclosed (m.lexeme ++ m.rest) := by
      intro unclosed
      obtain ⟨rest, div⟩ := unclosed.firstMatch?
      cases found.symm.trans div
      obtain ⟨t', us, rfl, mult⟩ := reads.star rfl
      obtain ⟨payload, _, rfl⟩ := Option.map_eq_some_iff.mp read
      exact (List.isChain_cons_cons.mp inside).1 ⟨rfl, mult⟩
    have nonempty : m.lexeme ++ m.rest ≠ [] := by simp [(firstMatch?_append found).2]
    have found' : firstMatch? (m.lexeme ++ m.rest ++ '\n' :: more) =
        some (m.append ('\n' :: more)) := by
      rw [firstMatch?_newline nonempty closed, found]
      rfl
    have before : Gap gap (m.lexeme ++ m.rest ++ '\n' :: more) := stands.change fun c first => by
      rw [List.head?_append_of_ne_nil _ nonempty] at first
      exact .inl first
    have next : (s.append ('\n' :: more)).next =
        (some (.ok t), (s.pass (gap ++ m.lexeme) m.rest).append ('\n' :: more)) := by
      have starts := Lexical.of_match found' (lexical.comment m found)
      rw [next_eq_pass before (s.append ('\n' :: more)) (by simp [append, same]),
        next_token (s := (s.append ('\n' :: more)).pass gap _) starts found' read, pass_pass]
      rfl
    have place : (s.pass (gap ++ m.lexeme) m.rest).pass m.rest ('\n' :: more) =
        s.pass s.rest ('\n' :: more) := by
      rw [pass_pass, same, List.append_assoc]
    have further := ih inside.tail
    rw [show (s.pass (gap ++ m.lexeme) m.rest).rest = m.rest from rfl, place] at further
    rw [tokens_of_next_ok next, further]
    cases (s.pass s.rest ('\n' :: more)).tokens <;> rfl

end Scanner

/-! A carriage return at the end of a text is part of a line comment, which may also end before
it. -/

section Carriage

variable {text : List Char}

theorem firstMatch?_comment {p : Pattern} (comment : p = .lineComment ∨ p = .blockComment)
    {parts : List Char × List Char} (split : p.split text = some parts) :
    ∃ m, firstMatch? text = some m ∧ m.kind = .comment := by
  rcases comment with rfl | rfl
  · refine ⟨⟨.comment, parts.1, parts.2⟩, ?_, rfl⟩
    simp only [firstMatch?, rules, List.findSome?_cons, Rule.match?, split, Option.map_some]
  · cases line : Pattern.lineComment.split text with
    | some parts => exact ⟨⟨.comment, parts.1, parts.2⟩, by
        simp only [firstMatch?, rules, List.findSome?_cons, Rule.match?, line,
          Option.map_some], rfl⟩
    | none => exact ⟨⟨.comment, parts.1, parts.2⟩, by
        simp only [firstMatch?, rules, List.findSome?_cons, Rule.match?, line, split,
          Option.map_some, Option.map_none], rfl⟩

theorem Pattern.split_comment_append {p : Pattern}
    (comment : p = .lineComment ∨ p = .blockComment) {parts : List Char × List Char}
    (split : p.split text = some parts) (tail : List Char) :
    ∃ parts, p.split (text ++ tail) = some parts := by
  rcases comment with rfl | rfl
  · simp only [Pattern.split] at split
    split at split
    · exact ⟨_, rfl⟩
    · cases split
  · simp only [Pattern.split] at split
    split at split
    · obtain ⟨closed, same, _⟩ := Option.map_eq_some_iff.mp split
      simp [Pattern.split, Pattern.splitComment_closed same]
    · cases split

theorem firstMatch?_carriage {m : Match} (found : firstMatch? (text ++ ['\r']) = some m)
    (lexeme : m.kind ≠ .comment) (nonempty : text ≠ []) :
    ∃ m', firstMatch? text = some m' ∧ m = m'.append ['\r'] := by
  have uncommented (p : Pattern) (comment : p = .lineComment ∨ p = .blockComment) :
      p.split (text ++ ['\r']) = none := by
    refine Option.eq_none_iff_forall_ne_some.mpr fun parts split => ?_
    obtain ⟨m', found', same⟩ := firstMatch?_comment comment split
    cases found.symm.trans found'
    exact lexeme same
  have before (p : Pattern) (comment : p = .lineComment ∨ p = .blockComment) :
      p.split text = none := by
    refine Option.eq_none_iff_forall_ne_some.mpr fun parts split => ?_
    obtain ⟨parts', split'⟩ := Pattern.split_comment_append comment split ['\r']
    cases (uncommented p comment).symm.trans split'
  have comments (p : Pattern) (comment : p = .lineComment ∨ p = .blockComment) :
      p.split (text ++ ['\r']) =
        (p.split text).map fun (lexeme, rest) => (lexeme, rest ++ ['\r']) := by
    rw [uncommented p comment, before p comment]
    rfl
  rw [firstMatch?_seam .carriage nonempty comments, Option.map_eq_some_iff] at found
  obtain ⟨m', found, same⟩ := found
  exact ⟨m', found, same.symm⟩

theorem Gap.dropLast {gap : List Char} (stands : Gap gap [])
    (last : gap.getLast? = some '\r') : Gap gap.dropLast [] := by
  generalize empty : ([] : List Char) = rest at stands ⊢
  induction stands with
  | none => cases last
  | @space gap rest _ ih =>
    cases gap with
    | nil => cases last
    | cons c gap => exact .space (ih last empty)
  | @lineComment body gap rest inside ended stands ih =>
    cases gap with
    | nil =>
      rw [List.append_nil] at last ⊢
      cases body with
      | nil => cases last
      | cons c body =>
        have within : '\n' ∉ (c :: body).dropLast := fun member =>
          inside ((List.dropLast_sublist _).subset member)
        have line : Gap ('/' :: '/' :: (c :: body).dropLast ++ []) rest :=
          .lineComment within (by simp [← empty]) .none
        simpa using line
    | cons d gap =>
      cases ended d rfl
      cases stands
  | @blockComment body gap rest outside stands ih =>
    cases gap with
    | nil =>
      have slash : ('/' :: '*' :: body ++ commentEnd).getLast? = some '/' :=
        List.getLast?_append_of_ne_nil _ (by simp [commentEnd])
      rw [List.append_nil] at last
      cases slash.symm.trans last
    | cons d gap =>
      rw [List.getLast?_append_of_ne_nil _ (List.cons_ne_nil d gap)] at last
      rw [List.dropLast_append_of_ne_nil (List.cons_ne_nil d gap)]
      exact .blockComment outside (ih last empty)

namespace Scanner

/-- A carriage return at the end of a readable text is part of a comment and can be dropped. -/
theorem Reads.dropLast {s : Scanner} {ts : List Token} (reads : s.Reads ts)
    (last : s.rest.getLast? = some '\r') :
    (⟨s.rest.dropLast, s.offset, s.position⟩ : Scanner).Reads ts := by
  induction reads with
  | finish stands => exact .finish (stands.dropLast last)
  | @token s gap m t ts same stands lexical found read reads ih =>
    have nonempty : m.lexeme ++ m.rest ≠ [] := by simp [(firstMatch?_append found).2]
    rw [same, List.getLast?_append_of_ne_nil _ nonempty] at last
    have split : (m.lexeme ++ m.rest).dropLast ++ ['\r'] = m.lexeme ++ m.rest :=
      List.dropLast_append_getLast? _ last
    have before : (m.lexeme ++ m.rest).dropLast ≠ [] := by
      intro empty
      rw [← split, empty] at found
      cases found
    have lexeme := lexical.comment m found
    rw [← split] at found
    obtain ⟨m', found', rfl⟩ := firstMatch?_carriage found lexeme before
    have stands' : Gap gap (m'.lexeme ++ (m'.rest ++ ['\r'])).dropLast := by
      refine stands.change fun c first => .inl ?_
      rw [← split, List.head?_append_of_ne_nil _ before]
      exact first
    have same' : s.rest.dropLast = gap ++ (m'.lexeme ++ (m'.rest ++ ['\r'])).dropLast := by
      rw [same]
      exact List.dropLast_append_of_ne_nil nonempty
    have behind := ih (by simp [Match.append, pass])
    refine .cons stands' same' found' lexeme read ?_
    simpa [Match.append, pass] using behind

end Scanner

end Carriage

end BracketScript
