import BracketScript.Proofs.Rows

/-! A space inserted between two tokens moves the rest of its line and changes nothing else. Rules
look ahead to the next character, to the end of a comment or to a closing mark, so the lexeme before
the space is unchanged. The one exception is a name spelled like a keyword, which the space would
end. -/
namespace BracketScript
open Pattern (isNameCharacter)

section Text

variable {front back lexeme rest : List Char}

theorem head?_spaced : ∀ c ∈ (front ++ ' ' :: back).head?, c ∈ (front ++ back).head? ∨ c = ' ' := by
  cases front with
  | nil =>
    rintro _ ⟨⟩
    exact .inr rfl
  | cons d front => exact fun c first => .inl first

theorem mem_takeWhile_spaced {p : Char → Bool} {c : Char} (other : c ≠ ' ') (space : p ' ' = true) :
    c ∈ (front ++ ' ' :: back).takeWhile p ↔ c ∈ (front ++ back).takeWhile p := by
  induction front with
  | nil => simp [space, other]
  | cons d front ih =>
    simp only [List.cons_append, List.takeWhile_cons]
    split
    · simp [ih]
    · rfl

theorem prefix_of_spaced (single : ' ' ∉ lexeme) (starts : lexeme <+: front ++ ' ' :: back) :
    lexeme <+: front := by
  obtain ⟨rest, same⟩ := starts
  rcases List.append_eq_append_iff.mp same with ⟨between, whole, _⟩ | ⟨beyond, whole, behind⟩
  · exact ⟨between, whole.symm⟩
  · cases beyond with
    | nil => exact ⟨[], by rw [whole, List.append_nil, List.append_nil]⟩
    | cons c beyond =>
      obtain ⟨rfl, _⟩ := List.cons.inj behind
      simp [whole] at single

theorem commentEnd_infix_spaced (inside : commentEnd <:+: front ++ ' ' :: back) :
    commentEnd <:+: front ++ back := by
  induction front with
  | nil =>
    rw [List.nil_append, List.infix_cons_iff] at inside
    rcases inside with ⟨_, same⟩ | inside
    · cases same
    · exact inside
  | cons c front ih =>
    rw [List.cons_append, List.infix_cons_iff] at inside ⊢
    rcases inside with starts | inside
    · have single : ' ' ∉ commentEnd := by decide
      rw [← List.cons_append] at starts
      exact .inl ((prefix_of_spaced single starts).trans (List.prefix_append _ back))
    · exact .inr (ih inside)

end Text

section Rules

variable {front back lexeme rest text : List Char} {r : Rule} {m : Match}

namespace Pattern

theorem isSome_lineComment_iff :
    (lineComment.split text).isSome = true ↔ ['/', '/'] <+: text := by
  constructor
  · intro taken
    simp only [split] at taken
    split at taken
    · exact ⟨_, rfl⟩
    · cases taken
  · rintro ⟨rest, rfl⟩
    rfl

theorem isSome_blockComment_iff :
    (blockComment.split text).isSome = true ↔
      ∃ body, text = '/' :: '*' :: body ∧ commentEnd <:+: body := by
  have closes (body : List Char) : (splitComment body).isSome = true ↔ commentEnd <:+: body := by
    rw [Option.isSome_iff_ne_none, ne_eq, splitComment_eq_none_iff, not_not]
  constructor
  · intro taken
    simp only [split] at taken
    split at taken
    · next body =>
      rw [Option.isSome_map] at taken
      exact ⟨body, rfl, (closes body).mp taken⟩
    · cases taken
  · rintro ⟨body, rfl, closed⟩
    simp only [split, Option.isSome_map]
    exact (closes body).mpr closed

theorem isSome_quoted_iff {mark : Char} (quotation : IsQuotationMark mark) :
    ((quoted mark).split text).isSome = true ↔
      ∃ body, text = mark :: body ∧ mark ∈ body.takeWhile (· != '\n') := by
  cases text with
  | nil => simp [split]
  | cons c text =>
    by_cases opens : c = mark
    · obtain rfl := opens
      have closed := (match?_quoted_iff quotation text).1
      rw [Rule.match?, Option.isSome_map, Rule.quoted] at closed
      simpa using closed
    · simp [split, opens]

end Pattern

/-- A match survives a space anywhere behind its lexeme. -/
theorem Rule.match?_spaced (member : r ∈ rules) (lexical : m.kind ≠ .comment)
    (left : m.rest = front ++ back) (found : r.match? (m.lexeme ++ (front ++ back)) = some m) :
    r.match? (m.lexeme ++ (front ++ ' ' :: back)) =
      some { m with rest := front ++ ' ' :: back } := by
  obtain ⟨kind, lexeme, rest⟩ := m
  obtain rfl : rest = front ++ back := left
  obtain ⟨_, rfl⟩ : _ ∧ r.kind = kind := match?_eq_some_iff.mp found
  have starts {p : Char → Prop} (space : p ' ') (stop : ∀ c ∈ (front ++ back).head?, p c) :
      ∀ c ∈ (front ++ ' ' :: back).head?, p c := by
    intro c first
    rcases head?_spaced c first with first | rfl
    · exact stop c first
    · exact space
  have spells := Rule.spells member
  cases pattern : r.pattern with
  | exact =>
    rw [match?_eq_some_iff, pattern, Pattern.split_exact_iff] at found ⊢
    exact ⟨⟨found.1.1, rfl⟩, rfl⟩
  | word =>
    rw [match?_eq_some_iff, pattern, Pattern.split_word_iff] at found ⊢
    obtain ⟨⟨fixed, _, stop⟩, _⟩ := found
    exact ⟨⟨fixed, rfl, starts rfl stop⟩, rfl⟩
  | number =>
    rw [match?_eq_some_iff, pattern, Pattern.split_number_iff] at found ⊢
    obtain ⟨⟨numeral, _, stop⟩, _⟩ := found
    exact ⟨⟨numeral, rfl, starts ⟨rfl, fun point => absurd point (by decide)⟩ stop⟩, rfl⟩
  | name =>
    rw [match?_eq_some_iff, pattern, Pattern.split_name_iff] at found ⊢
    obtain ⟨⟨nonempty, _, letters, stop⟩, _⟩ := found
    exact ⟨⟨nonempty, rfl, letters, starts rfl stop⟩, rfl⟩
  | lineComment | blockComment =>
    rw [pattern] at spells
    exact absurd spells lexical
  | quoted mark =>
    have quotation := Rule.isQuotationMark member pattern
    obtain ⟨inside, rfl⟩ := Pattern.exists_inside (pattern ▸ (match?_eq_some_iff.mp found).1)
    obtain rfl := Rule.eq_quoted member pattern
    have text (rest : List Char) :
        mark :: (inside ++ [mark]) ++ rest = mark :: (inside ++ mark :: rest) := by simp
    rw [text] at found ⊢
    obtain ⟨single, escaped, last⟩ := (match?_quoted_self_iff quotation).mp found
    refine (match?_quoted_self_iff quotation).mpr ⟨single, escaped, fun backslash member => ?_⟩
    exact last backslash ((mem_takeWhile_spaced quotation.ne_space rfl).mp member)

theorem Rule.fixed {r : Rule} (member : r ∈ rules) :
    match r.pattern with
    | .exact first more => ' ' ∉ first :: more
    | .word first more => ' ' ∉ first :: more ∧ r.pattern.isNameWord = true
    | _ => True := by
  revert r
  simp +decide [rules]

/-- A rule that matches the spaced text matches the original one, unless the space ends a keyword in
front of a word character. -/
theorem Rule.match?_of_spaced (member : r ∈ rules) (nonempty : front ≠ [])
    (found : r.match? (front ++ ' ' :: back) = some m) :
    (r.match? (front ++ back)).isSome = true ∨ r.pattern.isNameWord = true ∧ m.lexeme = front ∧
      ∃ c ∈ back.head?, Text.isWordCharacter c = true := by
  have first (back : List Char) : (front ++ back).head? = front.head? :=
    List.head?_append_of_ne_nil _ nonempty
  obtain ⟨taken, _⟩ := match?_eq_some_iff.mp found
  have takes : (r.pattern.split (front ++ ' ' :: back)).isSome = true := by
    rw [taken]
    rfl
  have fixed := Rule.fixed member
  rw [match?, Option.isSome_map]
  cases pattern : r.pattern with
  | exact =>
    rw [pattern] at taken fixed
    obtain ⟨lexeme, same⟩ := Pattern.split_exact_iff.mp taken
    obtain ⟨between, rfl⟩ := prefix_of_spaced (lexeme ▸ fixed) ⟨m.rest, same.symm⟩
    left
    rw [Pattern.split_exact_iff.mpr ⟨lexeme, List.append_assoc m.lexeme between back⟩]
    rfl
  | word =>
    rw [pattern] at taken fixed
    obtain ⟨lexeme, same, stop⟩ := Pattern.split_word_iff.mp taken
    obtain ⟨between, rfl⟩ := prefix_of_spaced (lexeme ▸ fixed.1) ⟨m.rest, same.symm⟩
    rw [List.append_assoc] at same ⊢
    rw [← List.append_cancel_left same] at stop
    by_cases ends : ∀ c ∈ (between ++ back).head?, Text.isWordCharacter c = false
    · left
      rw [Pattern.split_word_iff.mpr ⟨lexeme, rfl, ends⟩]
      rfl
    · right
      cases between with
      | nil => exact ⟨fixed.2, (List.append_nil _).symm, by simpa using ends⟩
      | cons c between => exact absurd stop ends
  | lineComment =>
    rw [pattern, Pattern.isSome_lineComment_iff] at takes
    have starts := prefix_of_spaced (by decide) takes
    exact .inl (Pattern.isSome_lineComment_iff.mpr (starts.trans (List.prefix_append _ back)))
  | blockComment =>
    rw [pattern, Pattern.isSome_blockComment_iff] at takes
    obtain ⟨body, same, closed⟩ := takes
    have single : ' ' ∉ ['/', '*'] := by decide
    obtain ⟨between, rfl⟩ := prefix_of_spaced single ⟨body, same.symm⟩
    obtain rfl : between ++ ' ' :: back = body := by simpa using same
    exact .inl (Pattern.isSome_blockComment_iff.mpr ⟨_, rfl, commentEnd_infix_spaced closed⟩)
  | number =>
    rw [pattern, Pattern.isSome_number_iff, first] at takes
    rw [Pattern.isSome_number_iff, first]
    exact .inl takes
  | quoted mark =>
    have quotation := Rule.isQuotationMark member pattern
    rw [pattern, Pattern.isSome_quoted_iff quotation] at takes
    obtain ⟨body, same, closed⟩ := takes
    have single : ' ' ∉ [mark] := by simpa using quotation.ne_space.symm
    obtain ⟨between, rfl⟩ := prefix_of_spaced single ⟨body, same.symm⟩
    obtain rfl : between ++ ' ' :: back = body := by simpa using same
    rw [mem_takeWhile_spaced quotation.ne_space rfl] at closed
    exact .inl ((Pattern.isSome_quoted_iff quotation).mpr ⟨_, rfl, closed⟩)
  | name =>
    rw [pattern, Pattern.isSome_name_iff, first] at takes
    rw [Pattern.isSome_name_iff, first]
    exact .inl takes

/-- Keyword characters in front of a word character are scanned as a symbol. -/
theorem eq_symbol_of_keyword (found : firstMatch? (m.lexeme ++ (front ++ back)) = some m)
    (left : m.rest = front ++ back) (keyword : String.ofList (m.lexeme ++ front) ∈ keywords)
    (next : ∃ c ∈ back.head?, Text.isWordCharacter c = true) : front = [] ∧ m.kind = .symbol := by
  have letters : ∀ c ∈ m.lexeme ++ front, isNameCharacter c = true := by
    have key : ∀ text ∈ keywords, text.toList.all isNameCharacter = true := by decide
    have all := key _ keyword
    rw [String.toList_ofList] at all
    exact List.all_eq_true.mp all
  have lettered : m.kind.isKeyword = true ∨ m.kind = .symbol := by
    obtain ⟨r, member, matched⟩ := List.exists_of_findSome?_eq_some found
    obtain ⟨c, cs, lexeme⟩ := List.exists_cons_of_ne_nil (firstMatch?_append found).2
    rw [lexeme] at matched letters
    rw [← (Rule.match?_eq_some_iff.mp matched).2]
    rcases Rule.of_isNameCharacter member (letters c (by simp)) matched with word | name
    · exact .inl ((Rule.isNameWord_iff member).mp word)
    · exact .inr ((Rule.eq_name_iff member).mp name)
  have ended : ∀ c ∈ (front ++ back).head?, isNameCharacter c = false :=
    left ▸ firstMatch?_lettered found (by simpa [Kind.isLettered] using lettered)
  obtain rfl : front = [] := by
    cases front with
    | nil => rfl
    | cons c front => cases (ended c rfl).symm.trans (letters c (by simp))
  refine ⟨rfl, lettered.resolve_left fun isKeyword => ?_⟩
  obtain ⟨c, first, word⟩ := next
  cases (firstMatch?_keyword found isKeyword c (left ▸ first)).symm.trans word

/-- A space behind a match does not change it, unless the match is a symbol spelled like a
keyword. -/
theorem firstMatch?_spaced (lexical : m.kind ≠ .comment) (left : m.rest = front ++ back)
    (apart : front = [] → m.kind = .symbol → String.ofList m.lexeme ∉ keywords)
    (found : firstMatch? (m.lexeme ++ (front ++ back)) = some m) :
    firstMatch? (m.lexeme ++ (front ++ ' ' :: back)) =
      some { m with rest := front ++ ' ' :: back } := by
  obtain ⟨early, r, late, leads⟩ := Leads.of_firstMatch? found
  have table (r' : Rule) (among : r' ∈ early ++ r :: late) : r' ∈ rules := leads.table ▸ among
  have matched := Rule.match?_spaced (table r (by simp)) lexical left leads.found
  refine List.findSome?_eq_some_iff.mpr ⟨early, r, late, leads.table, matched, fun r' before => ?_⟩
  refine Option.eq_none_iff_forall_ne_some.mpr fun m' found' => ?_
  have member := table r' (List.mem_append_left _ before)
  have nonempty : m.lexeme ++ front ≠ [] := by simp [(firstMatch?_append found).2]
  rw [← List.append_assoc] at found'
  rcases Rule.match?_of_spaced member nonempty found' with takes | ⟨word, whole, next⟩
  · rw [List.append_assoc, leads.first r' before] at takes
    cases takes
  · have keyword := Rule.lexeme_mem_keywords member word found'
    rw [whole] at keyword
    obtain ⟨rfl, symbol⟩ := eq_symbol_of_keyword found left keyword next
    rw [List.append_nil] at keyword
    exact apart rfl symbol keyword

end Rules

theorem Gap.concat {gap rest : List Char} (stands : Gap gap rest) : Gap (gap ++ [' ']) rest := by
  induction stands with
  | none => exact .space .none
  | space _ ih => exact .space ih
  | @lineComment body gap rest inside ended stands ih =>
    cases gap with
    | nil =>
      have longer : Gap ('/' :: '/' :: (body ++ [' ']) ++ []) rest :=
        .lineComment (by simpa using inside) ended .none
      simpa using longer
    | cons c gap =>
      rw [List.append_assoc]
      exact .lineComment inside ended ih
  | blockComment outside _ ih =>
    rw [List.append_assoc]
    exact .blockComment outside ih

/-! The rest of the line moves by one column. -/

def Position.push (line : Nat) (p : Position) : Position :=
  if p.line = line then { p with col := p.col + 1 } else p

def Token.push (line : Nat) (t : Token) : Token :=
  if t.line = line then { t with col := t.col + 1 } else t

namespace Position

variable {line : Nat} {p : Position}

theorem line_le_after (p : Position) (c : Char) : p.line ≤ (p.after c).line := by
  rw [after]
  split
  · exact Nat.le_succ _
  · exact Nat.le_refl _

theorem push_after (le : line ≤ p.line) (c : Char) :
    (p.push line).after c = (p.after c).push line := by
  by_cases newline : c = '\n'
  · have below : p.line + 1 ≠ line := by omega
    have same : (p.push line).line = p.line := by
      unfold push
      split <;> rfl
    rw [after, after, if_pos newline, if_pos newline, same, push, if_neg below]
  · rw [after, after, if_neg newline, if_neg newline]
    unfold push
    split <;> rfl

theorem push_self (p : Position) : p.push p.line = p.after ' ' := by
  rw [push, if_pos rfl, after, if_neg (by decide)]

theorem line_le_foldl (p : Position) (cs : List Char) : p.line ≤ (cs.foldl after p).line := by
  induction cs generalizing p with
  | nil => exact Nat.le_refl _
  | cons c cs ih => exact Nat.le_trans (p.line_le_after c) (ih _)

theorem push_foldl (le : line ≤ p.line) (cs : List Char) :
    cs.foldl after (p.push line) = (cs.foldl after p).push line := by
  induction cs generalizing p with
  | nil => rfl
  | cons c cs ih =>
    rw [List.foldl_cons, push_after le, ih (Nat.le_trans le (p.line_le_after c)), List.foldl_cons]

end Position

namespace Scanner

variable {s : Scanner} {line : Nat} {ts us vs : List Token} {t : Token}

/-- One byte further, and one column further on the given line. -/
def push (line : Nat) (s : Scanner) : Scanner :=
  { s with offset := s.offset + 1, position := s.position.push line }

theorem push_pass (le : line ≤ s.position.line) (cs rest : List Char) :
    (s.push line).pass cs rest = (s.pass cs rest).push line := by
  simp only [pass, push, Position.push_foldl le, Nat.add_right_comm]

theorem push_token? (s : Scanner) (line : Nat) (m : Match) :
    (s.push line).token? m = (s.token? m).map (Token.push line) := by
  have place (payload : Payload) :
      (⟨m.kind, payload, (s.push line).position.line, (s.push line).position.col,
        m.lexeme.length⟩ : Token) =
      Token.push line ⟨m.kind, payload, s.position.line, s.position.col, m.lexeme.length⟩ := by
    simp only [push, Position.push, Token.push]
    split <;> rfl
  simp only [token?, place, Option.map_map]
  rfl

theorem line_le_pass (s : Scanner) (cs rest : List Char) :
    s.position.line ≤ (s.pass cs rest).position.line :=
  s.position.line_le_foldl cs

/-- Scanning after the inserted space gives the same tokens, moved one column on its line. -/
theorem Reads.push (reads : s.Reads ts) (le : line ≤ s.position.line) :
    (s.push line).Reads (ts.map (Token.push line)) := by
  induction reads with
  | finish stands => exact .finish stands
  | @token s gap m t ts same stands lexical found read _ ih =>
    refine .token same stands lexical found ?_ ?_
    · rw [push_pass le, push_token?, read]
      rfl
    · rw [push_pass le]
      exact ih (Nat.le_trans le (s.line_le_pass _ _))

theorem pass_concat_space (s : Scanner) (gap rest : List Char) :
    s.pass (gap ++ [' ']) rest = (s.pass gap rest).push (s.pass gap rest).position.line := by
  rw [← pass_pass s gap [' '] rest, push, Position.push_self]
  rfl

/-- Having passed `front`, the scanner takes the token by the match. -/
structure Takes (s : Scanner) (front : List Char) (m : Match) (t : Token) : Prop where
  rest : s.rest = front ++ (m.lexeme ++ m.rest)
  found : firstMatch? (m.lexeme ++ m.rest) = some m
  lexical : m.kind ≠ .comment
  read : (s.pass front (m.lexeme ++ m.rest)).token? m = some t

theorem Takes.behind {before rest front : List Char} {m : Match}
    (takes : (s.pass before rest).Takes front m t) (same : s.rest = before ++ rest) :
    s.Takes (before ++ front) m t where
  rest := by
    obtain rfl : rest = front ++ (m.lexeme ++ m.rest) := takes.rest
    rw [same, List.append_assoc]
  found := takes.found
  lexical := takes.lexical
  read := by
    rw [← pass_pass s before front rest]
    exact takes.read

def space (s : Scanner) (front back : List Char) : Scanner :=
  { s with rest := front ++ ' ' :: back }

@[simp] theorem space_rest (s : Scanner) (front back : List Char) :
    (s.space front back).rest = front ++ ' ' :: back := rfl

theorem Reads.spaced_first (reads : s.Reads (t :: vs)) :
    ∃ gap m, s.Takes gap m t ∧
      (s.space gap (m.lexeme ++ m.rest)).Reads ((t :: vs).map (Token.push t.line)) := by
  cases reads with
  | @token _ gap m _ _ same stands lexical found read behind =>
    have line : (s.pass gap (m.lexeme ++ m.rest)).position.line = t.line := by
      obtain ⟨payload, _, rfl⟩ := Option.map_eq_some_iff.mp read
      rfl
    have place : (s.space gap (m.lexeme ++ m.rest)).pass (gap ++ [' ']) (m.lexeme ++ m.rest) =
        (s.pass gap (m.lexeme ++ m.rest)).push t.line := by
      rw [← line]
      exact s.pass_concat_space gap _
    have le := (s.pass gap (m.lexeme ++ m.rest)).line_le_pass m.lexeme m.rest
    rw [line, pass_pass] at le
    refine ⟨gap, m, ⟨same, found, lexical.comment m found, read⟩, ?_⟩
    refine .cons stands.concat (by simp) found (lexical.comment m found) ?_ ?_
    · rw [place, push_token?, read]
      rfl
    · rw [← pass_pass _ _ _ (m.lexeme ++ m.rest), place, push_pass (Nat.le_of_eq line.symm),
        pass_pass]
      exact behind.push le

/-- Induction on the tokens before the space, which are scanned as before. -/
theorem Reads.spaced (reads : s.Reads (us ++ t :: vs))
    (apart : ∀ u ∈ us.getLast?, u.kind = .symbol → ∀ text ∈ keywords, u.payload ≠ .text text) :
    ∃ front m, s.Takes front m t ∧ (us ≠ [] → front ≠ []) ∧
      (s.space front (m.lexeme ++ m.rest)).Reads (us ++ (t :: vs).map (Token.push t.line)) := by
  induction us generalizing s with
  | nil =>
    obtain ⟨gap, m, takes, reads⟩ := reads.spaced_first
    exact ⟨gap, m, takes, absurd rfl, reads⟩
  | cons u us ih =>
    cases reads with
    | @token _ gap m _ _ same stands lexical found read behind =>
      have apart' : ∀ u' ∈ us.getLast?, u'.kind = .symbol → ∀ text ∈ keywords,
          u'.payload ≠ .text text :=
        fun u' last => apart u' (by simp [List.getLast?_cons, Option.mem_def.mp last])
      obtain ⟨front, m', takes, more, reads⟩ := ih behind apart'
      have left : m.rest = front ++ (m'.lexeme ++ m'.rest) := takes.rest
      have lexeme := (firstMatch?_append found).2
      have plain : front = [] → m.kind = .symbol → String.ofList m.lexeme ∉ keywords := by
        rintro rfl symbol
        obtain rfl : us = [] := by
          by_contra nonempty
          exact more nonempty rfl
        obtain ⟨payload, isPayload, rfl⟩ := Option.map_eq_some_iff.mp read
        rw [symbol] at isPayload
        cases isPayload
        exact fun keyword => apart _ rfl symbol _ keyword rfl
      have found' := firstMatch?_spaced (lexical.comment m found) left plain (left ▸ found)
      have gapped : Gap gap (m.lexeme ++ (front ++ ' ' :: (m'.lexeme ++ m'.rest))) := by
        refine stands.change fun c first => ?_
        rw [List.head?_append_of_ne_nil _ lexeme] at first ⊢
        exact .inl first
      refine ⟨gap ++ m.lexeme ++ front, m', ?_, fun _ => by simp [lexeme], ?_⟩
      · rw [← List.append_assoc] at same
        exact takes.behind same
      · exact .cons gapped (by simp) found' (lexical.comment m found) read reads

end Scanner

def Source.spaced (source : Source) (front back : List Char) : Source :=
  { source with content := .ofList (front ++ ' ' :: back) }

/-- The lexeme of the token stands between a front and a back of the source. -/
structure Token.StandsBetween (t : Token) (source : Source) (front lexeme back : List Char) :
    Prop where
  content : source.content.toList = front ++ (lexeme ++ back)
  position : t.position = .behind front
  spelled : Spelling t.kind t.payload lexeme
  width : t.width = lexeme.length

section Source

variable {source : Source} {front : List Char} {m : Match} {t : Token}

/-- Tokens stand in the whole content as they do in the trimmed text. -/
theorem Scanner.Takes.exists_back (takes : (start source.trimmed.toList).Takes front m t) :
    ∃ back, t.StandsBetween source front m.lexeme back ∧
      dropFinalBreak (m.lexeme ++ back) = m.lexeme ++ m.rest := by
  obtain ⟨tail, content, _⟩ := source.exists_break
  have trimmed : source.trimmed.toList = front ++ (m.lexeme ++ m.rest) := takes.rest
  have start : (start source.trimmed.toList).Behind [] := ⟨rfl, rfl⟩
  have place := start.pass front (m.lexeme ++ m.rest)
  obtain ⟨payload, isPayload, rfl⟩ := Option.map_eq_some_iff.mp takes.read
  rw [trimmed, List.append_assoc, List.append_assoc] at content
  refine ⟨m.rest ++ tail, ⟨content, place.position, ?_, rfl⟩, ?_⟩
  · exact firstMatch?_spelling takes.found takes.lexical isPayload
  · have whole : dropFinalBreak (front ++ (m.lexeme ++ (m.rest ++ tail))) =
        front ++ (m.lexeme ++ m.rest) := by
      rw [← content, ← trimmed, Source.trimmed, String.toList_ofList]
    exact dropFinalBreak_of_append whole

end Source

/-- A space inserted before a token moves that token and the rest of its line by one column, and
changes nothing else. Excluded is a preceding symbol spelled like a keyword, which the space could
turn into the keyword. -/
theorem tokenize_spaced {source : Source} {us vs : List Token} {t : Token}
    (scanned : tokenize source = .ok (us ++ t :: vs))
    (apart : ∀ u ∈ us.getLast?, u.kind = .symbol → ∀ text ∈ keywords, u.payload ≠ .text text) :
    (∃ front lexeme back, t.StandsBetween source front lexeme back) ∧
      ∀ front lexeme back, t.StandsBetween source front lexeme back →
        tokenize (source.spaced front (lexeme ++ back)) =
          .ok (us ++ (t :: vs).map (Token.push t.line)) := by
  rw [tokenize, Scanner.tokens_eq_ok_iff, Scanner.ofSource_eq_start] at scanned
  obtain ⟨front, m, takes, _, reads⟩ := scanned.spaced apart
  obtain ⟨back, here, dropped⟩ := takes.exists_back
  refine ⟨⟨front, m.lexeme, back, here⟩, fun front' lexeme back' there => ?_⟩
  have same := here.content.symm.trans there.content
  obtain rfl := Position.behind_unique same (here.position.symm.trans there.position)
  have trimmed : (source.spaced front (lexeme ++ back')).trimmed.toList =
      front ++ ' ' :: (m.lexeme ++ m.rest) := by
    have nonempty : dropFinalBreak (m.lexeme ++ back) ≠ [] := by
      simp [dropped, (firstMatch?_append takes.found).2]
    rw [Source.trimmed, Source.spaced, String.toList_ofList, String.toList_ofList,
      ← List.append_cancel_left same, List.append_cons, dropFinalBreak_append nonempty, dropped,
      ← List.append_cons]
  rw [tokenize, Scanner.tokens_eq_ok_iff, Scanner.ofSource_eq_start, trimmed]
  exact reads

theorem tokenize_spaced_comment :
    let source := Source.ofContent "x/*\n*/'é'y\nz"
    let x : Token := ⟨.symbol, .text "x", 1, 1, 1⟩
    let e : Token := ⟨.string, .text "é", 2, 3, 3⟩
    let y : Token := ⟨.symbol, .text "y", 2, 6, 1⟩
    let n : Token := ⟨.newline, .text "\n", 2, 7, 1⟩
    let z : Token := ⟨.symbol, .text "z", 3, 1, 1⟩
    let front := ['x', '/', '*', '\n', '*', '/']
    let lexeme := ['\'', 'é', '\'']
    let back := ['y', '\n', 'z']
    tokenize source = .ok ([x] ++ e :: [y, n, z]) ∧
      (∀ u ∈ [x].getLast?, u.kind = .symbol → ∀ text ∈ keywords, u.payload ≠ .text text) ∧
      e.StandsBetween source front lexeme back ∧
      tokenize (source.spaced front (lexeme ++ back)) =
        .ok [x, { e with col := 4 }, { y with col := 7 }, { n with col := 8 }, z] := by
  intro source x e y n z front lexeme back
  have start : Scanner.ofSource source = ⟨front ++ (lexeme ++ back), 0, ⟨1, 1⟩⟩ := by cbv
  have gap : Gap ['/', '*', '\n', '*', '/'] (lexeme ++ back) :=
    .blockComment (show ¬ commentEnd <:+: ['\n'] by decide) .none
  have scanned : tokenize source = .ok ([x] ++ e :: [y, n, z]) := by
    rw [tokenize, Scanner.tokens_eq_ok_iff, start]
    refine .cons .none rfl rfl (by decide) rfl ?_
    refine .cons gap rfl rfl (by decide) rfl ?_
    refine .cons .none rfl rfl (by decide) rfl ?_
    refine .cons .none rfl rfl (by decide) rfl ?_
    exact .cons .none rfl rfl (by decide) rfl (.finish .none)
  have apart : ∀ u ∈ [x].getLast?, u.kind = .symbol → ∀ text ∈ keywords,
      u.payload ≠ .text text := by
    rintro _ ⟨⟩ _ text keyword ⟨⟩
    exact absurd keyword (by decide)
  have stands : e.StandsBetween source front lexeme back :=
    ⟨by cbv, by decide, .quoted (.inr rfl) (by decide) (.of_not_mem (by decide)), rfl⟩
  have spaced := (tokenize_spaced scanned apart).2 front lexeme back stands
  exact ⟨scanned, apart, stands, spaced⟩

end BracketScript
