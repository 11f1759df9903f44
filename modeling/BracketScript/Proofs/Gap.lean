import BracketScript.Scanner

/-! Between tokens stand gaps of spaces and comments. A gap is described apart from the rules,
before the text that is left behind it, since a line comment goes on to the end of its line.
A scanner moves over a gap to the first character that is neither. -/
namespace BracketScript

def commentEnd : List Char := ['*', '/']

inductive Gap : List Char → List Char → Prop where
  | none {rest : List Char} : Gap [] rest
  | space {gap rest : List Char} : Gap gap rest → Gap (' ' :: gap) rest
  | lineComment {body gap rest : List Char} : '\n' ∉ body →
      (∀ c ∈ (gap ++ rest).head?, c = '\n') → Gap gap rest →
      Gap ('/' :: '/' :: body ++ gap) rest
  | blockComment {body gap rest : List Char} : ¬ commentEnd <:+: body → Gap gap rest →
      Gap ('/' :: '*' :: (body ++ commentEnd) ++ gap) rest

namespace Pattern

theorem splitComment_eq_none_iff {cs : List Char} :
    splitComment cs = none ↔ ¬ commentEnd <:+: cs := by
  fun_induction splitComment cs with
  | case1 rest => simpa using ⟨[], rest, rfl⟩
  | case2 c cs distinct ih =>
    rw [Option.map_eq_none_iff, ih, List.infix_cons_iff]
    have starts : ¬ commentEnd <+: c :: cs := by
      rintro ⟨rest, same⟩
      cases same
      exact distinct rest rfl rfl
    simp [starts]
  | case3 => simp [commentEnd]

theorem splitComment_eq_some {cs inside rest : List Char}
    (found : splitComment cs = some (inside, rest)) :
    ∃ body, inside = body ++ commentEnd ∧ ¬ commentEnd <:+: body := by
  fun_induction splitComment cs generalizing inside rest with
  | case1 rest =>
    cases found
    exact ⟨[], rfl, by simp [commentEnd]⟩
  | case2 c cs distinct ih =>
    obtain ⟨⟨inside, rest⟩, below, same⟩ := Option.map_eq_some_iff.mp found
    cases same
    obtain ⟨body, rfl, outside⟩ := ih below
    refine ⟨c :: body, rfl, ?_⟩
    rw [List.infix_cons_iff]
    rintro (⟨more, same⟩ | within)
    · cases same
      have whole := splitComment_append below
      exact distinct _ rfl (by simpa using whole.symm)
    · exact outside within
  | case3 => cases found

theorem splitComment_append_end {body rest : List Char} (outside : ¬ commentEnd <:+: body) :
    splitComment (body ++ commentEnd ++ rest) = some (body ++ commentEnd, rest) := by
  induction body with
  | nil => rfl
  | cons c body ih =>
    rw [List.infix_cons_iff, not_or] at outside
    have below := ih outside.2
    simp only [List.cons_append] at below ⊢
    rw [splitComment, below]
    · rfl
    · intro tail star slash
      subst star
      cases body with
      | nil => cases slash
      | cons d body =>
        cases slash
        exact outside.1 ⟨body, rfl⟩

end Pattern

/-- The scanner skips neither a space nor a comment at this text. -/
structure Lexical (text : List Char) : Prop where
  space : ∀ c ∈ text.head?, c ≠ ' '
  comment : ∀ m, firstMatch? text = some m → m.kind ≠ .comment

theorem firstMatch?_space (cs : List Char) : firstMatch? (' ' :: cs) = none := rfl

theorem Lexical.of_match {text : List Char} {m : Match} (found : firstMatch? text = some m)
    (lexeme : m.kind ≠ .comment) : Lexical text := by
  refine ⟨fun c first same => ?_, fun m' found' => ?_⟩
  · cases text with
    | nil => cases first
    | cons d cs =>
      cases first
      rw [same, firstMatch?_space] at found
      cases found
  · cases found.symm.trans found'
    exact lexeme

theorem firstMatch?_lineComment {body rest : List Char} (inside : '\n' ∉ body)
    (ended : ∀ c ∈ rest.head?, c = '\n') :
    firstMatch? ('/' :: '/' :: body ++ rest) = some ⟨.comment, '/' :: '/' :: body, rest⟩ := by
  have all : ∀ c ∈ body, (c != '\n') = true := by
    intro c member
    simpa using fun same : c = '\n' => inside (same ▸ member)
  have stop : rest.takeWhile (· != '\n') = [] ∧ rest.dropWhile (· != '\n') = rest := by
    cases rest with
    | nil => exact ⟨rfl, rfl⟩
    | cons c rest => simp [ended c rfl]
  simp [firstMatch?, rules, Rule.match?, Pattern.split, List.takeWhile_append_of_pos all,
    List.dropWhile_append_of_pos all, stop]

theorem firstMatch?_blockComment {body : List Char} (inside : ¬ commentEnd <:+: body)
    (rest : List Char) :
    firstMatch? ('/' :: '*' :: (body ++ commentEnd) ++ rest) =
      some ⟨.comment, '/' :: '*' :: (body ++ commentEnd), rest⟩ := by
  have line (text : List Char) : Rule.match? ⟨.comment, .lineComment⟩ ('/' :: '*' :: text) = none :=
    rfl
  have block : Rule.match? ⟨.comment, .blockComment⟩ ('/' :: '*' :: (body ++ commentEnd) ++ rest) =
      some ⟨.comment, '/' :: '*' :: (body ++ commentEnd), rest⟩ := by
    simp only [Rule.match?, Pattern.split, List.cons_append,
      Pattern.splitComment_append_end inside, Option.map_some]
  simp only [firstMatch?, rules, List.findSome?_cons, block]
  rfl

/-- A match of kind comment is a gap. -/
theorem Gap.of_comment {text gap rest : List Char} {m : Match} (found : firstMatch? text = some m)
    (comment : m.kind = .comment) (behind : Gap gap rest) (same : m.rest = gap ++ rest) :
    Gap (m.lexeme ++ gap) rest := by
  have key : ∀ r ∈ rules, r.kind = .comment →
      r.pattern = .lineComment ∨ r.pattern = .blockComment := by decide
  obtain ⟨r, member, matched⟩ := List.exists_of_findSome?_eq_some found
  obtain ⟨⟨lexeme, left⟩, split, rfl⟩ := Option.map_eq_some_iff.mp matched
  rcases key r member comment with pattern | pattern
  · rw [pattern] at split
    simp only [Pattern.split] at split
    split at split
    · next after =>
      cases split
      refine .lineComment (fun member => ?_) ?_ behind
      · simpa using List.all_eq_true.mp List.all_takeWhile _ member
      · rw [← same]
        intro c first
        have stopped := List.head?_dropWhile_not (· != '\n') after
        rw [Option.mem_def.mp first] at stopped
        simpa using stopped
    · cases split
  · rw [pattern] at split
    simp only [Pattern.split] at split
    split at split
    · obtain ⟨⟨inside, _⟩, closed, equal⟩ := Option.map_eq_some_iff.mp split
      cases equal
      obtain ⟨body, rfl, outside⟩ := Pattern.splitComment_eq_some closed
      exact .blockComment outside behind
    · cases split

theorem byteLength_append (front back : List Char) :
    byteLength (front ++ back) = byteLength front + byteLength back := by
  induction front with
  | nil => simp [byteLength]
  | cons c front ih => simp [byteLength, ih, Nat.add_assoc]

namespace Scanner

@[simp] theorem pass_nil (s : Scanner) : s.pass [] s.rest = s := rfl

theorem pass_pass (s : Scanner) (front back middle rest : List Char) :
    (s.pass front middle).pass back rest = s.pass (front ++ back) rest := by
  simp [pass, byteLength_append, Nat.add_assoc]

theorem next_eq_of_skipSpaces {s s' : Scanner} (same : s.skipSpaces = s'.skipSpaces) :
    s.next = s'.next := by
  rw [next, next, same]

theorem skipSpaces_space (s : Scanner) {rest : List Char} (space : s.rest = ' ' :: rest) :
    s.skipSpaces = (s.pass [' '] rest).skipSpaces := by
  simp [skipSpaces, pass_pass, space]
  simp [pass]

theorem skipSpaces_lexical {s : Scanner} (lexical : ∀ c ∈ s.rest.head?, c ≠ ' ') :
    s.skipSpaces = s := by
  have stop : s.rest.takeWhile (· == ' ') = [] ∧ s.rest.dropWhile (· == ' ') = s.rest := by
    cases same : s.rest with
    | nil => exact ⟨rfl, rfl⟩
    | cons c rest =>
      rw [same] at lexical
      simp [lexical c rfl]
  rw [skipSpaces, stop.1, stop.2]
  rfl

theorem next_comment {s : Scanner} {m : Match} (found : firstMatch? s.rest = some m)
    (comment : m.kind = .comment) (space : ∀ c ∈ s.rest.head?, c ≠ ' ') :
    s.next = (s.pass m.lexeme m.rest).next := by
  rw [next, skipSpaces_lexical space]
  split
  · next empty =>
    rw [empty] at found
    cases found
  · split
    · next unmatched => cases unmatched.symm.trans found
    · next m' matched =>
      cases matched.symm.trans found
      rw [if_pos comment]

/-- The scanner skips a gap without output. -/
theorem next_eq_pass {gap rest : List Char} (stands : Gap gap rest) (s : Scanner)
    (same : s.rest = gap ++ rest) : s.next = (s.pass gap rest).next := by
  induction stands generalizing s with
  | none =>
    rw [List.nil_append] at same
    rw [← same, pass_nil]
  | @space gap rest _ ih =>
    rw [List.cons_append] at same
    rw [next_eq_of_skipSpaces (s.skipSpaces_space same), ih (s.pass [' '] _) rfl, pass_pass,
      List.singleton_append]
  | @lineComment body gap rest inside ended _ ih =>
    have found := firstMatch?_lineComment inside ended
    rw [← List.append_assoc, ← same] at found
    rw [next_comment found rfl (by simp [same]), ih (s.pass _ _) rfl, pass_pass]
  | @blockComment body gap rest inside _ ih =>
    have found := firstMatch?_blockComment inside (gap ++ rest)
    rw [← List.append_assoc, ← same] at found
    rw [next_comment found rfl (by simp [same]), ih (s.pass _ _) rfl, pass_pass]

theorem next_end {s : Scanner} (empty : s.rest = []) : s.next = (none, s) := by
  have still : s.skipSpaces = s := skipSpaces_lexical (by simp [empty])
  rw [next, still]
  split
  · rfl
  · next starts => cases empty.symm.trans starts

theorem next_token {s : Scanner} {m : Match} {t : Token} (lexical : Lexical s.rest)
    (found : firstMatch? s.rest = some m) (read : s.token? m = some t) :
    s.next = (some (.ok t), s.pass m.lexeme m.rest) := by
  rw [next, skipSpaces_lexical lexical.space]
  split
  · next empty =>
    rw [empty] at found
    cases found
  · split
    · next unmatched => cases unmatched.symm.trans found
    · next m' matched =>
      cases matched.symm.trans found
      rw [if_neg (lexical.comment m found), read]

/-- Where nothing lexical can be read, the next character is the error. -/
theorem next_error {s : Scanner} {c : Char} {cs : List Char} (lexical : Lexical s.rest)
    (starts : s.rest = c :: cs)
    (unread : ∀ m, firstMatch? s.rest = some m → s.token? m = none) :
    s.next = (some (.error (s.error c)), s.stop) := by
  rw [next, skipSpaces_lexical lexical.space]
  split
  · next empty => cases empty.symm.trans starts
  · next c' cs' same =>
    cases starts.symm.trans same
    split
    · rfl
    · next m matched => rw [if_neg (lexical.comment m matched), unread m matched]

end Scanner

/-- Every text splits into a maximal gap and a rest at which scanning is decided. -/
theorem Gap.exists_lexical (text : List Char) :
    ∃ gap rest, text = gap ++ rest ∧ Gap gap rest ∧ Lexical rest := by
  by_cases space : ∃ rest, text = ' ' :: rest
  · obtain ⟨rest, rfl⟩ := space
    obtain ⟨gap, left, rfl, stands, lexical⟩ := exists_lexical rest
    exact ⟨' ' :: gap, left, rfl, .space stands, lexical⟩
  · by_cases comment : ∃ m, firstMatch? text = some m ∧ m.kind = .comment
    · obtain ⟨m, found, comment⟩ := comment
      have shorter := firstMatch?_rest_length found
      obtain ⟨gap, left, same, stands, lexical⟩ := exists_lexical m.rest
      refine ⟨m.lexeme ++ gap, left, ?_, .of_comment found comment stands same, lexical⟩
      rw [List.append_assoc, ← same, (firstMatch?_append found).1]
    · refine ⟨[], text, rfl, .none, ⟨fun c first same => ?_, fun m found same => ?_⟩⟩
      · cases text with
        | nil => cases first
        | cons d rest =>
          cases first
          exact space ⟨rest, by rw [same]⟩
      · exact comment ⟨m, found, same⟩
termination_by text.length

namespace Scanner

/-- A scan without errors, as gaps and tokens in turn. -/
inductive Reads : Scanner → List Token → Prop where
  | finish {s : Scanner} : Gap s.rest [] → Reads s []
  | token {s : Scanner} {gap : List Char} {m : Match} {t : Token} {ts : List Token} :
      s.rest = gap ++ (m.lexeme ++ m.rest) → Gap gap (m.lexeme ++ m.rest) →
      Lexical (m.lexeme ++ m.rest) → firstMatch? (m.lexeme ++ m.rest) = some m →
      (s.pass gap (m.lexeme ++ m.rest)).token? m = some t →
      Reads (s.pass (gap ++ m.lexeme) m.rest) ts → Reads s (t :: ts)

theorem Reads.cons {s : Scanner} {gap rest : List Char} {m : Match} {t : Token}
    {ts : List Token} (stands : Gap gap rest) (same : s.rest = gap ++ rest)
    (found : firstMatch? rest = some m) (lexeme : m.kind ≠ .comment)
    (read : (s.pass gap rest).token? m = some t)
    (behind : Reads (s.pass (gap ++ m.lexeme) m.rest) ts) : Reads s (t :: ts) := by
  have lexical := Lexical.of_match found lexeme
  obtain ⟨rfl, _⟩ := firstMatch?_append found
  exact .token same stands lexical found read behind

/-- After its gap the scanner is at the end, at a token or at an error. -/
theorem next_cases (s : Scanner) :
    ∃ gap rest, s.rest = gap ++ rest ∧ Gap gap rest ∧ Lexical rest ∧
      ((rest = [] ∧ s.next = (none, s.pass gap [])) ∨
        (∃ m t, firstMatch? rest = some m ∧ (s.pass gap rest).token? m = some t ∧
          s.next = (some (.ok t), s.pass (gap ++ m.lexeme) m.rest)) ∨
        ∃ c cs, rest = c :: cs ∧
          (∀ m, firstMatch? rest = some m → (s.pass gap rest).token? m = none) ∧
          s.next = (some (.error ((s.pass gap rest).error c)), (s.pass gap rest).stop)) := by
  obtain ⟨gap, rest, same, stands, lexical⟩ := Gap.exists_lexical s.rest
  refine ⟨gap, rest, same, stands, lexical, ?_⟩
  rw [next_eq_pass stands s same]
  cases rest with
  | nil => exact .inl ⟨rfl, next_end rfl⟩
  | cons c cs =>
    by_cases read : ∃ m t, firstMatch? (c :: cs) = some m ∧
      (s.pass gap (c :: cs)).token? m = some t
    · obtain ⟨m, t, found, read⟩ := read
      refine .inr (.inl ⟨m, t, found, read, ?_⟩)
      rw [next_token (s := s.pass gap (c :: cs)) lexical found read, pass_pass]
    · have unread (m : Match) (found : firstMatch? (c :: cs) = some m) :
          (s.pass gap (c :: cs)).token? m = none :=
        Option.eq_none_iff_forall_ne_some.mpr fun t taken => read ⟨m, t, found, taken⟩
      exact .inr (.inr ⟨c, cs, rfl, unread, next_error lexical rfl unread⟩)

/-! The tokens follow the steps of the scanner. -/

theorem tokens_of_next_none {s behind : Scanner} (found : s.next = (none, behind)) :
    s.tokens = .ok [] := by
  rw [tokens]
  split <;> simp_all

theorem tokens_of_next_error {s behind : Scanner} {e : LexError}
    (found : s.next = (some (.error e), behind)) : s.tokens = .error e := by
  rw [tokens]
  split <;> simp_all

theorem tokens_of_next_ok {s behind : Scanner} {t : Token}
    (found : s.next = (some (.ok t), behind)) : s.tokens = behind.tokens.map (t :: ·) := by
  rw [tokens]
  split <;> simp_all

theorem tokens_ok_of_next_ok {s behind : Scanner} {t : Token} {us : List Token}
    (found : s.next = (some (.ok t), behind)) (scanned : s.tokens = .ok us) :
    ∃ ts, us = t :: ts ∧ behind.tokens = .ok ts := by
  rw [tokens_of_next_ok found] at scanned
  cases below : behind.tokens with
  | error e =>
    rw [below] at scanned
    cases scanned
  | ok ts =>
    rw [below] at scanned
    cases scanned
    exact ⟨ts, rfl, rfl⟩

theorem tokens_eq_ok_iff {s : Scanner} {ts : List Token} : s.tokens = .ok ts ↔ s.Reads ts := by
  constructor
  · intro scanned
    induction ts generalizing s with
    | nil =>
      obtain ⟨gap, rest, same, stands, _, ⟨rfl, _⟩ | ⟨m, t, _, _, next⟩ | ⟨c, _, _, _, next⟩⟩ :=
        s.next_cases
      · rw [List.append_nil] at same
        exact .finish (same ▸ stands)
      · obtain ⟨_, impossible, _⟩ := tokens_ok_of_next_ok next scanned
        cases impossible
      · cases (tokens_of_next_error next).symm.trans scanned
    | cons t ts ih =>
      obtain ⟨gap, rest, same, stands, lexical, ⟨_, next⟩ | ⟨m, t', found, read, next⟩ |
        ⟨c, _, _, _, next⟩⟩ := s.next_cases
      · cases (tokens_of_next_none next).symm.trans scanned
      · obtain ⟨_, equal, scanned⟩ := tokens_ok_of_next_ok next scanned
        cases equal
        obtain ⟨rfl, _⟩ := firstMatch?_append found
        exact .token same stands lexical found read (ih scanned)
      · cases (tokens_of_next_error next).symm.trans scanned
  · intro reads
    induction reads with
    | @finish s stands =>
      rw [tokens_of_next_none]
      rw [next_eq_pass stands s (by simp), next_end rfl]
    | @token s gap m t ts same stands lexical found read _ ih =>
      have next : s.next = (some (.ok t), s.pass (gap ++ m.lexeme) m.rest) := by
        rw [next_eq_pass stands s same, ← pass_pass s gap]
        exact next_token (s := s.pass gap (m.lexeme ++ m.rest)) lexical found read
      rw [tokens_of_next_ok next, ih]
      rfl

end Scanner

end BracketScript
