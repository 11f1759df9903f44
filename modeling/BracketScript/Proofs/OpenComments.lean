import BracketScript.Proofs.Expectation
import BracketScript.Proofs.Mentions
import BracketScript.Proofs.Rejection

/-! An unclosed block comment is never accepted. The rules read its first two characters as a slash
and a star, which no program has next to each other: so scanning fails, or parsing stops no later
than at the star. -/
namespace BracketScript
open Token (vocabulary)

section Reading

variable {us vs : List Token} {e : ParseError}

theorem Viable.of_append (viable : Viable (us ++ vs)) (endless : Endless vs) : Viable us := by
  obtain ⟨more, p, ended, parsed⟩ := viable
  refine ⟨vs ++ more, p, List.forall_mem_append.mpr ⟨endless, ended⟩, ?_⟩
  rwa [← List.append_assoc]

theorem exists_viable_of_error {ts : List Token} (failed : parse ts = .error e) :
    ∃ taken rest, ts = taken ++ rest ∧ Viable taken ∧
      e.found = rest.head?.getD (.sentinel ts) := by
  obtain ⟨rest, ran, found⟩ := parse_eq_error_iff_run.mp failed
  obtain ⟨taken, reached, same, proper, further, _⟩ :=
    Config.run_error (show Config.program.focus.Proper from trivial) ran
  obtain ⟨ns, completed⟩ := reached.run_completion
  have parsed : parse (taken ++ reached.completion) = .ok ⟨ns⟩ := by
    rw [parse_eq_ok_iff_run, further, completed]
  exact ⟨taken, rest, same, ⟨_, _, reached.completion_endless proper, parsed⟩, found⟩

/-- The parser stops no later than at the last token of a prefix that no program has. -/
theorem found_mem_of_not_viable (dead : ¬ Viable us) (endless : Endless vs)
    (failed : parse (us ++ vs) = .error e) : e.found ∈ us := by
  obtain ⟨taken, rest, same, viable, found⟩ := exists_viable_of_error failed
  rcases List.append_eq_append_iff.mp same with ⟨more, rfl, rfl⟩ | ⟨left, rfl, rfl⟩
  · exact absurd (viable.of_append (List.forall_mem_append.mp endless).1) dead
  · cases left with
    | nil =>
      rw [List.append_nil] at dead
      exact absurd viable dead
    | cons t left =>
      rw [found]
      exact List.mem_append_right taken List.mem_cons_self

variable {d m : Token}

theorem not_opensComment_of_parse {p : Program} (endless : Endless (us ++ d :: m :: vs))
    (parsed : parse (us ++ d :: m :: vs) = .ok p) : ¬ d.OpensComment m := by
  have inside := (derives_of_parse endless parsed).apart.inside
  exact (List.isChain_cons_cons.mp (List.isChain_append.mp inside).2.1).1

theorem not_viable_of_opensComment (opens : d.OpensComment m) (endless : Endless (us ++ [d, m])) :
    ¬ Viable (us ++ [d, m]) := by
  rintro ⟨vs, p, ended, parsed⟩
  have whole := List.forall_mem_append.mpr ⟨endless, ended⟩
  rw [List.append_assoc] at whole parsed
  exact not_opensComment_of_parse whole parsed opens

end Reading

namespace Scanner

variable {text before rest : List Char} {ts : List Token}

/-- The tokens split at every place that the scan visits. -/
theorem tokens_visited (visits : Visits text before rest) (scanned : (start text).tokens = .ok ts) :
    ∃ us vs, ts = us ++ vs ∧ ((start text).pass before rest).tokens = .ok vs := by
  induction visits with
  | start => exact ⟨[], ts, rfl, scanned⟩
  | @space before rest visits ih =>
    obtain ⟨us, vs, same, behind⟩ := ih
    have skipped := skipSpaces_space ((start text).pass before (' ' :: rest)) rfl
    rw [tokens_eq_of_next_eq (next_eq_of_skipSpaces skipped), pass_pass] at behind
    exact ⟨us, vs, same, behind⟩
  | @lexeme before rest m visits found ih =>
    obtain ⟨us, vs, same, behind⟩ := ih
    by_cases comment : m.kind = .comment
    · have next := next_comment (s := (start text).pass before rest) found comment
        (head?_ne_space found)
      rw [tokens_eq_of_next_eq next, pass_pass] at behind
      exact ⟨us, vs, same, behind⟩
    · obtain ⟨t, read⟩ := exists_token found ((start text).pass before rest)
      have next := next_token (s := (start text).pass before rest)
        (Lexical.of_match found comment) found read
      obtain ⟨ws, rfl, further⟩ := tokens_ok_of_next_ok next behind
      rw [pass_pass] at further
      exact ⟨us ++ [t], ws, by rw [same, List.append_assoc]; rfl, further⟩

/-- At an unclosed block comment the scanner falls back to a slash and a star. -/
theorem tokens_unclosed {s : Scanner} (unclosed : Unclosed s.rest) (scanned : s.tokens = .ok ts) :
    ∃ vs, ts = ⟨.div, .text "/", s.position.line, s.position.col, 1⟩ ::
      ⟨.mult, .text "*", s.position.line, s.position.col + 1, 1⟩ :: vs := by
  obtain ⟨rest, slash⟩ := unclosed.firstMatch?
  have first := next_token (.of_match slash (show Kind.div ≠ .comment by decide)) slash rfl
  obtain ⟨us, rfl, behind⟩ := tokens_ok_of_next_ok first scanned
  have star : firstMatch? ('*' :: rest) = some ⟨.mult, ['*'], rest⟩ := firstMatch?_star rest
  have second := next_token (s := s.pass ['/'] ('*' :: rest))
    (.of_match star (show Kind.mult ≠ .comment by decide)) star rfl
  obtain ⟨vs, rfl, _⟩ := tokens_ok_of_next_ok second behind
  exact ⟨vs, rfl⟩

end Scanner

/-- With a comment left open after `before`, the source cannot be scanned, or parsing fails at a
token no later than the star of the comment. -/
inductive Failure.StopsAt (source : Source) (before : List Char) : Failure → Prop where
  | lexical {e : LexError} : tokenize source = .error e → StopsAt source before (.lexical e)
  | grammatical {us vs : List Token} {slash star : Token} {e : ParseError} :
      tokenize source = .ok (us ++ slash :: star :: vs) → slash.OpensComment star →
      slash.position = .behind before → star.position = .behind (before ++ ['/']) →
      e.found ∈ us ++ [slash, star] → e.found.position.atMost star.position = true →
      StopsAt source before (.grammatical e)

section Source

variable {source : Source} {before rest : List Char}

/-- An open comment leaves a slash and a star among the tokens, at its place. -/
theorem exists_slash_star {ts : List Token} (visits : Visits source.trimmed.toList before rest)
    (unclosed : Unclosed rest) (scanned : tokenize source = .ok ts) :
    ∃ us slash star vs, ts = us ++ slash :: star :: vs ∧ slash.OpensComment star ∧
      slash.position = .behind before ∧ star.position = .behind (before ++ ['/']) := by
  rw [tokenize, Scanner.ofSource_eq_start] at scanned
  obtain ⟨us, ws, rfl, behind⟩ := Scanner.tokens_visited visits scanned
  obtain ⟨vs, rfl⟩ := Scanner.tokens_unclosed unclosed behind
  have stands : (Scanner.start source.trimmed.toList).Behind [] := ⟨rfl, rfl⟩
  have place := (stands.pass before rest).position
  rw [List.nil_append] at place
  refine ⟨us, _, _, vs, rfl, ⟨rfl, rfl⟩, place, ?_⟩
  rw [Position.behind_line before (by decide), ← place]
  rfl

theorem atMost_of_mem {us vs : List Token} {t u : Token}
    (scanned : tokenize source = .ok (us ++ u :: vs)) (member : t ∈ us ++ [u]) :
    t.position.atMost u.position = true := by
  have ordered := (List.pairwise_append.mp (placed_of_tokenize scanned).pairwise).2.2
  rw [Position.atMost_iff]
  rcases List.mem_append.mp member with front | last
  · have before := Position.before_iff.mp (ordered t front u List.mem_cons_self)
    omega
  · rw [List.mem_singleton.mp last]
    omega

/-- The two cases of a source with an open comment: it cannot be scanned, or it cannot be parsed. -/
theorem exists_failure (visits : Visits source.trimmed.toList before rest)
    (unclosed : Unclosed rest) :
    ∃ failure, parseSource source = .error failure ∧ failure.StopsAt source before := by
  cases scanned : tokenize source with
  | error e => exact ⟨.lexical e, parseSource_of_error scanned, .lexical scanned⟩
  | ok ts =>
    obtain ⟨us, slash, star, vs, rfl, opens, place, place'⟩ :=
      exists_slash_star visits unclosed scanned
    have endless := (Scanner.tokens_eq_ok_iff.mp scanned).endless
    cases parsed : parse (us ++ slash :: star :: vs) with
    | ok p => exact absurd opens (not_opensComment_of_parse endless parsed)
    | error e =>
      have split : us ++ slash :: star :: vs = us ++ [slash, star] ++ vs := by simp
      rw [split] at endless parsed
      obtain ⟨front, back⟩ := List.forall_mem_append.mp endless
      have found := found_mem_of_not_viable (not_viable_of_opensComment opens front) back parsed
      have early : e.found.position.atMost star.position = true := by
        rw [List.append_cons] at scanned found
        exact atMost_of_mem scanned found
      refine ⟨.grammatical e, ?_, .grammatical scanned opens place place' found early⟩
      rw [parseSource_of_ok scanned, split, parsed]
      rfl

end Source

/-- No program holds a slash directly before a star. Hence every source with an unclosed block
comment is rejected: either scanning fails, or parsing stops no later than at the star. -/
theorem open_comment_rejected :
    (∀ us d m vs p, Endless (us ++ d :: m :: vs) → parse (us ++ d :: m :: vs) = .ok p →
      ¬ d.OpensComment m) ∧
    ∀ (source : Source) (before rest : List Char), Visits source.trimmed.toList before rest →
      Unclosed rest →
        ∃ failure, parseSource source = .error failure ∧ failure.StopsAt source before :=
  ⟨fun _ _ _ _ _ endless parsed => not_opensComment_of_parse endless parsed,
    fun _ _ _ visits unclosed => exists_failure visits unclosed⟩

/-- A quotient is accepted. After a closed comment an open one is still rejected. -/
theorem open_comment_rejected_quotient :
    let two : Token := ⟨.num, .number (Decimal.mk 2 0).toNumber, 1, 1, 1⟩
    let slash : Token := ⟨.div, .text "/", 1, 2, 1⟩
    let source := Source.ofContent "2/**/b/*c"
    let before := ['2', '/', '*', '*', '/', 'b']
    Endless [two, slash, two] ∧
      parse [two, slash, two] = .ok ⟨[.binary .div (.leaf two) (.leaf two)]⟩ ∧
      ¬ slash.OpensComment two ∧
      Visits source.trimmed.toList before ['/', '*', 'c'] ∧ Unclosed ['/', '*', 'c'] ∧
      ∃ failure, parseSource source = .error failure ∧ failure.StopsAt source before := by
  intro two slash source before
  obtain ⟨quotient, rejected⟩ := open_comment_rejected
  have endless : Endless [two, slash, two] := by simp [Endless, two, slash]
  have parsed : parse [two, slash, two] = .ok ⟨[.binary .div (.leaf two) (.leaf two)]⟩ := rfl
  have text : source.trimmed.toList = ['2', '/', '*', '*', '/', 'b', '/', '*', 'c'] := by cbv
  have number : firstMatch? ['2', '/', '*', '*', '/', 'b', '/', '*', 'c'] =
      some ⟨.num, ['2'], ['/', '*', '*', '/', 'b', '/', '*', 'c']⟩ := rfl
  have comment : firstMatch? ['/', '*', '*', '/', 'b', '/', '*', 'c'] =
      some ⟨.comment, ['/', '*', '*', '/'], ['b', '/', '*', 'c']⟩ := rfl
  have symbol : firstMatch? ['b', '/', '*', 'c'] = some ⟨.symbol, ['b'], ['/', '*', 'c']⟩ := rfl
  have visits : Visits source.trimmed.toList before ['/', '*', 'c'] := by
    rw [text]
    exact ((Visits.start.lexeme number).lexeme comment).lexeme symbol
  have unclosed : Unclosed ['/', '*', 'c'] := ⟨['c'], rfl, by decide⟩
  exact ⟨endless, parsed, quotient [two] slash two [] _ endless parsed, visits, unclosed,
    rejected source before _ visits unclosed⟩

end BracketScript
