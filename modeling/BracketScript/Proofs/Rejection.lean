import BracketScript.Proofs.Priority
import BracketScript.Proofs.Quotation
import Mathlib.Data.Bool.AllAny

/-! Scanning fails exactly where no rule matches, and there is one failure at most. Which texts no
rule matches is decided by their first characters, and for strings by their line. A scan visits the
places of its text in order and fails at the only place it cannot leave. -/
namespace BracketScript

/-- First characters of lexemes and spaces, apart from letters and digits. -/
def lexicalSigns : List Char :=
  [' ', '\n', '_', '+', '-', '*', '/', '<', '>', '!', '=', ',', ';', '[', ']', '.', '&', '|', '\'',
    '"']

def IsLexical (c : Char) : Prop := c.isAlpha = true ∨ c.isDigit = true ∨ c ∈ lexicalSigns

inductive Unreadable (c : Char) (text : List Char) : Prop where
  | foreign : ¬ IsLexical c → Unreadable c text
  | single : c = '&' ∨ c = '|' → text.head? ≠ some c → Unreadable c text
  | unclosed : IsQuotationMark c → c ∉ text.takeWhile (· != '\n') → Unreadable c text

def CharacterClass.isLexical : CharacterClass → Bool
  | only c => c.isAlpha || c ∈ lexicalSigns
  | digit | nameCharacter => true

theorem CharacterClass.isLexical_of_holds {k : CharacterClass} {c : Char}
    (lexical : k.isLexical = true) (holds : k.holds c = true) : IsLexical c := by
  cases k with
  | only d =>
    obtain rfl : c = d := beq_iff_eq.mp holds
    rw [isLexical, Bool.or_eq_true, decide_eq_true_eq] at lexical
    exact lexical.imp_right .inr
  | digit => exact .inr (.inl holds)
  | nameCharacter =>
    rw [CharacterClass.holds, Pattern.isNameCharacter, Bool.or_eq_true, beq_iff_eq] at holds
    rcases holds with letter | rfl
    · exact .inl letter
    · exact .inr (.inr (by decide))

section Rules

variable {c : Char} {text : List Char} {r : Rule} {m : Match}

/-- A match starts with a character of the first class of its pattern. -/
theorem Rule.exists_holds (found : r.match? (c :: text) = some m) :
    ∃ k ∈ r.pattern.opening.head?, k.holds c = true := by
  obtain ⟨_, split, _⟩ := Option.map_eq_some_iff.mp found
  have starts := Pattern.start_opening_text split
  cases row : r.pattern.opening with
  | nil => cases pattern : r.pattern <;> simp [pattern, Pattern.opening] at row
  | cons k ks =>
    rw [row, CharacterClass.start, Bool.and_eq_true] at starts
    exact ⟨k, rfl, starts.1⟩

theorem Rule.isLexical (member : r ∈ rules) (found : r.match? (c :: text) = some m) :
    IsLexical c := by
  have key : ∀ r ∈ rules, ∀ k ∈ r.pattern.opening.head?, k.isLexical = true := by decide
  obtain ⟨k, first, holds⟩ := Rule.exists_holds found
  exact CharacterClass.isLexical_of_holds (key r member k first) holds

theorem Rule.head?_of_single (single : c = '&' ∨ c = '|') (member : r ∈ rules)
    (found : r.match? (c :: text) = some m) : text.head? = some c := by
  have key : ∀ r ∈ rules, ∀ k ∈ r.pattern.opening.head?,
      (k.holds '&' = true → r.pattern.opening = [.only '&', .only '&']) ∧
        (k.holds '|' = true → r.pattern.opening = [.only '|', .only '|']) := by decide
  obtain ⟨k, first, holds⟩ := Rule.exists_holds found
  have row : r.pattern.opening = [.only c, .only c] := by
    rcases single with rfl | rfl
    · exact (key r member k first).1 holds
    · exact (key r member k first).2 holds
  obtain ⟨_, split, _⟩ := Option.map_eq_some_iff.mp found
  have starts := Pattern.start_opening_text split
  rw [row] at starts
  cases text with
  | nil => simp [CharacterClass.start] at starts
  | cons d text => simpa [CharacterClass.start, CharacterClass.holds] using starts

theorem Pattern.behind?_self (start rest : List Char) :
    behind? start (start ++ rest) = some rest := by
  induction start with
  | nil => rfl
  | cons c start ih => rw [List.cons_append, behind?, if_pos rfl, ih]

namespace Pattern

variable {lexeme rest : List Char}

theorem split_exact_iff {first : Char} {more : List Char} :
    (exact first more).split text = some (lexeme, rest) ↔
      lexeme = first :: more ∧ text = lexeme ++ rest := by
  rw [split, Option.map_eq_some_iff]
  constructor
  · rintro ⟨_, found, same⟩
    cases same
    exact ⟨rfl, (behind?_append found).symm⟩
  · rintro ⟨rfl, rfl⟩
    exact ⟨rest, behind?_self _ rest, rfl⟩

theorem split_word_iff {first : Char} {more : List Char} :
    (word first more).split text = some (lexeme, rest) ↔
      lexeme = first :: more ∧ text = lexeme ++ rest ∧
        ∀ c ∈ rest.head?, Text.isWordCharacter c = false := by
  rw [split, Option.bind_eq_bind, Option.bind_eq_some_iff]
  constructor
  · rintro ⟨_, found, ended⟩
    split at ended
    · cases ended
    · next stop =>
      cases ended
      exact ⟨rfl, (behind?_append found).symm, by simpa [Option.any_eq_true] using stop⟩
  · rintro ⟨rfl, rfl, stop⟩
    refine ⟨rest, behind?_self _ rest, if_neg ?_⟩
    simpa [Option.any_eq_true] using stop

/-- A name is the longest run of name characters. -/
theorem split_name_iff :
    name.split text = some (lexeme, rest) ↔ lexeme ≠ [] ∧ text = lexeme ++ rest ∧
      (∀ c ∈ lexeme, isNameCharacter c = true) ∧ ∀ c ∈ rest.head?, isNameCharacter c = false := by
  constructor
  · intro found
    obtain ⟨whole, nonempty⟩ := split_append found
    rw [split] at found
    split at found
    · cases found
    · cases found
      refine ⟨nonempty, whole.symm, List.all_eq_true.mp List.all_takeWhile, fun c next => ?_⟩
      have stopped := List.head?_dropWhile_not isNameCharacter text
      rw [Option.mem_def.mp next] at stopped
      simpa using stopped
  · rintro ⟨nonempty, rfl, letters, stop⟩
    rw [split, takeWhile_stop stop, dropWhile_stop stop,
      List.takeWhile_eq_self_iff.mpr letters, List.dropWhile_eq_nil_iff.mpr letters]
    exact if_neg nonempty

theorem isSome_number_iff :
    (number.split text).isSome = true ↔ ∃ c ∈ text.head?, c.isDigit = true := by
  cases text with
  | nil => simp [split, splitNumber]
  | cons c text =>
    simp only [split, splitNumber]
    by_cases digit : c.isDigit = true
    · refine iff_of_true ?_ ⟨c, rfl, digit⟩
      rw [if_neg (by simp [digit])]
      split <;> rfl
    · simp [digit]

theorem isSome_name_iff :
    (name.split text).isSome = true ↔ ∃ c ∈ text.head?, isNameCharacter c = true := by
  cases text with
  | nil => simp [split]
  | cons c text => by_cases letter : isNameCharacter c = true <;> simp [split, letter]

end Pattern

theorem Rule.match?_eq_some_iff :
    r.match? text = some m ↔ r.pattern.split text = some (m.lexeme, m.rest) ∧ r.kind = m.kind := by
  obtain ⟨kind, lexeme, rest⟩ := m
  rw [match?, Option.map_eq_some_iff]
  constructor
  · rintro ⟨_, split, same⟩
    cases same
    exact ⟨split, rfl⟩
  · rintro ⟨split, rfl⟩
    exact ⟨_, split, rfl⟩

theorem firstMatch?_eq_none (unmatched : ∀ r ∈ rules, ∀ m, r.match? text ≠ some m) :
    firstMatch? text = none := by
  apply List.findSome?_eq_none_iff.mpr
  intro r member
  exact Option.eq_none_iff_forall_ne_some.mpr (unmatched r member)

theorem firstMatch?_ne_none (member : r ∈ rules) (takes : r.pattern.split text ≠ none) :
    firstMatch? text ≠ none := by
  intro unfound
  have unmatched := List.findSome?_eq_none_iff.mp unfound r member
  exact takes (Option.map_eq_none_iff.mp unmatched)

theorem firstMatch?_ne_none_of_isNameCharacter (letter : Pattern.isNameCharacter c = true) :
    firstMatch? (c :: text) ≠ none := by
  apply firstMatch?_ne_none (r := ⟨.symbol, .name⟩) (by simp [rules])
  exact Option.isSome_iff_ne_none.mp (Pattern.isSome_name_iff.mpr ⟨c, rfl, letter⟩)

theorem firstMatch?_ne_none_of_isDigit (digit : c.isDigit = true) :
    firstMatch? (c :: text) ≠ none := by
  apply firstMatch?_ne_none (r := ⟨.num, .number⟩) (by simp [rules])
  exact Option.isSome_iff_ne_none.mp (Pattern.isSome_number_iff.mpr ⟨c, rfl, digit⟩)

theorem firstMatch?_ne_none_of_exact {first : Char} {more : List Char} (member : r ∈ rules)
    (pattern : r.pattern = .exact first more) (rest : List Char) :
    firstMatch? (first :: more ++ rest) ≠ none := by
  apply firstMatch?_ne_none member
  rw [pattern, Pattern.split_exact_iff.mpr ⟨rfl, rfl⟩]
  exact Option.some_ne_none _

/-- A mark is unreadable exactly when its line holds no other one. -/
theorem firstMatch?_mark_eq_none_iff (quotation : IsQuotationMark c) :
    firstMatch? (c :: text) = none ↔ c ∉ text.takeWhile (· != '\n') := by
  rw [firstMatch?_quoted quotation, ← (match?_quoted_iff quotation text).1,
    Option.not_isSome_iff_eq_none]

theorem firstMatch?_ne_none_of_isLexical (lexical : IsLexical c) (space : c ≠ ' ')
    (single : c = '&' ∨ c = '|' → text.head? = some c)
    (closed : IsQuotationMark c → c ∈ text.takeWhile (· != '\n')) :
    firstMatch? (c :: text) ≠ none := by
  rcases lexical with letter | digit | sign
  · exact firstMatch?_ne_none_of_isNameCharacter (by simp [Pattern.isNameCharacter, letter])
  · exact firstMatch?_ne_none_of_isDigit digit
  · have key : ∀ c ∈ lexicalSigns, c = ' ' ∨ c = '_' ∨ (c = '&' ∨ c = '|') ∨ (c = '"' ∨ c = '\'') ∨
        ∃ r ∈ rules, r.pattern = .exact c [] := List.all_iff_forall_prop.mp (by decide)
    rcases key c sign with rfl | rfl | half | quotation | ⟨r, member, pattern⟩
    · exact absurd rfl space
    · exact firstMatch?_ne_none_of_isNameCharacter (by decide)
    · obtain ⟨more, rfl⟩ := List.head?_eq_some_iff.mp (single half)
      have doubled : ∃ r ∈ rules, r.pattern = .exact c [c] := by
        rcases half with rfl | rfl <;> decide
      obtain ⟨r, member, pattern⟩ := doubled
      exact firstMatch?_ne_none_of_exact member pattern more
    · rw [ne_eq, firstMatch?_mark_eq_none_iff quotation, not_not]
      exact closed quotation
    · exact firstMatch?_ne_none_of_exact member pattern text

/-- No rule matches at a space or at an unreadable character, and some rule does everywhere else. -/
theorem firstMatch?_eq_none_iff :
    firstMatch? (c :: text) = none ↔ c = ' ' ∨ Unreadable c text := by
  constructor
  · intro unfound
    by_contra readable
    rw [not_or] at readable
    obtain ⟨space, readable⟩ := readable
    refine firstMatch?_ne_none_of_isLexical ?_ space ?_ ?_ unfound
    · by_contra foreign
      exact readable (.foreign foreign)
    · intro single
      by_contra other
      exact readable (.single single other)
    · intro quotation
      by_contra open_
      exact readable (.unclosed quotation open_)
  · rintro (rfl | foreign | ⟨half, other⟩ | ⟨quotation, open_⟩)
    · exact firstMatch?_space text
    · apply firstMatch?_eq_none
      intro r member m found
      exact foreign (Rule.isLexical member found)
    · apply firstMatch?_eq_none
      intro r member m found
      exact other (Rule.head?_of_single half member found)
    · exact (firstMatch?_mark_eq_none_iff quotation).mpr open_

/-- The payload of a match can always be read, numerals included. -/
theorem exists_payload (found : firstMatch? text = some m) :
    ∃ payload, Payload.ofLexeme? m.kind m.lexeme = some payload := by
  obtain ⟨r, member, matched⟩ := List.exists_of_findSome?_eq_some found
  obtain ⟨⟨lexeme, rest⟩, taken, rfl⟩ := Option.map_eq_some_iff.mp matched
  simp only [Payload.ofLexeme?]
  split
  · next num =>
    have key : ∀ r ∈ rules, r.kind = .num → r.pattern = .number := by decide
    rw [key r member num] at taken
    obtain ⟨whole, nonempty, digits, rfl | ⟨places, further, rfl⟩⟩ :=
      Pattern.splitNumber_cases taken
    · exact ⟨_, by rw [Decimal.ofChars?_whole nonempty digits]; rfl⟩
    · exact ⟨_, by rw [Decimal.ofChars?_places nonempty digits further]; rfl⟩
  · exact ⟨_, rfl⟩
  · exact ⟨_, rfl⟩

theorem Scanner.exists_token (found : firstMatch? text = some m) (s : Scanner) :
    ∃ t, s.token? m = some t := by
  obtain ⟨payload, read⟩ := exists_payload found
  rw [token?, read]
  exact ⟨_, rfl⟩

theorem head?_ne_space (found : firstMatch? text = some m) : ∀ c ∈ text.head?, c ≠ ' ' := by
  intro c first same
  obtain ⟨more, rfl⟩ := List.head?_eq_some_iff.mp first
  rw [same, firstMatch?_space] at found
  cases found

end Rules

/-- The scan visits the place between both texts: at the start, or after a space or a match at a
visited place. -/
inductive Visits (text : List Char) : List Char → List Char → Prop where
  | start : Visits text [] text
  | space {before rest : List Char} : Visits text before (' ' :: rest) →
      Visits text (before ++ [' ']) rest
  | lexeme {before rest : List Char} {m : Match} : Visits text before rest →
      firstMatch? rest = some m → Visits text (before ++ m.lexeme) m.rest

namespace Visits

variable {text before skipped rest : List Char}

theorem append (visits : Visits text before rest) : before ++ rest = text := by
  induction visits with
  | start => rfl
  | space _ ih => simpa using ih
  | lexeme _ found ih => simpa [(firstMatch?_append found).1] using ih

theorem gap (stands : Gap skipped rest) (visits : Visits text before (skipped ++ rest)) :
    Visits text (before ++ skipped) rest := by
  induction stands generalizing before with
  | none => simpa using visits
  | space _ ih => simpa using ih visits.space
  | lineComment inside ended _ ih =>
    rw [List.append_assoc] at visits
    simpa using ih (visits.lexeme (firstMatch?_lineComment inside ended))
  | blockComment outside _ ih =>
    rw [List.append_assoc] at visits
    simpa using ih (visits.lexeme (firstMatch?_blockComment outside _))

end Visits

namespace Scanner

theorem scan_eq_of_next_eq {s s' : Scanner} (same : s.next = s'.next) : s.scan = s'.scan := by
  rcases next : s'.next with ⟨_ | e | t, behind⟩
  · rw [scan_of_next_none next, scan_of_next_none (same.trans next)]
  · rw [scan_of_next_error next, scan_of_next_error (same.trans next)]
  · rw [scan_of_next_ok next, scan_of_next_ok (same.trans next)]

/-- A scan resumed at a visited place ends in the same error. -/
theorem scan_visits {text before rest : List Char} (visits : Visits text before rest) :
    ((start text).pass before rest).scan.2 = (start text).scan.2 := by
  induction visits with
  | start => rfl
  | @space before rest visits ih =>
    have skipped := skipSpaces_space ((start text).pass before (' ' :: rest)) rfl
    rw [← ih, scan_eq_of_next_eq (next_eq_of_skipSpaces skipped), pass_pass]
  | @lexeme before rest m visits found ih =>
    rw [← ih]
    by_cases comment : m.kind = .comment
    · have next := next_comment (s := (start text).pass before rest) found comment
        (head?_ne_space found)
      rw [scan_eq_of_next_eq next, pass_pass]
    · obtain ⟨t, read⟩ := exists_token found ((start text).pass before rest)
      have next := next_token (s := (start text).pass before rest)
        (Lexical.of_match found comment) found read
      rw [scan_of_next_ok next, pass_pass]

/-- The error is at a visited place where no rule matches. -/
def FailsAt (text : List Char) (e : LexError) : Prop :=
  ∃ before rest, Visits text before (e.found :: rest) ∧ e.found ≠ ' ' ∧
    firstMatch? (e.found :: rest) = none ∧ e.offset = byteLength before ∧
    e.position = .behind before

/-- By induction on the scan, an error arises at a visited place where no rule matches. -/
theorem failsAt_of_scan {s : Scanner} {text before : List Char} (stands : s.Behind before)
    (visits : Visits text before s.rest) : ∀ e ∈ s.scan.2, FailsAt text e := by
  obtain ⟨gap, rest, same, gapped, lexical, ⟨rfl, next⟩ | ⟨m, t, found, read, next⟩ |
    ⟨c, cs, rfl, unread, next⟩⟩ := s.next_cases
  · simp [scan_of_next_none next]
  · have shorter := next_rest_length next
    have further := stands.pass (gap ++ m.lexeme) m.rest
    rw [same] at visits
    have place := (visits.gap gapped).lexeme found
    rw [List.append_assoc] at place
    rw [scan_of_next_ok next]
    exact failsAt_of_scan further place
  · have here := stands.pass gap (c :: cs)
    rw [same] at visits
    rw [scan_of_next_error next]
    rintro e ⟨⟩
    refine ⟨before ++ gap, cs, visits.gap gapped, lexical.space c rfl, ?_, here.offset,
      here.position⟩
    refine Option.eq_none_iff_forall_ne_some.mpr fun m found => ?_
    obtain ⟨t, read⟩ := exists_token found (s.pass gap (c :: cs))
    cases (unread m found).symm.trans read
termination_by s.rest.length

theorem scan_error_iff {text : List Char} {e : LexError} :
    (start text).scan.2 = some e ↔ FailsAt text e := by
  constructor
  · intro failed
    exact failsAt_of_scan (s := start text) ⟨rfl, rfl⟩ .start e failed
  · rintro ⟨before, rest, visits, space, stuck, offset, position⟩
    have stands : (start text).Behind [] := ⟨rfl, rfl⟩
    have here := stands.pass before (e.found :: rest)
    have unmatched {m : Match} (found : firstMatch? (e.found :: rest) = some m) : False := by
      cases stuck.symm.trans found
    have lexical : Lexical (e.found :: rest) :=
      ⟨by simpa using space, fun m found => (unmatched found).elim⟩
    have next := next_error (s := (start text).pass before (e.found :: rest)) lexical rfl
      fun m found => (unmatched found).elim
    rw [← scan_visits visits, scan_of_next_error next, error, here.offset, here.position,
      List.nil_append, ← offset, ← position]

@[simp] theorem start_rest (text : List Char) : (start text).rest = text := rfl

theorem ofSource_eq_start (source : Source) : ofSource source = start source.trimmed.toList := rfl

/-- The answer to the call of `next` with the number. -/
def answer (s : Scanner) : Nat → Option (Except LexError Token)
  | 0 => s.next.1
  | n + 1 => s.next.2.answer n

theorem answer_ended {s : Scanner} (empty : s.rest = []) (n : Nat) : s.answer n = none := by
  induction n with
  | zero => rw [answer, next_end empty]
  | succ n ih => rw [answer, next_end empty, ih]

/-- Repeated calls return the tokens, then the error if there is one, and nothing from then on. -/
theorem answer_eq (s : Scanner) (n : Nat) :
    s.answer n = (s.scan.1.map Except.ok ++ s.scan.2.toList.map Except.error)[n]? := by
  induction n generalizing s with
  | zero =>
    rcases next : s.next with ⟨_ | e | t, behind⟩
    · simp [answer, next, scan_of_next_none next]
    · simp [answer, next, scan_of_next_error next]
    · simp [answer, next, scan_of_next_ok next]
  | succ n ih =>
    obtain ⟨gap, rest, same, _, _, ⟨_, next⟩ | ⟨m, t, _, _, next⟩ | ⟨c, cs, _, _, next⟩⟩ :=
      s.next_cases
    · simp [answer, next, answer_ended, pass, scan_of_next_none next]
    · simp [answer, next, ih, scan_of_next_ok next]
    · simp [answer, next, answer_ended, stop, scan_of_next_error next]

/-- There are no more tokens than characters. -/
theorem length_scan_le (s : Scanner) : s.scan.1.length ≤ s.rest.length := by
  rcases next : s.next with ⟨_ | e | t, behind⟩
  · simp [scan_of_next_none next]
  · simp [scan_of_next_error next]
  · have shorter := next_rest_length next
    have further := length_scan_le behind
    rw [scan_of_next_ok next, List.length_cons]
    omega
termination_by s.rest.length

end Scanner

/-- The answers to repeated calls of `next`: tokens, then an error where no rule matches, then
nothing. -/
structure Source.Yields (source : Source) (ts : List Token) (failure : Option LexError) : Prop where
  few : ts.length ≤ source.trimmed.toList.length
  answers : ∀ n, (Scanner.ofSource source).answer n =
    (ts.map Except.ok ++ failure.toList.map Except.error)[n]?
  fails : ∀ e, failure = some e ↔ Scanner.FailsAt source.trimmed.toList e
  /-- the offset is a character boundary, at the character found -/
  found : ∀ e ∈ failure, e.offset < source.trimmed.utf8ByteSize ∧
    ∃ before rest, source.trimmed = .ofList before ++ .ofList (e.found :: rest) ∧
      e.offset = (String.ofList before).utf8ByteSize

theorem Source.yields (source : Source) :
    source.Yields (Scanner.ofSource source).scan.1 (Scanner.ofSource source).scan.2 where
  few := by
    have few := (Scanner.start source.trimmed.toList).length_scan_le
    rwa [Scanner.start_rest] at few
  answers := (Scanner.ofSource source).answer_eq
  fails e := by
    rw [Scanner.ofSource_eq_start]
    exact Scanner.scan_error_iff
  found e failed := by
    rw [Scanner.ofSource_eq_start] at failed
    obtain ⟨before, rest, visits, _, _, offset, _⟩ := Scanner.scan_error_iff.mp failed
    have whole : source.trimmed = .ofList before ++ .ofList (e.found :: rest) := by
      rw [← String.ofList_append, visits.append, String.ofList_toList]
    have wide := e.found.utf8Size_pos
    refine ⟨?_, before, rest, whole, by rw [offset, utf8ByteSize_ofList]⟩
    rw [whole, String.utf8ByteSize_append, utf8ByteSize_ofList, utf8ByteSize_ofList, offset,
      byteLength]
    omega

/-- Every source yields finitely many tokens and at most one error after them. The scan fails
exactly where no rule matches after a gap, which the first characters decide, and never while
reading the payload of a match. -/
theorem scan_fails_exactly :
    (∀ source : Source, ∃ ts failure, source.Yields ts failure) ∧
    (∀ c text, firstMatch? (c :: text) = none ↔ c = ' ' ∨ Unreadable c text) ∧
    ∀ text m, firstMatch? text = some m → ∀ s : Scanner, ∃ t, s.token? m = some t :=
  ⟨fun source => ⟨_, _, source.yields⟩, fun _ _ => firstMatch?_eq_none_iff,
    fun _ _ => Scanner.exists_token⟩

/-- After a numeral that ends in its point, half of an operator fails. -/
theorem scan_fails_exactly_half :
    let source := Source.ofContent "7.|"
    let m : Match := ⟨.num, ['7', '.'], ['|']⟩
    (∃ ts, source.Yields ts (some ⟨2, ⟨1, 3⟩, '|'⟩)) ∧
      firstMatch? ['7', '.', '|'] = some m ∧ ∀ s : Scanner, ∃ t, s.token? m = some t := by
  intro source m
  obtain ⟨yields, readable, read⟩ := scan_fails_exactly
  have found : firstMatch? ['7', '.', '|'] = some m := rfl
  have unmatched : firstMatch? ['|'] = none :=
    (readable '|' []).mpr (.inr (.single (.inr rfl) nofun))
  have text : source.trimmed.toList = ['7', '.', '|'] := by cbv
  have visits : Visits source.trimmed.toList ['7', '.'] ['|'] := by
    rw [text]
    exact Visits.start.lexeme found
  obtain ⟨ts, failure, gives⟩ := yields source
  obtain rfl := (gives.fails ⟨2, ⟨1, 3⟩, '|'⟩).mpr
    ⟨['7', '.'], [], visits, by decide, unmatched, rfl, rfl⟩
  exact ⟨⟨ts, gives⟩, found, read _ m found⟩

end BracketScript
