import BracketScript.Proofs.Concatenation
import BracketScript.Proofs.Escapes
import BracketScript.Render

/-! Reports point at what is wrong. Positions are those of the text that is scanned, and the line
that a report shows is one of the whole text, without a carriage return at its end; the caret is
still under the first character of the offender, or not far behind the end of the line. -/
namespace BracketScript

section Lines

theorem lineAfter_newline (breaks : Nat) (cs : List Char) :
    lineAfter (breaks + 1) ('\n' :: cs) = lineAfter breaks cs := rfl

theorem lineAfter_cons {c : Char} (other : c ≠ '\n') (breaks : Nat) (cs : List Char) :
    lineAfter (breaks + 1) (c :: cs) = lineAfter (breaks + 1) cs := by
  simp [lineAfter, other]

/-- Whole lines in front are counted and dropped. -/
theorem lineAfter_append {lines : List Char}
    (whole : ∀ nonempty : lines ≠ [], lines.getLast nonempty = '\n') (rest : List Char) :
    lineAfter (lines.count '\n') (lines ++ rest) = some (rest.takeWhile (· != '\n')) := by
  induction lines with
  | nil => rfl
  | cons c lines ih =>
    by_cases last : lines = []
    · subst last
      obtain rfl : c = '\n' := whole (by simp)
      rfl
    · have whole' : ∀ nonempty : lines ≠ [], lines.getLast nonempty = '\n' := by
        intro nonempty
        rw [← List.getLast_cons nonempty]
        exact whole (by simp)
      have further := ih whole'
      by_cases newline : c = '\n'
      · rw [newline, List.count_cons_self, List.cons_append, lineAfter_newline, further]
      · have broken : '\n' ∈ lines := whole' last ▸ List.getLast_mem last
        obtain ⟨breaks, count⟩ := Nat.exists_eq_add_one.mpr (List.count_pos_iff.mpr broken)
        rw [List.count_cons_of_ne newline, count, List.cons_append, lineAfter_cons newline,
          ← count, further]

/-- The line of a place is the text between the nearest line breaks on both sides. -/
theorem lineAfter_count (before rest : List Char) :
    lineAfter (before.count '\n') (before ++ rest) =
      some (before.rtakeWhile (· != '\n') ++ rest.takeWhile (· != '\n')) := by
  have line : ∀ c ∈ before.rtakeWhile (· != '\n'), (c != '\n') = true := fun c =>
    List.mem_rtakeWhile_imp
  have unbroken : (before.rtakeWhile (· != '\n')).count '\n' = 0 :=
    List.count_eq_zero.mpr fun member => by simpa using line _ member
  have split : before.rdropWhile (· != '\n') ++ before.rtakeWhile (· != '\n') = before :=
    List.rdropWhile_append_rtakeWhile
  have whole : ∀ nonempty : before.rdropWhile (· != '\n') ≠ [],
      (before.rdropWhile (· != '\n')).getLast nonempty = '\n' := fun nonempty => by
    simpa using List.rdropWhile_last_not (· != '\n') before nonempty
  calc lineAfter (before.count '\n') (before ++ rest)
      = lineAfter ((before.rdropWhile (· != '\n')).count '\n')
          (before.rdropWhile (· != '\n') ++ (before.rtakeWhile (· != '\n') ++ rest)) := by
        conv_lhs => rw [← split]
        rw [List.count_append, unbroken, Nat.add_zero, List.append_assoc]
    _ = some (before.rtakeWhile (· != '\n') ++ rest.takeWhile (· != '\n')) := by
        rw [lineAfter_append whole, List.takeWhile_append_of_pos line]

theorem dropFinalReturn_cases (cs : List Char) :
    dropFinalReturn cs = cs ∨ cs = dropFinalReturn cs ++ ['\r'] := by
  fun_induction dropFinalReturn cs with
  | case1 => exact .inl rfl
  | case2 => exact .inr rfl
  | case3 c cs _ ih => simpa using ih

theorem mem_of_mem_dropFinalReturn {c : Char} {cs : List Char}
    (member : c ∈ dropFinalReturn cs) : c ∈ cs := by
  rcases dropFinalReturn_cases cs with same | same
  · rwa [same] at member
  · rw [same]
    exact List.mem_append_left _ member

theorem length_le_dropFinalReturn (cs : List Char) :
    cs.length ≤ (dropFinalReturn cs).length + 1 := by
  rcases dropFinalReturn_cases cs with same | same
  · rw [same]
    omega
  · have := congrArg List.length same
    simp only [List.length_append, List.length_singleton] at this
    omega

/-- A shown line keeps every character in its column, except a carriage return at its end. -/
theorem dropFinalReturn_shows (front rest : List Char) (c : Char) :
    (dropFinalReturn (front ++ c :: rest))[front.length]? = some c ∨
      c = '\r' ∧ front ++ c :: rest = front ++ ['\r'] ∧
        dropFinalReturn (front ++ c :: rest) = front := by
  rcases dropFinalReturn_cases (front ++ c :: rest) with same | same
  · left
    rw [same]
    simp
  · rcases List.eq_nil_or_concat' rest with rfl | ⟨inner, last, rfl⟩
    · right
      obtain ⟨shown, last⟩ := List.append_inj' same rfl
      obtain rfl : c = '\r' := (List.cons.inj last).1
      exact ⟨rfl, rfl, shown.symm⟩
    · left
      rw [← List.cons_append, ← List.append_assoc] at same
      obtain ⟨shown, _⟩ := List.append_inj' same rfl
      rw [← List.cons_append, ← List.append_assoc, ← shown]
      simp

theorem Source.exists_trimmed_append (source : Source) :
    ∃ tail, source.content.toList = source.trimmed.toList ++ tail := by
  rw [trimmed, String.toList_ofList]
  rcases dropFinalBreak_cases source.content.toList with same | same | same
  · exact ⟨[], by simpa using same⟩
  · exact ⟨_, same⟩
  · exact ⟨_, same⟩

end Lines

/-- The shown line of a place, computed from the text on both sides of it. -/
theorem Source.line?_behind {source : Source} {front rest : List Char}
    (same : source.content.toList = front ++ rest) :
    source.line? (Position.behind front).line = some (.ofList (dropFinalReturn
      (front.rtakeWhile (· != '\n') ++ rest.takeWhile (· != '\n')))) := by
  rw [Position.behind, Nat.add_comm, line?, same, lineAfter_count]
  rfl

/-- The position of a place in the text, or one column past it. -/
structure Position.Within (p : Position) (text : List Char) : Prop where
  line : ∃ front rest, text = front ++ rest ∧ p.line = (behind front).line ∧
    p.col ≤ (behind front).col + 1
  col : 1 ≤ p.col

namespace Position

variable {text : List Char}

theorem Within.of_behind {front rest : List Char} (same : text = front ++ rest) :
    (behind front).Within text :=
  ⟨⟨front, rest, same, rfl, Nat.le_succ _⟩, Nat.le_add_right _ _⟩

theorem Within.append {p : Position} (within : p.Within text) (tail : List Char) :
    p.Within (text ++ tail) := by
  obtain ⟨⟨front, rest, same, line, col⟩, beyond⟩ := within
  exact ⟨⟨front, rest ++ tail, by rw [same, List.append_assoc], line, col⟩, beyond⟩

/-- A position within a source selects a line, and its column exceeds the length of the line by
three at most. -/
theorem Within.exists_line {source : Source} {p : Position}
    (within : p.Within source.content.toList) :
    ∃ line, source.line? p.line = some line ∧ '\n' ∉ line.toList ∧ p.col ≤ line.length + 3 := by
  obtain ⟨⟨front, rest, same, line, col⟩, _⟩ := within
  have shown := Source.line?_behind same
  have long := length_le_dropFinalReturn
    (front.rtakeWhile (· != '\n') ++ rest.takeWhile (· != '\n'))
  refine ⟨_, line ▸ shown, ?_, ?_⟩
  · rw [String.toList_ofList]
    intro member
    rcases List.mem_append.mp (mem_of_mem_dropFinalReturn member) with front | rest
    · simpa using List.mem_rtakeWhile_imp front
    · simpa using List.mem_takeWhile_imp rest
  · rw [String.length_ofList]
    simp only [behind, List.length_append] at col long
    omega

end Position

/-- A character is shown at its column, unless it is a carriage return at the end of the line. -/
theorem Source.shows {source : Source} {front rest : List Char} {c : Char} {line : String}
    (same : source.content.toList = front ++ c :: rest) (other : c ≠ '\n')
    (found : source.line? (Position.behind front).line = some line) :
    line.toList[(Position.behind front).col - 1]? = some c ∨
      c = '\r' ∧ (Position.behind front).col = line.length + 1 ∧
        lineAfter ((Position.behind front).line - 1) source.content.toList =
          some (line.toList ++ ['\r']) := by
  have further : (c :: rest).takeWhile (· != '\n') = c :: rest.takeWhile (· != '\n') := by
    simp [other]
  rw [line?_behind same, further] at found
  obtain rfl := Option.some.inj found
  have whole := lineAfter_count front (c :: rest)
  rw [further, ← same] at whole
  simp only [Position.behind, Nat.add_sub_cancel_left, String.toList_ofList, String.length_ofList]
  rcases dropFinalReturn_shows (front.rtakeWhile (· != '\n')) (rest.takeWhile (· != '\n')) c with
    shown | ⟨carriage, last, shown⟩
  · exact .inl shown
  · exact .inr ⟨carriage, by rw [shown, Nat.add_comm], by rw [shown, whole, last]⟩

namespace Placed

variable {before text : List Char} {ts : List Token} {e : Option LexError}

/-- Each token of a placed scan has its lexeme at its position. -/
theorem exists_lexeme (placed : Placed before text ts e) :
    ∀ t ∈ ts, ∃ front lexeme rest, before ++ text = front ++ (lexeme ++ rest) ∧ lexeme ≠ [] ∧
      t.position = .behind front ∧ Spelling t.kind t.payload lexeme ∧
      t.width = lexeme.length := by
  induction placed with
  | finish | error => simp
  | @token before gap lexeme rest t ts e _ nonempty spelled stands width _ ih =>
    refine List.forall_mem_cons.mpr ⟨?_, fun u member => ?_⟩
    · exact ⟨before ++ gap, lexeme, rest, by simp, nonempty, stands, spelled, width⟩
    · obtain ⟨front, lexeme', rest', same, further⟩ := ih u member
      exact ⟨front, lexeme', rest', by rw [← same]; simp, further⟩

theorem exists_character (placed : Placed before text ts e) :
    ∀ error ∈ e, ∃ front rest, before ++ text = front ++ error.found :: rest ∧
      error.position = .behind front ∧ error.offset = byteLength front := by
  induction placed with
  | finish => simp
  | @error before gap rest c _ =>
    rintro error ⟨⟩
    exact ⟨before ++ gap, rest, by simp, rfl, rfl⟩
  | @token before gap lexeme rest t ts e _ _ _ _ _ _ ih =>
    intro error member
    obtain ⟨front, rest', same, further⟩ := ih error member
    exact ⟨front, rest', by rw [← same]; simp, further⟩

/-- The position of the sentinel is within the text, as those of the tokens are. -/
theorem sentinel_within (placed : Placed [] text ts e) :
    (Token.sentinel ts).position.Within text := by
  cases last : ts.getLast? with
  | none =>
    have start : (Token.sentinel ts).position = .behind [] := by
      simp [Token.sentinel, Token.position, last, Position.behind]
    rw [start]
    exact .of_behind rfl
  | some t =>
    have stands : (Token.sentinel ts).position = t.ending := by
      simp [Token.sentinel, Token.position, last]
    obtain ⟨front, lexeme, rest, same, _, place, spelled, width⟩ :=
      placed.exists_lexeme t (List.mem_of_getLast? last)
    have line : t.line = (Position.behind front).line := congrArg Position.line place
    have col : t.col = (Position.behind front).col := congrArg Position.col place
    rw [stands, Token.ending, width, line, col]
    rw [List.nil_append] at same
    rcases spelled.line with inside | rfl
    · rw [← Position.behind_line front inside]
      exact .of_behind (same.trans (List.append_assoc _ _ _).symm)
    · exact ⟨⟨front, _, same, rfl, Nat.le_refl _⟩, by simp [Position.behind]⟩

end Placed

/-- A line break is always a lexeme, so no scan fails at one. -/
theorem Scanner.scan_found (s : Scanner) : ∀ e ∈ s.scan.2, e.found ≠ '\n' := by
  obtain ⟨_, _, _, _, _, ⟨_, next⟩ | ⟨m, t, _, _, next⟩ | ⟨c, cs, rfl, unread, next⟩⟩ :=
    s.next_cases
  · simp [scan_of_next_none next]
  · have shorter := next_rest_length next
    rw [scan_of_next_ok next]
    exact scan_found _
  · rw [scan_of_next_error next]
    rintro e ⟨⟩ newline
    obtain rfl : c = '\n' := newline
    exact absurd (unread ⟨.newline, ['\n'], cs⟩ rfl) nofun
termination_by s.rest.length

/-- Only newline tokens are spelled with a line break in front. -/
theorem Spelling.eq_newline {kind : Kind} {payload : Payload} {lexeme : List Char}
    (spelled : Spelling kind payload lexeme) (break_ : lexeme = ['\n']) : kind = .newline := by
  cases spelled with
  | @fixed _ text member =>
    obtain rfl : text = "\n" := String.toList_inj.mp break_
    have key : ∀ kind ∈ Kind.all, "\n" ∈ kind.spellings → kind = .newline := by decide
    exact key kind kind.mem_all member
  | name _ letters => exact absurd (letters '\n' (by simp [break_])) (by decide)
  | quoted => simp at break_
  | whole _ digits => exact absurd (digits '\n' (by simp [break_])) (by decide)
  | places nonempty => simp [List.append_eq_cons_iff, nonempty] at break_

/-- The failure is at a newline or at the end of the tokens. -/
def Failure.AtBreak : Failure → Prop
  | .lexical _ => False
  | .grammatical e => e.found.kind = .newline ∨ e.found.kind = .eof

/-- The characters at fault: one that starts no lexeme, or the lexeme of a rejected token. -/
inductive Failure.Offends : Failure → List Char → Prop where
  | character {e : LexError} : Offends (.lexical e) [e.found]
  | token {e : ParseError} {lexeme : List Char} :
      Spelling e.found.kind e.found.payload lexeme → e.found.width = lexeme.length →
      Offends (.grammatical e) lexeme

theorem ParseError.found_cases {ts : List Token} {e : ParseError} (failed : parse ts = .error e) :
    e.found ∈ ts ∨ e.found = .sentinel ts := by
  obtain ⟨rest, ran, found⟩ := parse_eq_error_iff_run.mp failed
  have suffix := Config.run_suffix Token.vocabulary .program ts
  rw [ran] at suffix
  rw [found]
  cases rest with
  | nil => exact .inr rfl
  | cons t rest => exact .inl (suffix.mem List.mem_cons_self)

/-- The position of a failure lies within the scanned text, at the start of what offends. -/
theorem Failure.within {source : Source} {failure : Failure}
    (failed : parseSource source = .error failure) :
    failure.fault.position.Within source.trimmed.toList ∧
      (¬ failure.AtBreak → ∃ front c cs rest, source.trimmed.toList = front ++ (c :: cs ++ rest) ∧
        c ≠ '\n' ∧ failure.fault.position = .behind front ∧ failure.Offends (c :: cs)) := by
  cases scanned : tokenize source with
  | error e =>
    obtain rfl : Failure.lexical e = failure := by simpa [parseSource_of_error scanned] using failed
    have stopped := scan_of_tokenize_error scanned
    obtain ⟨front, rest, same, place, _⟩ := source.placed.exists_character e stopped
    rw [List.nil_append] at same
    have position : (Failure.lexical e).fault.position = .behind front := place
    rw [position]
    refine ⟨.of_behind same, fun _ => ⟨front, e.found, [], rest, same, ?_, rfl, .character⟩⟩
    exact Scanner.scan_found _ e stopped
  | ok ts =>
    have placed := placed_of_tokenize scanned
    rw [parseSource_of_ok scanned] at failed
    cases parsed : parse ts with
    | ok p => simp [parsed] at failed
    | error e =>
      obtain rfl : Failure.grammatical e = failure := by simpa [parsed] using failed
      rcases ParseError.found_cases parsed with member | sentinel
      · obtain ⟨front, lexeme, rest, same, nonempty, place, spelled, width⟩ :=
          placed.exists_lexeme e.found member
        rw [List.nil_append] at same
        have position : (Failure.grammatical e).fault.position = .behind front := place
        rw [position]
        refine ⟨.of_behind same, fun other => ?_⟩
        obtain ⟨c, cs, rfl⟩ := List.exists_cons_of_ne_nil nonempty
        refine ⟨front, c, cs, rest, same, ?_, rfl, .token spelled width⟩
        rintro rfl
        rcases spelled.line with inside | break_
        · exact inside List.mem_cons_self
        · exact other (.inl (spelled.eq_newline break_))
      · have position : (Failure.grammatical e).fault.position = (Token.sentinel ts).position :=
          congrArg Token.position sentinel
        refine ⟨position ▸ placed.sentinel_within, fun other => absurd (.inr ?_) other⟩
        rw [sentinel]
        rfl

def Position.margin (p : Position) : String := toString p.line ++ " | "

def Position.caret (p : Position) : String :=
  spaces (toString p.line).length ++ " | " ++ spaces (p.col - 1) ++ "^"

/-- The five lines of a report: message, place, gutter, source line and caret. -/
def reportLines (source : Source) (fault : Fault) (line : String) : List String :=
  ["error: " ++ fault.message, " --> " ++ source.name ++ ":" ++ fault.position.text,
    spaces (toString fault.position.line).length ++ " |", fault.position.margin ++ line,
    fault.position.caret]

theorem report_plain {source : Source} {fault : Fault} {line : String}
    (found : source.line? fault.position.line = some line) :
    report .plain source fault =
      String.join ((reportLines source fault line).map (· ++ "\n")) := by
  apply String.toList_inj.mp
  unfold report reportHeader
  rw [found, Option.map_some, Option.getD_some]
  unfold reportExcerpt reportLines
  simp [Paint.plain, String.join, Position.margin, Position.caret]

theorem not_mem_digits {c : Char} (other : c.isDigit = false) (n : Nat) :
    c ∉ Nat.toDigits 10 n := by
  intro member
  have digit := Nat.isDigit_of_mem_toDigits (by decide) (by decide) member
  exact Bool.eq_false_iff.mp other digit

theorem newline_not_mem_digits (n : Nat) : '\n' ∉ Nat.toDigits 10 n := not_mem_digits rfl n

open Text (HasNoControls)

theorem Kind.hasNoControls_name (kind : Kind) : HasNoControls kind.name.toList := by
  have key : ∀ kind ∈ all, HasNoControls kind.name.toList := by decide +kernel
  exact key kind kind.mem_all

theorem LexError.hasNoControls_reason (e : LexError) : HasNoControls e.reason.toList := by
  have words : HasNoControls "unexpected character ".toList := by decide +kernel
  change HasNoControls ("unexpected character " ++ Text.quoteChar e.found).toList
  rw [String.toList_append]
  exact words.append (.quoteChar e.found)

theorem Expected.hasNoControls_name (expected : Expected) :
    HasNoControls expected.name.toList := by
  cases expected with
  | kind kind => exact kind.hasNoControls_name
  | expression => decide +kernel

theorem Token.hasNoControls_describe (t : Token) : HasNoControls t.describe.toList := by
  have escaped := HasNoControls.escape t.payload.display
  simp only [describe, String.toList_append]
  exact ((t.kind.hasNoControls_name.append (by decide)).append escaped).append (by decide)

/-- A message is a single line without controls, since it escapes what it quotes. -/
theorem Failure.hasNoControls_message (failure : Failure) :
    HasNoControls failure.fault.message.toList := by
  cases failure with
  | lexical e => exact e.hasNoControls_reason
  | grammatical e =>
    change HasNoControls ("expected " ++ e.expected.name ++ ", got " ++ e.found.describe).toList
    simp only [String.toList_append]
    exact (((show HasNoControls "expected ".toList by decide).append
      e.expected.hasNoControls_name).append (by decide)).append e.found.hasNoControls_describe

theorem newline_not_mem_reportLines {source : Source} {fault : Fault} {line : String}
    (name : '\n' ∉ source.name.toList) (message : '\n' ∉ fault.message.toList)
    (inside : '\n' ∉ line.toList) :
    ∀ text ∈ reportLines source fault line, '\n' ∉ text.toList := by
  simp [reportLines, Position.margin, Position.caret, Position.text, name, message, inside, spaces,
    newline_not_mem_digits]

/-- The caret is in the column of the position, counted after the margin. -/
theorem Position.idxOf?_caret (p : Position) :
    p.caret.toList.idxOf? '^' = some (p.margin.length + (p.col - 1)) := by
  have gutter : (spaces (toString p.line).length ++ " | " ++ spaces (p.col - 1)).toList.findIdx?
      (· == '^') = none := by
    simp [spaces, List.findIdx?_eq_none_iff]
  have bar : " | ".length = 3 := rfl
  rw [caret, String.toList_append, List.idxOf?, List.findIdx?_append, gutter]
  simp [spaces, margin, bar]
  omega

structure Failure.Pointed (source : Source) (failure : Failure) (line : String) : Prop where
  shown : source.line? failure.fault.position.line = some line
  lines : ∀ text ∈ reportLines source failure.fault line, '\n' ∉ text.toList
  caret : failure.fault.position.caret.toList.idxOf? '^' =
    some (failure.fault.position.margin.length + (failure.fault.position.col - 1))
  start : 1 ≤ failure.fault.position.col
  stop : failure.fault.position.col ≤ line.length + 3
  /-- A character at fault is shown in the column of the caret, unless it is a carriage return that
  the line omits. -/
  offender : ¬ failure.AtBreak → ∃ front c cs rest,
    source.trimmed.toList = front ++ (c :: cs ++ rest) ∧ failure.Offends (c :: cs) ∧
      failure.fault.position = .behind front ∧
      (line.toList[failure.fault.position.col - 1]? = some c ∨
        c = '\r' ∧ failure.fault.position.col = line.length + 1 ∧
          lineAfter (failure.fault.position.line - 1) source.content.toList =
            some (line.toList ++ ['\r']))

theorem Failure.pointed {source : Source} {failure : Failure}
    (name : '\n' ∉ source.name.toList) (failed : parseSource source = .error failure) :
    ∃ line, failure.Pointed source line := by
  obtain ⟨tail, whole⟩ := source.exists_trimmed_append
  obtain ⟨within, offender⟩ := Failure.within failed
  have inside : failure.fault.position.Within source.content.toList :=
    whole ▸ within.append tail
  obtain ⟨line, shown, plain, stop⟩ := inside.exists_line
  have lines := newline_not_mem_reportLines name failure.hasNoControls_message.newline plain
  refine ⟨line, shown, lines, Position.idxOf?_caret _, inside.col, stop, fun other => ?_⟩
  obtain ⟨front, c, cs, rest, same, visible, place, offends⟩ := offender other
  have further : source.content.toList = front ++ c :: (cs ++ (rest ++ tail)) := by
    rw [whole, same]
    simp
  refine ⟨front, c, cs, rest, same, offends, place, ?_⟩
  rw [place] at shown ⊢
  exact Source.shows further visible shown

theorem render_error {source : Source} {emit : Emit} {format : Format} {text : String}
    (failed : (render source emit format).outcome = .error text) :
    ∃ failure, parseSource source = .error failure ∧
      text = report .plain source failure.fault := by
  unfold render at failed
  cases scanned : tokenize source with
  | error e =>
    rw [scanned] at failed
    exact ⟨.lexical e, parseSource_of_error scanned, (Except.error.inj failed).symm⟩
  | ok ts =>
    rw [scanned] at failed
    cases emit with
    | tokens => cases failed
    | ast =>
      cases parsed : parse ts with
      | ok p => simp [parsed] at failed
      | error e =>
        refine ⟨.grammatical e, by rw [parseSource_of_ok scanned, parsed]; rfl, ?_⟩
        simp only [parsed] at failed
        exact (Except.error.inj failed).symm

/-- A failed rendering is a report of five lines. It shows the line of the failure with a caret
under the start of what offends. -/
theorem render_error_pointed {source : Source} {emit : Emit} {format : Format} {text : String}
    (name : '\n' ∉ source.name.toList)
    (failed : (render source emit format).outcome = .error text) :
    ∃ failure line, parseSource source = .error failure ∧
      text = String.join ((reportLines source failure.fault line).map (· ++ "\n")) ∧
      failure.Pointed source line := by
  obtain ⟨failure, stopped, rfl⟩ := render_error failed
  obtain ⟨line, pointed⟩ := Failure.pointed name stopped
  exact ⟨failure, line, stopped, report_plain pointed.shown, pointed⟩

/-- The shown line omits the carriage return before the last line break. -/
theorem render_error_pointed_binding :
    let source : Source := ⟨"a", "let =\r\n"⟩
    let text :=
      "error: expected symbol, got assign \x60=\x60\n --> a:1:5\n  |\n1 | let =\n  |     ^\n"
    '\n' ∉ source.name.toList ∧ (render source .ast .tree).outcome = .error text ∧
      ∃ failure line, parseSource source = .error failure ∧
        text = String.join ((reportLines source failure.fault line).map (· ++ "\n")) ∧
        failure.Pointed source line := by
  intro source text
  have start : Scanner.ofSource source = ⟨['l', 'e', 't', ' ', '='], 0, ⟨1, 1⟩⟩ := by cbv
  let ts : List Token := [⟨.letWord, .text "let", 1, 1, 3⟩, ⟨.assign, .text "=", 1, 5, 1⟩]
  have scanned : (Scanner.ofSource source).Reads ts := by
    rw [start]
    refine .cons .none rfl rfl (by decide) rfl ?_
    exact .cons (.space .none) rfl rfl (by decide) rfl (.finish .none)
  have ok := Scanner.tokens_eq_ok_iff.mpr scanned
  let e : ParseError := ⟨.kind .symbol, ⟨.assign, .text "=", 1, 5, 1⟩⟩
  have parsed : parse ts = .error e := rfl
  have shown : report .plain source e.fault = text := by decide +kernel
  have failed : (render source .ast .tree).outcome = .error text := by
    unfold render tokenize
    simp only [ok, parsed, shown]
  have name : '\n' ∉ source.name.toList := by simp [source]
  exact ⟨name, failed, render_error_pointed name failed⟩

end BracketScript
