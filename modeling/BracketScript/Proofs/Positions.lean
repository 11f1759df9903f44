import BracketScript.Proofs.Layout
import BracketScript.Reader
import Mathlib.Data.List.Chain
import Mathlib.Data.List.DropRight

/-! Positions are exact: every token and the error are at the end of the text before them. The
scanner counts bytes, lines and columns as it goes; the specification reads them off the text
passed. -/
namespace BracketScript

namespace Position

/-- The position after a text: its line breaks, and the characters of its last line. -/
def behind (text : List Char) : Position :=
  ⟨1 + text.count '\n', 1 + (text.rtakeWhile (· != '\n')).length⟩

theorem behind_concat (text : List Char) (c : Char) :
    behind (text ++ [c]) = (behind text).after c := by
  by_cases newline : c = '\n'
  · simp [behind, after, newline, Nat.add_assoc]
  · simp [behind, after, newline, Nat.add_assoc]

theorem foldl_after (before text : List Char) :
    text.foldl after (behind before) = behind (before ++ text) := by
  induction text generalizing before with
  | nil => rw [List.foldl_nil, List.append_nil]
  | cons c text ih =>
    rw [List.foldl_cons, ← behind_concat, ih, List.append_assoc, List.singleton_append]

/-- On one line only the column advances. -/
theorem behind_line (before : List Char) {text : List Char} (line : '\n' ∉ text) :
    behind (before ++ text) = ⟨(behind before).line, (behind before).col + text.length⟩ := by
  induction text generalizing before with
  | nil => rw [List.append_nil, List.length_nil, Nat.add_zero]
  | cons c text ih =>
    rw [List.mem_cons, not_or] at line
    rw [List.append_cons, ih _ line.2, behind_concat, after, if_neg (Ne.symm line.1)]
    simp only [List.length_cons, mk.injEq, true_and]
    omega

theorem before_iff {p q : Position} :
    p.before q = true ↔ p.line < q.line ∨ p.line = q.line ∧ p.col < q.col := by
  simp [before]

theorem atMost_iff {p q : Position} :
    p.atMost q = true ↔ p.line < q.line ∨ p.line = q.line ∧ p.col ≤ q.col := by
  simp [atMost]

theorem before_after (p : Position) (c : Char) : p.before (p.after c) = true := by
  rw [before_iff, after]
  split
  · exact .inl (Nat.lt_succ_self _)
  · exact .inr ⟨rfl, Nat.lt_succ_self _⟩

theorem atMost_append (before text : List Char) :
    (behind before).atMost (behind (before ++ text)) = true := by
  induction text generalizing before with
  | nil => simp [atMost]
  | cons c text ih =>
    have first := before_iff.mp (before_after (behind before) c)
    have others := atMost_iff.mp (ih (before ++ [c]))
    rw [List.append_cons, atMost_iff]
    rw [behind_concat] at others
    omega

theorem before_append (before : List Char) {text : List Char} (nonempty : text ≠ []) :
    (behind before).before (behind (before ++ text)) = true := by
  cases text with
  | nil => contradiction
  | cons c text =>
    have first := before_iff.mp (before_after (behind before) c)
    have others := atMost_iff.mp (atMost_append (before ++ [c]) text)
    rw [List.append_cons, before_iff]
    rw [behind_concat] at others
    omega

/-- The position of a place determines the place. -/
theorem behind_unique {front front' back back' : List Char}
    (same : front ++ back = front' ++ back')
    (place : behind front = behind front') : front = front' := by
  have distinct {before text : List Char} (place : behind before = behind (before ++ text)) :
      text = [] := by
    by_contra nonempty
    have ahead := before_append before nonempty
    rw [← place, before_iff] at ahead
    omega
  rcases List.append_eq_append_iff.mp same with ⟨between, rfl, _⟩ | ⟨between, rfl, _⟩
  · rw [distinct place, List.append_nil]
  · rw [distinct place.symm, List.append_nil]

theorem behind_le (text : List Char) :
    (behind text).line ≤ text.length + 1 ∧ (behind text).col ≤ text.length + 1 := by
  have breaks := List.count_le_length (a := '\n') (l := text)
  have columns := (List.rtakeWhile_suffix (· != '\n') text).length_le
  simp only [behind]
  omega

end Position

/-- The text after `before` is gaps and lexemes in turn, each token with the position and the width
of its lexeme, up to the end or to the character of the error. -/
inductive Placed : List Char → List Char → List Token → Option LexError → Prop where
  | finish {before gap : List Char} : Gap gap [] → Placed before gap [] none
  | error {before gap rest : List Char} {c : Char} : Gap gap (c :: rest) →
      Placed before (gap ++ c :: rest) []
        (some ⟨byteLength (before ++ gap), .behind (before ++ gap), c⟩)
  | token {before gap lexeme rest : List Char} {t : Token} {ts : List Token}
      {e : Option LexError} : Gap gap (lexeme ++ rest) → lexeme ≠ [] →
      Spelling t.kind t.payload lexeme → t.position = .behind (before ++ gap) →
      t.width = lexeme.length → Placed (before ++ (gap ++ lexeme)) rest ts e →
      Placed before (gap ++ (lexeme ++ rest)) (t :: ts) e

namespace Scanner

/-- The tokens up to the end or the first error, and that error. -/
def scan (s : Scanner) : List Token × Option LexError :=
  match _found : s.next with
  | (none, _) => ([], none)
  | (some (.error e), _) => ([], some e)
  | (some (.ok t), behind) => (t :: behind.scan.1, behind.scan.2)
termination_by s.rest.length
decreasing_by all_goals exact next_rest_length _found

variable {s behind : Scanner}

theorem scan_of_next_none (found : s.next = (none, behind)) : s.scan = ([], none) := by
  rw [scan]
  split <;> simp_all

theorem scan_of_next_error {e : LexError} (found : s.next = (some (.error e), behind)) :
    s.scan = ([], some e) := by
  rw [scan]
  split <;> simp_all

theorem scan_of_next_ok {t : Token} (found : s.next = (some (.ok t), behind)) :
    s.scan = (t :: behind.scan.1, behind.scan.2) := by
  rw [scan]
  split <;> simp_all

theorem tokens_eq_scan (s : Scanner) :
    s.tokens = match s.scan.2 with
      | none => .ok s.scan.1
      | some e => .error e := by
  obtain ⟨_, _, _, _, _, ⟨_, next⟩ | ⟨m, t, _, _, next⟩ | ⟨c, _, _, _, next⟩⟩ := s.next_cases
  · rw [tokens_of_next_none next, scan_of_next_none next]
  · have shorter := next_rest_length next
    rw [tokens_of_next_ok next, scan_of_next_ok next, tokens_eq_scan]
    cases (s.pass _ _).scan.2 <;> rfl
  · rw [tokens_of_next_error next, scan_of_next_error next]
termination_by s.rest.length

structure Behind (s : Scanner) (before : List Char) : Prop where
  offset : s.offset = byteLength before
  position : s.position = .behind before

theorem Behind.pass {before : List Char} (stands : s.Behind before) (text rest : List Char) :
    (s.pass text rest).Behind (before ++ text) := by
  constructor
  · simp only [Scanner.pass, stands.offset, byteLength_append]
  · simp only [Scanner.pass, stands.position, Position.foldl_after]

theorem Behind.placed {s : Scanner} {before : List Char} (stands : s.Behind before) :
    Placed before s.rest s.scan.1 s.scan.2 := by
  obtain ⟨gap, rest, same, gapped, lexical, ⟨rfl, next⟩ | ⟨m, t, found, read, next⟩ |
    ⟨c, cs, rfl, _, next⟩⟩ := s.next_cases
  · rw [same, scan_of_next_none next, List.append_nil]
    exact .finish gapped
  · have shorter := next_rest_length next
    have further := (stands.pass (gap ++ m.lexeme) m.rest).placed
    have here := stands.pass gap rest
    obtain ⟨payload, isPayload, rfl⟩ := Option.map_eq_some_iff.mp read
    obtain ⟨rfl, nonempty⟩ := firstMatch?_append found
    have spelled := firstMatch?_spelling found (lexical.comment m found) isPayload
    rw [same, scan_of_next_ok next]
    exact .token gapped nonempty spelled here.position rfl further
  · have here := stands.pass gap (c :: cs)
    rw [same, scan_of_next_error next, error, here.offset, here.position]
    exact .error gapped
termination_by s.rest.length

end Scanner

/-- A lexeme is a single line break or holds none. -/
theorem Spelling.line {kind : Kind} {payload : Payload} {lexeme : List Char}
    (spelled : Spelling kind payload lexeme) : '\n' ∉ lexeme ∨ lexeme = ['\n'] := by
  cases spelled with
  | @fixed _ text member =>
    have key : ∀ kind ∈ Kind.all, ∀ text ∈ kind.spellings,
        '\n' ∉ text.toList ∨ text.toList = ['\n'] := by decide
    exact key kind kind.mem_all text member
  | name _ letters =>
    left
    intro member
    rcases letters _ member with letter | same
    · exact absurd letter (by decide)
    · exact absurd same (by decide)
  | quoted marks line =>
    left
    rcases marks with rfl | rfl <;> simpa using line
  | whole _ digits =>
    left
    intro member
    exact absurd (digits _ member) (by decide)
  | places _ whole places =>
    left
    intro member
    rcases List.mem_append.mp member with member | member
    · exact absurd (whole _ member) (by decide)
    · rcases List.mem_cons.mp member with same | member
      · exact absurd same (by decide)
      · exact absurd (places _ member) (by decide)

/-- The token starts before the other one, and ends no later than that starts. -/
def Token.Precedes (a b : Token) : Prop :=
  a.ending.atMost b.position = true ∧ a.position.before b.position = true

/-- A token ends where its lexeme does, or earlier for a line break. -/
theorem Token.ending_atMost {t : Token} {before lexeme : List Char}
    (stands : t.position = .behind before) (spelled : Spelling t.kind t.payload lexeme)
    (width : t.width = lexeme.length) :
    t.ending.atMost (.behind (before ++ lexeme)) = true := by
  have line : t.line = (Position.behind before).line := congrArg Position.line stands
  have col : t.col = (Position.behind before).col := congrArg Position.col stands
  rw [Position.atMost_iff, Token.ending]
  rcases spelled.line with inside | rfl
  · rw [Position.behind_line before inside]
    exact .inr ⟨line, by rw [col, width]⟩
  · rw [Position.behind_concat, Position.after, if_pos rfl]
    left
    simp only
    omega

theorem Token.sentinel_within {ts : List Token} {bound : Nat} (positive : 1 ≤ bound)
    (inside : ∀ t ∈ ts, t.line ≤ bound ∧ t.col + t.width ≤ bound) :
    (sentinel ts).line ≤ bound ∧ (sentinel ts).col + (sentinel ts).width ≤ bound := by
  cases last : ts.getLast? with
  | none => simp [sentinel, last, positive]
  | some t => simpa [sentinel, last, ending] using inside t (List.mem_of_getLast? last)

namespace Placed

variable {before text : List Char} {ts : List Token} {e : Option LexError}

theorem head_position (placed : Placed before text ts e) :
    ∀ t ∈ ts.head?, ∃ gap, t.position = .behind (before ++ gap) := by
  cases placed with
  | finish | error => simp
  | token _ _ _ stands _ _ =>
    rintro t ⟨⟩
    exact ⟨_, stands⟩

theorem isChain (placed : Placed before text ts e) : ts.IsChain Token.Precedes := by
  induction placed with
  | finish | error => exact .nil
  | @token before gap lexeme rest t ts e _ nonempty spelled stands width further ih =>
    refine List.isChain_cons.mpr ⟨fun b first => ?_, ih⟩
    obtain ⟨gap', place⟩ := further.head_position b first
    have ends := Position.atMost_iff.mp (Token.ending_atMost stands spelled width)
    have on := Position.atMost_iff.mp
      (Position.atMost_append (before ++ (gap ++ lexeme)) gap')
    have strict := Position.before_append (before ++ gap)
      (show lexeme ++ gap' ≠ [] by simp [nonempty])
    rw [← List.append_assoc] at on
    constructor
    · rw [place, Position.atMost_iff, ← List.append_assoc before]
      omega
    · rw [place, stands]
      simpa using strict

/-- All positions of a placed scan are within bounds. -/
theorem within (placed : Placed before text ts e) :
    (∀ t ∈ ts, t.line ≤ (before ++ text).length + 1 ∧
      t.col + t.width ≤ (before ++ text).length + 1) ∧
    ∀ error ∈ e, error.position.line ≤ (before ++ text).length + 1 ∧
      error.position.col ≤ (before ++ text).length + 1 := by
  induction placed with
  | finish => simp
  | @error before gap rest c _ =>
    have here := Position.behind_le (before ++ gap)
    simp only [List.length_append, List.length_cons] at here ⊢
    refine ⟨by simp, ?_⟩
    rintro error ⟨⟩
    constructor
    · simp only
      omega
    · simp only
      omega
  | @token before gap lexeme rest t ts e _ _ _ stands width _ ih =>
    have here := Position.behind_le (before ++ gap)
    have line : t.line = (Position.behind (before ++ gap)).line := congrArg Position.line stands
    have col : t.col = (Position.behind (before ++ gap)).col := congrArg Position.col stands
    have whole : (before ++ (gap ++ lexeme) ++ rest).length =
        (before ++ (gap ++ (lexeme ++ rest))).length := by simp
    rw [whole] at ih
    refine ⟨List.forall_mem_cons.mpr ⟨?_, ih.1⟩, ih.2⟩
    simp only [List.length_append] at here ⊢
    omega

end Placed

theorem utf8ByteSize_ofList (cs : List Char) : (String.ofList cs).utf8ByteSize = byteLength cs := by
  induction cs with
  | nil => rfl
  | cons c cs ih =>
    rw [← List.singleton_append, String.ofList_append, String.utf8ByteSize_append, ih,
      ← String.singleton_eq_ofList, String.utf8ByteSize_singleton]
    rfl

theorem length_le_byteLength (cs : List Char) : cs.length ≤ byteLength cs := by
  induction cs with
  | nil => exact Nat.le_refl _
  | cons c cs ih =>
    have wide := c.utf8Size_pos
    simp only [List.length_cons, byteLength]
    omega

theorem length_dropFinalBreak_le (cs : List Char) :
    (dropFinalBreak cs).length ≤ cs.length := by
  fun_induction dropFinalBreak cs with
  | case1 | case2 | case3 => simp
  | case4 c cs _ _ ih => simpa using ih

theorem Source.length_trimmed_le (source : Source) :
    source.trimmed.toList.length ≤ source.content.utf8ByteSize := by
  have bytes : source.content.utf8ByteSize = byteLength source.content.toList := by
    rw [← utf8ByteSize_ofList, String.ofList_toList]
  rw [trimmed, String.toList_ofList, bytes]
  exact (length_dropFinalBreak_le _).trans (length_le_byteLength _)

theorem Source.placed (source : Source) :
    Placed [] source.trimmed.toList (Scanner.ofSource source).scan.1
      (Scanner.ofSource source).scan.2 := by
  have start : (Scanner.ofSource source).Behind [] := ⟨rfl, rfl⟩
  exact start.placed

theorem scan_of_tokenize {source : Source} {ts : List Token} (scanned : tokenize source = .ok ts) :
    (Scanner.ofSource source).scan = (ts, none) := by
  rw [tokenize, Scanner.tokens_eq_scan] at scanned
  cases ended : (Scanner.ofSource source).scan with
  | mk us e =>
    rw [ended] at scanned
    cases e <;> cases scanned
    rfl

theorem scan_of_tokenize_error {source : Source} {e : LexError}
    (failed : tokenize source = .error e) : (Scanner.ofSource source).scan.2 = some e := by
  rw [tokenize, Scanner.tokens_eq_scan] at failed
  cases ended : (Scanner.ofSource source).scan.2 with
  | none => simp [ended] at failed
  | some e' => simpa [ended] using failed

theorem placed_of_tokenize {source : Source} {ts : List Token}
    (scanned : tokenize source = .ok ts) : Placed [] source.trimmed.toList ts none := by
  have placed := source.placed
  rwa [scan_of_tokenize scanned] at placed

/-- Every token and the error of a scan carry the position of their place, tokens do not overlap,
and the sentinel follows the last of them. Lines and columns are bounded by the length of the
source. -/
theorem scan_positions (source : Source) :
    let ts := (Scanner.ofSource source).scan.1
    let e := (Scanner.ofSource source).scan.2
    let bound := source.content.utf8ByteSize + 2
    (tokenize source = match e with
      | none => .ok ts
      | some e => .error e) ∧
    Placed [] source.trimmed.toList ts e ∧ ts.IsChain Token.Precedes ∧
    (Reader.ofTokens ts).sentinel.position = (ts.getLast?.map Token.ending).getD ⟨1, 1⟩ ∧
    (∀ t ∈ .sentinel ts :: ts, t.line ≤ bound ∧ t.col + t.width ≤ bound) ∧
    ∀ error ∈ e, error.position.line ≤ bound ∧ error.position.col ≤ bound := by
  intro ts e bound
  have start : (Scanner.ofSource source).Behind [] := ⟨rfl, rfl⟩
  have placed : Placed [] source.trimmed.toList ts e := start.placed
  have length := source.length_trimmed_le
  obtain ⟨tokens, errors⟩ := placed.within
  rw [List.nil_append] at tokens errors
  have inside : ∀ t ∈ ts, t.line ≤ bound ∧ t.col + t.width ≤ bound := by
    intro t member
    have here := tokens t member
    omega
  refine ⟨Scanner.tokens_eq_scan _, placed, placed.isChain, rfl, ?_, ?_⟩
  · exact List.forall_mem_cons.mpr ⟨Token.sentinel_within (by omega) inside, inside⟩
  · intro error member
    have here := errors error member
    omega

end BracketScript
