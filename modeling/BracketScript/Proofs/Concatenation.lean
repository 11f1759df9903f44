import BracketScript.Proofs.Exactness
import BracketScript.Proofs.Positions
import BracketScript.Proofs.Relabelling
import BracketScript.Proofs.Seam

/-! Joining a program and a text by a line break joins their statements: the second part is read as
by itself, with its lines raised. -/
namespace BracketScript
open Token (vocabulary)

/-! Lowering tokens changes their lines, and lowering scan errors their offsets as well. -/

def Position.lower (lines : Nat) (p : Position) : Position := ⟨p.line + lines, p.col⟩

def Token.lower (lines : Nat) (t : Token) : Token := { t with line := t.line + lines }

def LexError.lower (lines bytes : Nat) (e : LexError) : LexError :=
  ⟨e.offset + bytes, e.position.lower lines, e.found⟩

def ParseError.lower (lines : Nat) (e : ParseError) : ParseError :=
  ⟨e.expected, e.found.lower lines⟩

def Failure.lower (lines bytes : Nat) : Failure → Failure
  | lexical e => .lexical (e.lower lines bytes)
  | grammatical e => .grammatical (e.lower lines)

def Program.lower (lines : Nat) (p : Program) : Program :=
  ⟨p.statements.map (Node.map id (Token.lower lines))⟩

namespace Scanner

def lower (lines bytes : Nat) (s : Scanner) : Scanner :=
  ⟨s.rest, s.offset + bytes, s.position.lower lines⟩

variable (lines bytes : Nat)

theorem lower_pass (s : Scanner) (cs rest : List Char) :
    (s.lower lines bytes).pass cs rest = (s.pass cs rest).lower lines bytes := by
  have position (p : Position) :
      cs.foldl Position.after (p.lower lines) = (cs.foldl Position.after p).lower lines := by
    induction cs generalizing p with
    | nil => rfl
    | cons c cs ih =>
      have step : (p.lower lines).after c = (p.after c).lower lines := by
        unfold Position.after
        split
        · simp [Position.lower, Nat.add_right_comm]
        · rfl
      rw [List.foldl_cons, List.foldl_cons, step, ih]
  simp [pass, lower, position, Nat.add_right_comm]

theorem lower_token? (s : Scanner) (m : Match) :
    (s.lower lines bytes).token? m = (s.token? m).map (Token.lower lines) := by
  simp only [token?, Option.map_map]
  rfl

/-- Scanning commutes with moving the scanner down by lines and bytes. -/
theorem tokens_lower (s : Scanner) :
    (s.lower lines bytes).tokens =
      (s.tokens.mapError (LexError.lower lines bytes)).map (List.map (Token.lower lines)) := by
  obtain ⟨gap, rest, same, stands, lexical, found⟩ := s.next_cases
  have lowered := next_eq_pass stands (s.lower lines bytes) same
  rw [lower_pass] at lowered
  rcases found with ⟨rfl, next⟩ | ⟨m, t, found, read, next⟩ | ⟨c, cs, rfl, unread, next⟩
  · have ended : ((s.pass gap []).lower lines bytes).next = _ := next_end rfl
    rw [tokens_of_next_none next, tokens_of_next_none (lowered.trans ended)]
    rfl
  · have read' := congrArg (Option.map (Token.lower lines)) read
    rw [← lower_token? lines bytes] at read'
    have taken : ((s.pass gap rest).lower lines bytes).next = _ := next_token lexical found read'
    have shorter := next_rest_length next
    rw [tokens_of_next_ok next, tokens_of_next_ok (lowered.trans taken), lower_pass, pass_pass,
      tokens_lower]
    cases (s.pass (gap ++ m.lexeme) m.rest).tokens <;> rfl
  · have stuck : ((s.pass gap (c :: cs)).lower lines bytes).next = _ :=
      next_error lexical rfl fun m found => by rw [lower_token?, unread m found]; rfl
    rw [tokens_of_next_error next, tokens_of_next_error (lowered.trans stuck)]
    rfl
termination_by s.rest.length

end Scanner

/-! The final break of a joined text. -/

theorem dropFinalBreak_cons {c : Char} {cs : List Char} (nonempty : cs ≠ [])
    (other : ¬ (c = '\r' ∧ cs = ['\n'])) : dropFinalBreak (c :: cs) = c :: dropFinalBreak cs := by
  rw [dropFinalBreak]
  · simpa using fun _ => nonempty
  · simpa using other

theorem dropFinalBreak_cases (cs : List Char) :
    cs = dropFinalBreak cs ∨ cs = dropFinalBreak cs ++ ['\n'] ∨
      cs = dropFinalBreak cs ++ ['\r', '\n'] := by
  fun_induction dropFinalBreak cs with
  | case1 => exact .inl rfl
  | case2 => exact .inr (.inl rfl)
  | case3 => exact .inr (.inr rfl)
  | case4 c cs _ _ ih => simpa using ih

theorem dropFinalBreak_append {cs : List Char} (nonempty : dropFinalBreak cs ≠ [])
    (front : List Char) :
    dropFinalBreak (front ++ cs) = front ++ dropFinalBreak cs := by
  have longer : cs ≠ [] ∧ cs ≠ ['\n'] := by
    constructor
    all_goals
      rintro rfl
      exact nonempty rfl
  induction front with
  | nil => rfl
  | cons c front ih =>
    have other : ¬ (c = '\r' ∧ front ++ cs = ['\n']) := by
      rintro ⟨_, same⟩
      cases front with
      | nil => exact longer.2 same
      | cons d front => exact longer.1 (List.append_eq_nil_iff.mp (List.cons.inj same).2).2
    rw [List.cons_append, dropFinalBreak_cons (by simp [longer.1]) other, ih, List.cons_append]

/-- The final break does not depend on the text before it. -/
theorem dropFinalBreak_of_append {front cs kept : List Char}
    (dropped : dropFinalBreak (front ++ cs) = front ++ kept) : dropFinalBreak cs = kept := by
  induction front with
  | nil => exact dropped
  | cons c front ih =>
    rw [List.cons_append] at dropped
    unfold dropFinalBreak at dropped
    split at dropped
    · cases dropped
    · cases dropped
    · cases dropped
    · next same =>
      cases same
      exact ih (List.cons.inj dropped).2

theorem dropFinalBreak_joined (a : List Char) {b : List Char} (nonempty : b ≠ []) :
    dropFinalBreak (a ++ '\n' :: b) = a ++ '\n' :: dropFinalBreak b := by
  have behind : dropFinalBreak ('\n' :: b) = '\n' :: dropFinalBreak b :=
    dropFinalBreak_cons nonempty (by simp)
  rw [dropFinalBreak_append (by simp [behind]), behind]

theorem dropFinalBreak_newline (a : List Char) :
    dropFinalBreak (a ++ ['\n']) = if a.getLast? = some '\r' then a.dropLast else a := by
  induction a with
  | nil => rfl
  | cons c a ih =>
    cases a with
    | nil =>
      by_cases carriage : c = '\r'
      · subst carriage; rfl
      · rw [List.cons_append, List.nil_append, dropFinalBreak_cons (by simp) (by simp [carriage])]
        simp [dropFinalBreak, carriage]
    | cons d a =>
      rw [List.cons_append, dropFinalBreak_cons (by simp) (by simp), ih]
      simp only [List.getLast?_cons_cons, List.dropLast_cons_cons]
      split <;> rfl

namespace Scanner

def start (text : List Char) : Scanner := ⟨text, 0, ⟨1, 1⟩⟩

theorem tokens_newline {s : Scanner} {more : List Char} (newline : s.rest = '\n' :: more) :
    ∃ t, t.kind = .newline ∧ s.tokens = (s.pass ['\n'] more).tokens.map (t :: ·) := by
  have found : firstMatch? s.rest = some ⟨.newline, ['\n'], more⟩ := by rw [newline]; rfl
  have lexical : Lexical s.rest := .of_match found (show Kind.newline ≠ .comment by decide)
  exact ⟨_, rfl, tokens_of_next_ok (next_token lexical found rfl)⟩

/-- After a text and a line break the scanner is a fresh one, lowered by the lines and bytes
passed. -/
theorem pass_start (text more : List Char) :
    (start text).pass (text ++ ['\n']) more =
      (start more).lower (1 + text.count '\n') (byteLength text + 1) := by
  have line : (text.foldl Position.after ⟨1, 1⟩).line = 1 + text.count '\n' :=
    congrArg Position.line (Position.foldl_after [] text)
  simp only [pass, start, lower, Position.lower, List.foldl_append, List.foldl_cons, List.foldl_nil,
    Position.after, if_true, byteLength_append, Nat.zero_add, line]
  rw [Nat.add_comm 1 (1 + _), Nat.add_comm 1 (List.count _ _)]
  rfl

variable {a b : List Char} {ts : List Token}

/-- Scanning two texts joined by a line break gives the tokens of the first, newlines, and the
lowered tokens or error of the second. -/
theorem tokens_joined (reads : (start (dropFinalBreak a)).Reads ts)
    (inside : ts.IsChain fun d m => ¬ d.OpensComment m) (ending : ¬ ['\r', '\n'] <:+ a) :
    ∃ break_ breaks, (∀ t ∈ break_ :: breaks, t.kind = .newline) ∧
      (start (a ++ '\n' :: b)).tokens =
        ((start b).lower (1 + a.count '\n') (byteLength a + 1)).tokens.map
          fun us => ts ++ break_ :: (breaks ++ us) := by
  rcases dropFinalBreak_cases a with same | same | same
  · rw [← same] at reads
    have first := reads.tokens_newline inside b
    obtain ⟨t, newline, next⟩ := tokens_newline (s := (start a).pass a ('\n' :: b)) rfl
    refine ⟨t, [], by simpa using newline, ?_⟩
    rw [pass_pass, pass_start] at next
    rw [show start (a ++ '\n' :: b) = (start a).append ('\n' :: b) from rfl, first,
      show (start a).rest = a from rfl, next]
    cases ((start b).lower _ _).tokens <;> rfl
  · generalize dropFinalBreak a = text at *
    subst same
    have first := reads.tokens_newline inside ('\n' :: b)
    obtain ⟨t, newline, next⟩ :=
      tokens_newline (s := (start text).pass text ('\n' :: '\n' :: b)) rfl
    obtain ⟨t', newline', next'⟩ :=
      tokens_newline (s := (start text).pass (text ++ ['\n']) ('\n' :: b)) rfl
    refine ⟨t, [t'], by simp [newline, newline'], ?_⟩
    rw [pass_pass] at next next'
    have place := pass_start (text ++ ['\n']) b
    rw [show (start (text ++ ['\n'])).pass = (start text).pass from rfl] at place
    rw [show start (text ++ ['\n'] ++ '\n' :: b) = (start text).append ('\n' :: '\n' :: b) by
      simp [start, append], first, show (start text).rest = text from rfl, next, next', place]
    cases ((start b).lower _ _).tokens <;> rfl
  · exact absurd ⟨_, same.symm⟩ ending

/-- A line break at the end adds newlines at most. -/
theorem tokens_ended (reads : (start (dropFinalBreak a)).Reads ts)
    (inside : ts.IsChain fun d m => ¬ d.OpensComment m) (ending : ¬ ['\r', '\n'] <:+ a) :
    ∃ breaks, (∀ t ∈ breaks, t.kind = .newline) ∧
      (start (dropFinalBreak (a ++ ['\n']))).tokens = .ok (ts ++ breaks) := by
  rw [dropFinalBreak_newline]
  rcases dropFinalBreak_cases a with same | same | same
  · rw [← same] at reads
    refine ⟨[], by simp, ?_⟩
    rw [List.append_nil, tokens_eq_ok_iff]
    split
    · next carriage => exact reads.dropLast carriage
    · exact reads
  · generalize dropFinalBreak a = text at *
    subst same
    have first := reads.tokens_newline inside []
    obtain ⟨t, newline, next⟩ := tokens_newline (s := (start text).pass text ['\n']) rfl
    refine ⟨[t], by simpa using newline, ?_⟩
    rw [if_neg (by simp), show start (text ++ ['\n']) = (start text).append ['\n'] from rfl, first,
      show (start text).rest = text from rfl, next, tokens_of_next_none (next_end rfl)]
    rfl
  · exact absurd ⟨_, same.symm⟩ ending

end Scanner

/-! After a program and newlines the parser is in its initial state, apart from the statements it
has collected. -/

section Parse

variable {ts us breaks : List Token} {ns : List Tree}

theorem Config.run_breaks (newlines : ∀ t ∈ breaks, t.kind = .newline) :
    Config.run vocabulary ⟨.statement, [.program ns]⟩ (breaks ++ us) =
      Config.run vocabulary ⟨.statement, [.program ns]⟩ us := by
  induction breaks with
  | nil => rfl
  | cons t breaks ih =>
    obtain ⟨newline, newlines⟩ := List.forall_mem_cons.mp newlines
    have ends : (vocabulary.ahead (t :: (breaks ++ us))).Delimits := Token.delimits (.inl newline)
    rw [List.cons_append, Config.run_noStatement ends,
      Frame.arrive_separator (.inl rfl) (by simp [newline, Kind.isSeparator]),
      Option.toList_none, List.append_nil, ih newlines]

theorem Derives.run_broken {t : Token} (derived : Derives (.statements ns) ts)
    (newline : t.kind = .newline) (us : List Token) :
    Config.program.run vocabulary (ts ++ t :: us) =
      Config.run vocabulary ⟨.statement, [.program ns]⟩ us := by
  have ends : (vocabulary.ahead (t :: us)).Delimits := Token.delimits (.inl newline)
  rw [Config.program, derived.isRead .program [] [] (t :: us) (.inl rfl) ends,
    Frame.arrive_separator (.inl rfl) (by simp [newline, Kind.isSeparator]),
    Option.toList_none, List.append_nil, List.nil_append]

/-- Tokens are lowered by some lines, behind given statements. -/
def Relabelling.lower (lines : Nat) (lead : List Tree) :
    Relabelling String String Token Token :=
  ⟨id, Token.lower lines, lead⟩

theorem Config.run_lower (lines : Nat) :
    Config.run vocabulary ⟨.statement, [.program ns]⟩ (us.map (Token.lower lines)) =
      ((Config.program.run vocabulary us).1.map
          fun ms => ns ++ ms.map (Node.map id (Token.lower lines)),
        (Config.program.run vocabulary us).2.map (Token.lower lines)) := by
  have preserves : (Relabelling.lower lines ns).Preserves vocabulary vocabulary :=
    ⟨fun _ => rfl, fun _ => rfl⟩
  have grounded : (Relabelling.lower lines ns).Grounded Config.program.frames := trivial
  simpa [Relabelling.config, Relabelling.lower, Relabelling.focus, Relabelling.frame,
    Relabelling.node, Config.program] using Relabelling.run preserves grounded us

theorem Token.sentinel_joined (ts : List Token) (lines : Nat) (nonempty : us ≠ []) :
    Token.sentinel (ts ++ us.map (Token.lower lines)) = (Token.sentinel us).lower lines := by
  obtain ⟨t, last⟩ := Option.isSome_iff_exists.mp (List.getLast?_isSome.mpr nonempty)
  simp [Token.sentinel, last, Token.ending, Token.lower]

/-- Parsing after a program and newlines is parsing afresh, with the outcome lowered. -/
theorem parse_joined {t : Token} {p : Program} (endless : Endless ts) (first : parse ts = .ok p)
    (newlines : ∀ t' ∈ t :: breaks, t'.kind = .newline) (us : List Token) (lines : Nat) :
    parse (ts ++ t :: (breaks ++ us.map (Token.lower lines))) =
      ((parse us).mapError (ParseError.lower lines)).map
        fun q => ⟨p.statements ++ (q.lower lines).statements⟩ := by
  have derived := derives_of_parse endless first
  obtain ⟨newline, newlines⟩ := List.forall_mem_cons.mp newlines
  have ran := derived.run_broken newline (breaks ++ us.map (Token.lower lines))
  rw [Config.run_breaks newlines, Config.run_lower] at ran
  cases parsed : parse us with
  | ok q =>
    refine parse_eq_ok_iff_run.mpr ?_
    rw [ran, parse_eq_ok_iff_run.mp parsed]
    rfl
  | error e =>
    obtain ⟨rest, failed, found⟩ := parse_eq_error_iff_run.mp parsed
    refine parse_eq_error_iff_run.mpr ⟨rest.map (Token.lower lines), ?_, ?_⟩
    · rw [ran, failed]
      rfl
    · have nonempty : us ≠ [] := by
        rintro rfl
        cases (show parse [] = .ok ⟨[]⟩ from rfl).symm.trans parsed
      have behind := Token.sentinel_joined (ts ++ t :: breaks) lines nonempty
      rw [List.append_assoc, List.cons_append] at behind
      rw [behind, ParseError.lower, found]
      cases rest <;> rfl

end Parse

section Source

variable {source : Source} {ts : List Token}

theorem tokenize_ofContent (content : String) :
    tokenize (.ofContent content) = (Scanner.start (dropFinalBreak content.toList)).tokens := by
  rw [tokenize, Scanner.ofSource, Source.trimmed, String.toList_ofList, Scanner.start]
  rfl

theorem Scanner.Reads.endless {s : Scanner} (reads : s.Reads ts) : Endless ts :=
  fun t member => (reads.layout.kind_ne t member).2

variable {a b : String} {p : Program}

theorem parseSource_broken (reads : (Scanner.start (dropFinalBreak a.toList)).Reads ts)
    (parsed : parse ts = .ok p) (ending : ¬ ['\r', '\n'] <:+ a.toList) (nonempty : b.toList ≠ []) :
    parseSource (.ofContent (a ++ "\n" ++ b)) =
      ((parseSource (.ofContent b)).mapError
        (Failure.lower (1 + a.toList.count '\n') (byteLength a.toList + 1))).map
          fun q => ⟨p.statements ++ (q.lower (1 + a.toList.count '\n')).statements⟩ := by
  have inside := (derives_of_parse reads.endless parsed).apart.inside
  obtain ⟨t, breaks, newlines, joined⟩ :=
    Scanner.tokens_joined (b := dropFinalBreak b.toList) reads inside ending
  have content : (a ++ "\n" ++ b).toList = a.toList ++ '\n' :: b.toList := by simp
  rw [← dropFinalBreak_joined _ nonempty, ← content, ← tokenize_ofContent,
    Scanner.tokens_lower] at joined
  cases scanned : tokenize (.ofContent b) with
  | error e =>
    rw [parseSource_of_error scanned]
    rw [tokenize_ofContent] at scanned
    rw [scanned] at joined
    exact parseSource_of_error joined
  | ok us =>
    rw [parseSource_of_ok scanned]
    rw [tokenize_ofContent] at scanned
    rw [scanned] at joined
    rw [parseSource_of_ok joined, parse_joined reads.endless parsed newlines]
    cases parse us <;> rfl

/-- A line break at the end does not change the program. -/
theorem parseSource_ended (reads : (Scanner.start (dropFinalBreak a.toList)).Reads ts)
    (parsed : parse ts = .ok p) (ending : ¬ ['\r', '\n'] <:+ a.toList) :
    parseSource (.ofContent (a ++ "\n")) = .ok p := by
  have inside := (derives_of_parse reads.endless parsed).apart.inside
  obtain ⟨breaks, newlines, ended⟩ := Scanner.tokens_ended reads inside ending
  have content : (a ++ "\n").toList = a.toList ++ ['\n'] := by simp
  rw [← content, ← tokenize_ofContent] at ended
  refine parseSource_eq_ok_iff.mpr ⟨_, ended, ?_⟩
  cases breaks with
  | nil => rwa [List.append_nil]
  | cons t breaks =>
    have read := parse_joined reads.endless parsed newlines [] 0
    simpa [show parse [] = .ok ⟨[]⟩ from rfl, Except.map, Program.lower] using read

end Source

/-- If `a` parses, then `a`, a line break and `b` parse to the statements of `a` followed by those
of `b` with all lines raised by the lines of `a`. If `b` fails, the joined source fails with the
same error at the raised line and byte offset. A carriage return at the end of `a` would join the
line break and is excluded. -/
theorem parseSource_joined {a b : String} {p : Program} (ending : ¬ ['\r', '\n'] <:+ a.toList)
    (first : parseSource (.ofContent a) = .ok p) :
    let lines := 1 + a.toList.count '\n'
    let joined := Source.ofContent (a ++ "\n" ++ b)
    (∀ q, parseSource (.ofContent b) = .ok q →
      parseSource joined = .ok ⟨p.statements ++ (q.lower lines).statements⟩) ∧
    ∀ e, parseSource (.ofContent b) = .error e →
      parseSource joined = .error (e.lower lines (a.utf8ByteSize + 1)) := by
  intro lines joined
  obtain ⟨ts, scanned, parsed⟩ := parseSource_eq_ok_iff.mp first
  rw [tokenize_ofContent] at scanned
  have reads := Scanner.tokens_eq_ok_iff.mp scanned
  have bytes : a.utf8ByteSize = byteLength a.toList := by
    rw [← utf8ByteSize_ofList, String.ofList_toList]
  by_cases empty : b = ""
  · subst empty
    have blank : parseSource (.ofContent "") = .ok ⟨[]⟩ :=
      parseSource_eq_ok_iff.mpr ⟨[], Scanner.tokens_of_next_none (Scanner.next_end rfl), rfl⟩
    have ended := parseSource_ended reads parsed ending
    constructor
    · intro q read
      cases blank.symm.trans read
      simpa [joined, Program.lower] using ended
    · intro e failed
      cases blank.symm.trans failed
  · have broken := parseSource_broken reads parsed ending (String.toList_eq_nil_iff.not.mpr empty)
    constructor
    · intro q read
      rw [broken, read]
      rfl
    · intro e failed
      rw [broken, failed, bytes]
      rfl

theorem parseSource_joined_symbols :
    let x : Token := ⟨.symbol, .text "x", 1, 1, 1⟩
    let y : Token := ⟨.symbol, .text "y", 2, 1, 1⟩
    parseSource (.ofContent "x") = .ok ⟨[.leaf x]⟩ ∧
      parseSource (.ofContent ("x" ++ "\n" ++ "y")) = .ok ⟨[.leaf x, .leaf y]⟩ ∧
      parseSource (.ofContent ("x" ++ "\n" ++ "#")) = .error (.lexical ⟨2, ⟨2, 1⟩, '#'⟩) := by
  intro x y
  have symbol (c : Char) (found : firstMatch? [c] = some ⟨.symbol, [c], []⟩) :
      (Scanner.start [c]).Reads [⟨.symbol, .text (String.ofList [c]), 1, 1, 1⟩] :=
    .cons .none rfl found (show Kind.symbol ≠ .comment by decide) rfl (.finish .none)
  have first : parseSource (.ofContent "x") = .ok ⟨[.leaf x]⟩ :=
    parseSource_eq_ok_iff.mpr ⟨_, Scanner.tokens_eq_ok_iff.mpr (symbol 'x' rfl), rfl⟩
  have second : parseSource (.ofContent "y") = .ok ⟨[.leaf { y with line := 1 }]⟩ :=
    parseSource_eq_ok_iff.mpr ⟨_, Scanner.tokens_eq_ok_iff.mpr (symbol 'y' rfl), rfl⟩
  have third : parseSource (.ofContent "#") = .error (.lexical ⟨0, ⟨1, 1⟩, '#'⟩) := by
    have unmatched : firstMatch? ['#'] = none := rfl
    have lexical : Lexical ['#'] := ⟨by simp, fun m found => by cases unmatched.symm.trans found⟩
    exact parseSource_of_error <| Scanner.tokens_of_next_error <|
      Scanner.next_error (s := Scanner.start ['#']) lexical rfl fun m found => by
        cases unmatched.symm.trans found
  have ending : ¬ ['\r', '\n'] <:+ "x".toList := by decide
  exact ⟨first, (parseSource_joined ending first).1 _ second,
    (parseSource_joined ending first).2 _ third⟩

end BracketScript
