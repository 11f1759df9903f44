import BracketScript.Proofs.Composition
import BracketScript.Proofs.Precedence
import BracketScript.Proofs.Reading
import BracketScript.Proofs.Respacing

/-! Expressions as statements. Where a statement starts, its first two tokens choose the production:
a bracket opens a block, an accessed symbol is read no further than the access, and the words of
jumps are no symbols. All other expressions are read as such, and only blocks and jumps have a
second reading. -/
namespace BracketScript

/-- The conditions under which an expression is read as a statement. -/
structure StandsAlone (ts : List Token) (n : Tree) : Prop where
  bracket : ∀ t ∈ ts.head?, t.kind ≠ .leftBracket
  access : ∀ t d us, ts = t :: d :: us → t.kind = .symbol →
    d.kind = .leftBracket ∨ d.kind = .period → ∃ of keys, n = .access of keys
  jump : ∀ t us j, ts = t :: us → t.Jumps j →
    ∃ d ∈ us.head?, d.kind = .leftBracket ∨ d.kind = .period

namespace Derives

variable {n m : Tree} {t d : Token} {us vs : List Token}

/-- No expression extends another one by tokens that cannot continue it. -/
theorem expression_ends (whole : Derives (.expression 1 n) (us ++ vs))
    (front : Derives (.expression 1 m) us) (ends : EndsOperations vs) : vs = [] ∧ m = n := by
  have nothing : EndsOperations [] := ⟨by simp, by simp⟩
  have first := Reader.expression_of_derives (.sentinel []) front ends
  have read := Reader.expression_of_derives (.sentinel []) whole nothing
  rw [List.append_nil, first] at read
  cases read
  exact ⟨rfl, rfl⟩

theorem expression_unique (first : Derives (.expression 1 m) us)
    (second : Derives (.expression 1 n) us) : m = n := by
  have whole : Derives (.expression 1 n) (us ++ []) := by rwa [List.append_nil]
  exact (whole.expression_ends first ⟨by simp, by simp⟩).2

theorem atom_expression (derived : Derives (.atom n) us) : Derives (.expression 1 n) us :=
  (Derives.operand (.bare derived)).loosen (by decide)

theorem assign_not_second (symbol : t.kind = .symbol)
    (derived : Derives (.expression 1 n) (t :: d :: us)) : d.kind ≠ .assign := by
  intro assign
  have front : Derives (.expression 1 (.leaf t)) [t] :=
    atom_expression (.accessless (.leaf (by rw [symbol]; rfl)))
  have ends : EndsOperations (d :: us) := by
    constructor
    · rintro _ ⟨⟩ tier op ⟨kind, _⟩
      rw [assign] at kind
      cases kind
    · rintro _ ⟨⟩
      rw [assign]
      decide
  have whole : Derives (.expression 1 n) ([t] ++ d :: us) := derived
  cases (whole.expression_ends front ends).1

/-- An expression derives no statement node, and an atom with an access derives an access. -/
theorem expression_node {phrase : Phrase} (derived : Derives phrase us) :
    match phrase with
    | .expression _ n | .unary n =>
      ¬ n.IsStatement ∧ ∀ of keys, n = .access of keys → Derives (.atom n) us
    | .banged n | .atom n | .primary n => ¬ n.IsStatement
    | _ => True := by
  induction derived with
  | tighter _ ih | operand _ ih | bangless _ ih | accessless _ ih => exact ih
  | bare atom ih => exact ⟨ih, fun _ _ _ => atom⟩
  | binary | front | bangs | back => exact ⟨id, by rintro _ _ ⟨⟩⟩
  | bang | member | index | leaf | emptyList | list | lambda => exact id
  | _ => trivial

/-- Further statements start with a separator or are empty. -/
theorem furtherStatements_separated {ns : List Tree}
    (derived : Derives (.furtherStatements ns) us) :
    ∀ s ∈ us.head?, s.kind.isSeparator = true := by
  cases derived with
  | noFurtherStatements => simp
  | furtherStatements separator _ _ =>
    rintro _ ⟨⟩
    exact separator

theorem first_statement (derived : Derives (.statements [n]) us)
    (starts : ∀ t ∈ us.head?, t.kind.isSeparator = false) :
    ∃ vs ws, us = vs ++ ws ∧ Derives (.statement n) vs ∧
      ∀ s ∈ ws.head?, s.kind.isSeparator = true := by
  generalize same : [n] = ns at derived
  cases derived with
  | @statements first others vs ws derived further =>
    cases derived with
    | noStatement =>
      cases further with
      | noFurtherStatements => cases same
      | furtherStatements separator _ _ =>
        rw [starts _ rfl] at separator
        cases separator
    | someStatement derived =>
      cases same
      exact ⟨vs, ws, rfl, derived, further.furtherStatements_separated⟩

/-- Necessity: an expression read as a statement meets the conditions of `StandsAlone`. -/
theorem standsAlone (derived : Derives (.statement n) us) (expression : ¬ n.IsStatement)
    (separated : ∀ s ∈ vs.head?, s.kind.isSeparator = true) : StandsAlone (us ++ vs) n := by
  cases derived with
  | @access t d n us symbol access derived =>
    refine ⟨?_, ?_, ?_⟩
    · rintro _ ⟨⟩ bracket
      cases symbol.symm.trans bracket
    · intro _ _ _ _ _ _
      obtain ⟨of, keys, rfl, _⟩ := derived.accessesSymbol symbol
      exact ⟨_, keys, rfl⟩
    · rintro _ _ j ⟨⟩ _
      exact ⟨d, rfl, access⟩
  | plain derived plainly =>
    obtain ⟨t, us, rfl, _⟩ := derived.starts
    obtain ⟨bracket, plainly⟩ := plainly
    refine ⟨?_, ?_, ?_⟩
    · rintro _ ⟨⟩
      exact bracket
    · rintro t' d ws same symbol access
      obtain ⟨rfl, behind⟩ := List.cons.inj same
      exfalso
      cases us with
      | nil =>
        obtain rfl : vs = d :: ws := behind
        have separator := separated d rfl
        rcases access with is | is <;> rw [is] at separator <;> cases separator
      | cons d' us =>
        obtain ⟨rfl, _⟩ := List.cons.inj behind
        obtain ⟨noBracket, noPeriod, _⟩ := (plainly symbol).2 d' rfl
        exact access.elim noBracket noPeriod
    · rintro _ _ j ⟨⟩ jumps
      exact absurd jumps ((plainly jumps.kind).1 j)
  | _ => exact absurd trivial expression

/-- Sufficiency: under the conditions of `StandsAlone` an expression is a statement. -/
theorem statement_of_standsAlone (derived : Derives (.expression 1 n) us)
    (alone : StandsAlone us n) : Derives (.statement n) us := by
  obtain ⟨t, us, rfl, _⟩ := derived.starts
  by_cases accessed : ∃ d ∈ us.head?, t.kind = .symbol ∧ (d.kind = .leftBracket ∨ d.kind = .period)
  · obtain ⟨d, second, symbol, access⟩ := accessed
    obtain ⟨us, rfl⟩ := List.head?_eq_some_iff.mp second
    obtain ⟨of, keys, rfl⟩ := alone.access t d us rfl symbol access
    exact .access symbol access (derived.expression_node.2 of keys rfl)
  · refine .plain derived
      ⟨alone.bracket t rfl, fun symbol => ⟨fun j jumps => ?_, fun d second => ?_⟩⟩
    · obtain ⟨d, second, access⟩ := alone.jump t us j rfl jumps
      exact accessed ⟨d, second, symbol, access⟩
    · refine ⟨fun is => accessed ⟨d, second, symbol, .inl is⟩,
        fun is => accessed ⟨d, second, symbol, .inr is⟩, ?_⟩
      obtain ⟨us, rfl⟩ := List.head?_eq_some_iff.mp second
      exact derived.assign_not_second symbol

/-- A statement over the tokens of an expression is that expression, a block or a jump. -/
theorem statement_of_expression (derived : Derives (.statement m) us)
    (expression : Derives (.expression 1 n) us) :
    m = n ∨ (∃ t ∈ us.head?, t.kind = .leftBracket ∧ ∃ body, m = .block body) ∨
      ∃ t j, us = [t] ∧ t.Jumps j ∧ m = .jump j := by
  have starts := expression.starts
  cases derived with
  | block derived =>
    cases derived with
    | body open_ _ _ => exact .inr (.inl ⟨_, rfl, open_, _, rfl⟩)
  | jump jumps => exact .inr (.inr ⟨_, _, rfl, jumps, rfl⟩)
  | access _ _ derived => exact .inl (derived.atom_expression.expression_unique expression)
  | plain derived _ => exact .inl (derived.expression_unique expression)
  | assignment symbol assign _ => exact absurd assign (expression.assign_not_second symbol)
  | @guarded w _ _ guard _ _ _ _ keyword =>
    obtain ⟨_, _, ⟨⟩, starts⟩ := starts
    rw [keyword] at starts
    cases guard <;> cases starts
  | function keyword | loop keyword | binding keyword | enumeration keyword | result keyword =>
    obtain ⟨_, _, ⟨⟩, starts⟩ := starts
    rw [keyword] at starts
    cases starts

end Derives

/-- If all tokens are one expression, they parse to the program of that expression exactly when
`StandsAlone` holds. A statement over all of them is the same tree, except where it is a block or
the bare word of a jump. -/
theorem expression_statement_iff {ts : List Token} {n : Tree} {behind : Reader}
    (endless : Endless ts) (read : (Reader.ofTokens ts).expression = (.ok n, behind))
    (ended : behind.rest = []) :
    (parse ts = .ok ⟨[n]⟩ ↔ StandsAlone ts n) ∧
      ∀ m other, (Reader.ofTokens ts).statement? = (.ok (some m), other) → other.rest = [] →
        m = n ∨ (∃ t ∈ ts.head?, t.kind = .leftBracket ∧ ∃ body, m = .block body) ∨
          ∃ t j, ts = [t] ∧ t.Jumps j ∧ m = .jump j := by
  have expression : Derives (.expression 1 n) ts := by
    obtain ⟨us, whole, derived⟩ := Reader.derives_of_expression read
    rw [ended, List.append_nil] at whole
    rwa [show ts = us from whole]
  refine ⟨⟨fun parsed => ?_, fun alone => ?_⟩, fun m other read ended => ?_⟩
  · have starts : ∀ t ∈ ts.head?, t.kind.isSeparator = false := by
      obtain ⟨t, us, rfl, starts⟩ := expression.starts
      rintro _ ⟨⟩
      exact Kind.not_isSeparator_of_startsOperand starts
    obtain ⟨us, vs, rfl, derived, separated⟩ :=
      (derives_of_parse endless parsed).first_statement starts
    exact derived.standsAlone expression.expression_node.1 separated
  · have statement := expression.statement_of_standsAlone alone
    have statements : Derives (.statements [n]) (ts ++ []) :=
      .statements (.someStatement statement) .noFurtherStatements
    rw [List.append_nil] at statements
    exact parse_of_derives statements
  · obtain ⟨node, us, whole, derived, same⟩ :=
      statement_of_run (Reader.statement?_eq_ok_iff.mp read).1
    rw [ended, List.append_nil] at whole
    cases derived with
    | noStatement => cases same
    | someStatement derived =>
      cases same
      subst whole
      exact derived.statement_of_expression expression

/-- The word of a jump may be accessed by a member, but no operand may follow it. -/
theorem expression_statement_iff_member :
    let b : Token := ⟨.symbol, .text "break", 1, 1, 5⟩
    let p : Token := ⟨.period, .text ".", 1, 6, 1⟩
    let x : Token := ⟨.symbol, .text "x", 1, 7, 1⟩
    let sub : Token := ⟨.minus, .text "-", 1, 8, 1⟩
    let short := [b, p, x]
    let long := [b, p, x, sub, x]
    let n : Tree := .access (.leaf b) [.leaf x]
    let m : Tree := .binary .sub n (.leaf x)
    Endless short ∧ (Reader.ofTokens short).expression = (.ok n, ⟨[], .sentinel short⟩) ∧
      parse short = .ok ⟨[n]⟩ ∧ StandsAlone short n ∧
      Endless long ∧ (Reader.ofTokens long).expression = (.ok m, ⟨[], .sentinel long⟩) ∧
      parse long ≠ .ok ⟨[m]⟩ ∧ ¬ StandsAlone long m := by
  intro b p x sub short long n m
  have endless : Endless short := by simp [Endless, short, b, p, x]
  have endless' : Endless long := by simp [Endless, long, b, p, x, sub]
  have read : (Reader.ofTokens short).expression = (.ok n, ⟨[], .sentinel short⟩) := rfl
  have read' : (Reader.ofTokens long).expression = (.ok m, ⟨[], .sentinel long⟩) := rfl
  have parsed : parse short = .ok ⟨[n]⟩ := rfl
  have alone := (expression_statement_iff endless read rfl).1.mp parsed
  have together : ¬ StandsAlone long m := by
    intro alone
    obtain ⟨of, keys, same⟩ := alone.access b p _ rfl rfl (.inr rfl)
    change Node.binary _ _ _ = _ at same
    cases same
  have unparsed := mt (expression_statement_iff endless' read' rfl).1.mp together
  exact ⟨endless, read, parsed, alone, endless', read', unparsed, together⟩

end BracketScript
