import BracketScript.Proofs.Composition
import BracketScript.Proofs.Exactness

/-! The image of the parser is the set of composed programs. For every composed tree there are
tokens that derive it: names and operators are written literally, accesses with a period, and every
statement after a semicolon. -/
namespace BracketScript

namespace Token

def written (kind : Kind) (text : String) : Token := ⟨kind, .text text, 1, 1, text.length⟩

/-- The token of a kind with a single spelling. -/
def fixed (kind : Kind) : Token := written kind (kind.spellings.headD "")

theorem Regular.fixed {kind : Kind} (spelled : kind.spellings.isEmpty = false) :
    (fixed kind).Regular := by
  constructor
  · rintro rfl
    cases spelled
  · intro _
    refine ⟨kind.spellings.headD "", ?_, rfl⟩
    change kind.spellings.headD "" ∈ kind.spellings
    generalize kind.spellings = texts at spelled
    cases texts with
    | nil => cases spelled
    | cons text others => exact List.mem_cons_self

def ofName (name : String) : Token := written .symbol name

theorem Regular.ofName (name : String) : (ofName name).Regular :=
  ⟨by simp [Token.ofName, written], fun tiered => absurd rfl tiered⟩

theorem Regular.leaf {t : Token} (leaf : t.kind.isLeaf = true) : t.Regular := by
  have operatorless : t.kind ≠ .eof ∧ t.kind.tier? = none := by
    generalize t.kind = kind at leaf
    cases kind <;> first | contradiction | exact ⟨by decide, rfl⟩
  exact ⟨operatorless.1, fun tiered => absurd operatorless.2 tiered⟩

def ofOperator (op : BinaryOp) : Token := written op.kind op.lexeme

theorem Regular.ofOperator (op : BinaryOp) : (ofOperator op).Regular :=
  ⟨by cases op <;> decide, fun _ => ⟨op.lexeme, op.lexeme_mem_spellings, rfl⟩⟩

theorem ofOperator_operates (op : BinaryOp) : (ofOperator op).Operates op.tier op :=
  ⟨op.kind_tier?, rfl⟩

end Token

open Token (fixed ofName ofOperator)

/-- Some regular tokens derive the phrase. -/
def Phrase.Writable (phrase : Phrase) : Prop := ∃ ts, Derives phrase ts ∧ ∀ t ∈ ts, t.Regular

namespace Phrase.Writable

theorem map {phrase phrase' : Phrase} (writable : phrase.Writable)
    (derives : ∀ ts, Derives phrase ts → Derives phrase' ts) : phrase'.Writable := by
  obtain ⟨ts, derived, regular⟩ := writable
  exact ⟨ts, derives ts derived, regular⟩

theorem statements {ns : List Tree} (all : ∀ n ∈ ns, (statement n).Writable) :
    (statements ns).Writable := by
  have further : (furtherStatements ns).Writable := by
    induction ns with
    | nil => exact ⟨[], .noFurtherStatements, by simp⟩
    | cons n ns ih =>
      obtain ⟨first, others⟩ := List.forall_mem_cons.mp all
      obtain ⟨us, first, front⟩ := first
      obtain ⟨ts, others, back⟩ := ih others
      refine ⟨fixed .semicolon :: (us ++ ts), ?_, ?_⟩
      · exact .furtherStatements rfl (.someStatement first) others
      · exact List.forall_mem_cons.mpr ⟨.fixed rfl, List.forall_mem_append.mpr ⟨front, back⟩⟩
  exact further.map fun ts derived => .statements .noStatement derived

theorem body {ns : List Tree} (all : ∀ n ∈ ns, (statement n).Writable) : (body ns).Writable := by
  obtain ⟨ts, derived, regular⟩ := statements all
  refine ⟨fixed .leftBracket :: (ts ++ [fixed .rightBracket]), .body rfl derived rfl, ?_⟩
  simp only [List.forall_mem_cons, List.forall_mem_append]
  exact ⟨.fixed rfl, regular, .fixed rfl, by simp⟩

theorem statementOption {node : Option Tree} (all : ∀ n ∈ node, (statement n).Writable) :
    (statementOption node).Writable := by
  cases node with
  | none => exact ⟨[], .noStatement, by simp⟩
  | some n => exact (all n rfl).map fun ts => .someStatement

theorem expressionOption {node : Option Tree} (all : ∀ n ∈ node, (expression 1 n).Writable) :
    (expressionOption node).Writable := by
  cases node with
  | none => exact ⟨[], .noExpression, by simp⟩
  | some n => exact (all n rfl).map fun ts => .someExpression

theorem furtherElements {ns : List Tree} (all : ∀ n ∈ ns, (expression 1 n).Writable) :
    (furtherElements ns).Writable := by
  induction ns with
  | nil => exact ⟨[], .noFurtherElements, by simp⟩
  | cons n ns ih =>
    obtain ⟨first, others⟩ := List.forall_mem_cons.mp all
    obtain ⟨us, first, front⟩ := first
    obtain ⟨ts, others, back⟩ := ih others
    refine ⟨fixed .comma :: (us ++ ts), .furtherElements rfl first others, ?_⟩
    exact List.forall_mem_cons.mpr ⟨.fixed rfl, List.forall_mem_append.mpr ⟨front, back⟩⟩

theorem list {ns : List Tree} (all : ∀ n ∈ ns, (expression 1 n).Writable) :
    (primary (.list ns)).Writable := by
  cases ns with
  | nil =>
    refine ⟨[fixed .leftBracket, fixed .rightBracket], .emptyList rfl rfl, ?_⟩
    exact List.forall_mem_cons.mpr ⟨.fixed rfl, List.forall_mem_singleton.mpr (.fixed rfl)⟩
  | cons n ns =>
    obtain ⟨first, others⟩ := List.forall_mem_cons.mp all
    obtain ⟨us, first, front⟩ := first
    obtain ⟨ts, others, back⟩ := furtherElements others
    refine ⟨fixed .leftBracket :: (us ++ (ts ++ [fixed .rightBracket])), ?_, ?_⟩
    · exact .list rfl first others rfl
    · simp only [List.forall_mem_cons, List.forall_mem_append]
      exact ⟨.fixed rfl, front, back, .fixed rfl, by simp⟩

end Phrase.Writable

/-- All lists of names can be written as parameters. -/
theorem exists_parameters (ps : List String) : ∃ ts, Parameters ps ts ∧ ∀ t ∈ ts, t.Regular := by
  have further (ps : List String) : ∃ ts, FurtherParameters ps ts ∧ ∀ t ∈ ts, t.Regular := by
    induction ps with
    | nil => exact ⟨[], .done, by simp⟩
    | cons p ps ih =>
      obtain ⟨ts, further, regular⟩ := ih
      refine ⟨fixed .comma :: ofName p :: ts, .more (t := ofName p) rfl rfl further, ?_⟩
      simp only [List.forall_mem_cons]
      exact ⟨.fixed rfl, .ofName p, regular⟩
  cases ps with
  | nil =>
    refine ⟨[fixed .leftBracket, fixed .rightBracket], .none rfl rfl, ?_⟩
    exact List.forall_mem_cons.mpr ⟨.fixed rfl, List.forall_mem_singleton.mpr (.fixed rfl)⟩
  | cons p ps =>
    obtain ⟨ts, further, regular⟩ := further ps
    refine ⟨fixed .leftBracket :: ofName p :: (ts ++ [fixed .rightBracket]), ?_, ?_⟩
    · exact .some (t := ofName p) rfl rfl further rfl
    · simp only [List.forall_mem_cons, List.forall_mem_append]
      exact ⟨.fixed rfl, .ofName p, regular, .fixed rfl, by simp⟩

theorem exists_furtherNames (names : List String) :
    ∃ ts, FurtherNames names ts ∧ ∀ t ∈ ts, t.Regular := by
  induction names with
  | nil => exact ⟨[], .done, by simp⟩
  | cons name names ih =>
    obtain ⟨ts, further, regular⟩ := ih
    have separators : Separators [fixed .semicolon] := List.forall_mem_singleton.mpr rfl
    refine ⟨[fixed .semicolon] ++ ofName name :: ts, ?_, ?_⟩
    · exact .more (t := ofName name) separators (List.cons_ne_nil _ _) rfl further
    · simp only [List.singleton_append, List.forall_mem_cons]
      exact ⟨.fixed rfl, .ofName name, regular⟩

def Place.phrase : Place → Tree → Phrase
  | .statement, n => .statement n
  | .expression, n => .expression 1 n

/-- The narrowest phrase that derives the node. -/
def Node.phrase : Tree → Phrase
  | .leaf t => .primary (.leaf t)
  | .list elements => .primary (.list elements)
  | .lambda parameters body => .primary (.lambda parameters body)
  | .access of keys => .atom (.access of keys)
  | .unary .bang operand => .banged (.unary .bang operand)
  | .unary op operand => .unary (.unary op operand)
  | .binary op left right => .expression op.tier.level (.binary op left right)
  | n => .statement n

namespace Phrase.Writable

variable {n : Tree}

theorem toPrimary (writable : n.phrase.Writable) (is : n.IsPrimary) : (primary n).Writable := by
  cases n <;> first | exact writable | cases is

theorem toAtom (writable : n.phrase.Writable) (is : n.IsAtom) : (atom n).Writable := by
  cases n with
  | access => exact writable
  | leaf | list | lambda => exact (writable.toPrimary trivial).map fun ts => .accessless
  | _ => cases is

theorem toBanged (writable : n.phrase.Writable) (takes : UnaryOp.bang.Takes n) :
    (banged n).Writable := by
  rcases takes with atom | ⟨operand, rfl⟩
  · exact (writable.toAtom atom).map fun ts => .bangless
  · exact writable

theorem toExpression (writable : n.phrase.Writable) (is : ¬ n.IsStatement) {level : Nat}
    (le : level ≤ n.level) : (expression level n).Writable := by
  have operand (unary : (unary n).Writable) (tightest : n.level = 7) :
      (expression level n).Writable :=
    unary.map fun ts derived => .loosen (.operand derived) (tightest ▸ le)
  have ofAtom (atom : n.IsAtom) : (expression level n).Writable :=
    operand ((writable.toAtom atom).map fun ts => .bare) atom.level_eq
  cases n with
  | binary => exact writable.map fun ts derived => .loosen derived le
  | leaf | list | lambda | access => exact ofAtom trivial
  | unary op m =>
    refine operand ?_ rfl
    cases op with
    | bang =>
      refine writable.map fun ts derived => ?_
      cases derived with
      | bang is derived => exact .bangs is derived
      | bangless derived => exact .bare derived
    | _ => exact writable
  | _ => exact absurd trivial is

/-- An operator can be written around every operand that it takes. -/
theorem unary {op : UnaryOp} (writable : n.phrase.Writable) (takes : op.Takes n) :
    (Node.unary op n).phrase.Writable := by
  have front {kind : Kind} (is : op.frontKind? = some kind)
      (spelled : kind.spellings.isEmpty = false) (atom : n.IsAtom) :
      (Phrase.unary (.unary op n)).Writable := by
    obtain ⟨ts, derived, regular⟩ := writable.toAtom atom
    refine ⟨fixed kind :: ts, .front is derived, ?_⟩
    exact List.forall_mem_cons.mpr ⟨.fixed spelled, regular⟩
  have back {kind : Kind} (is : op.backKind? = some kind)
      (spelled : kind.spellings.isEmpty = false) (leaf : ∃ t, n = .leaf t) :
      (Phrase.unary (.unary op n)).Writable := by
    obtain ⟨t, rfl⟩ := leaf
    obtain ⟨ts, derived, regular⟩ := writable
    cases derived with
    | leaf leaf =>
      refine ⟨[t, fixed kind], .back leaf is, ?_⟩
      exact List.forall_mem_cons.mpr ⟨.leaf leaf, List.forall_mem_singleton.mpr (.fixed spelled)⟩
  cases op with
  | bang =>
    obtain ⟨ts, derived, regular⟩ := writable.toBanged takes
    refine ⟨fixed .bang :: ts, .bang rfl derived, ?_⟩
    exact List.forall_mem_cons.mpr ⟨.fixed rfl, regular⟩
  | negative | preInc | preDec => exact front rfl rfl takes
  | postInc | postDec => exact back rfl rfl takes

theorem access {key : Tree} (writable : n.phrase.Writable) (primary : n.IsPrimary)
    (writable' : key.phrase.Writable) (atom : key.IsAtom) :
    (Node.access n [key]).phrase.Writable := by
  obtain ⟨us, derived, front⟩ := writable.toPrimary primary
  obtain ⟨ts, derived', back⟩ := writable'.toAtom atom
  refine ⟨us ++ fixed .period :: ts, .member derived rfl derived', ?_⟩
  exact List.forall_mem_append.mpr ⟨front, List.forall_mem_cons.mpr ⟨.fixed rfl, back⟩⟩

theorem binary {op : BinaryOp} {left right : Tree}
    (left_ : (expression op.tier.leftLevel left).Writable)
    (right_ : (expression op.tier.rightLevel right).Writable) :
    (Node.binary op left right).phrase.Writable := by
  obtain ⟨us, derived, front⟩ := left_
  obtain ⟨ts, derived', back⟩ := right_
  have operates := Token.ofOperator_operates op
  refine ⟨us ++ ofOperator op :: ts, .binary derived operates derived', ?_⟩
  exact List.forall_mem_append.mpr ⟨front, List.forall_mem_cons.mpr ⟨.ofOperator op, back⟩⟩

/-- A node that its place admits can be written there. Where a statement starts, the first two
tokens must not announce another kind of statement. -/
theorem toPlace {place : Place} (writable : n.phrase.Writable) (admits : place.Admits n) :
    (place.phrase n).Writable := by
  have expression (is : ¬ n.IsStatement) : (expression 1 n).Writable :=
    writable.toExpression is n.level_pos
  cases place with
  | expression => exact expression admits
  | statement =>
    by_cases is : n.IsStatement
    · cases n <;> first | exact writable | cases is
    · rcases admits with is' | ⟨t, keys, rfl, symbol⟩ | plain
      · exact absurd is' is
      · refine writable.map fun ts derived => ?_
        cases derived with
        | accessless primary => cases primary
        | member first period key =>
          cases first with
          | leaf leaf => exact .access symbol (.inr period) (.member (.leaf leaf) period key)
        | index first bracket key =>
          cases first with
          | leaf leaf => exact .access symbol (.inl bracket) (.index (.leaf leaf) bracket key)
      · refine (expression is).map fun ts derived => ?_
        exact .plain derived (derived.startsPlainly_iff.mpr plain)

end Phrase.Writable

open Phrase (Writable)

/-- A statement can be written if its parts can. -/
theorem Node.IsStatement.writable {n : Tree} (is : n.IsStatement) (fits : n.Fits)
    (parts : ∀ part ∈ n.parts, (part.1.phrase part.2).Writable) :
    (Phrase.statement n).Writable := by
  cases n with
  | block body =>
    have statements := List.forall_mem_map.mp parts
    exact (Writable.body statements).map fun ts => .block
  | function name parameters body =>
    have statements := List.forall_mem_map.mp parts
    obtain ⟨us, spelled, front⟩ := exists_parameters parameters
    obtain ⟨ts, derived, back⟩ := Writable.body statements
    refine ⟨fixed .funcWord :: ofName name :: (us ++ ts), ?_, ?_⟩
    · exact .function (t := ofName name) rfl rfl spelled derived
    · simp only [List.forall_mem_cons, List.forall_mem_append]
      exact ⟨.fixed rfl, .ofName name, front, back⟩
  | guarded guard condition body =>
    obtain ⟨test, parts⟩ := List.forall_mem_cons.mp parts
    have statements := List.forall_mem_map.mp parts
    obtain ⟨us, test, front⟩ := test
    obtain ⟨ts, body, back⟩ := Writable.body statements
    refine ⟨fixed guard.word :: fixed .leftBracket :: (us ++ fixed .rightBracket :: ts), ?_, ?_⟩
    · exact .guarded rfl rfl test rfl body
    · simp only [List.forall_mem_cons, List.forall_mem_append]
      exact ⟨.fixed (by cases guard <;> rfl), .fixed rfl, front, .fixed rfl, back⟩
  | loop init condition step body =>
    simp only [Node.parts, List.forall_mem_append, List.forall_mem_map, Option.mem_toList] at parts
    obtain ⟨⟨⟨init, test⟩, step⟩, body⟩ := parts
    obtain ⟨us, init, inInit⟩ := Writable.statementOption init
    obtain ⟨vs, test, inTest⟩ := Writable.expressionOption test
    obtain ⟨ws, step, inStep⟩ := Writable.statementOption step
    obtain ⟨ts, body, inBody⟩ := Writable.body body
    refine ⟨fixed .forWord :: fixed .leftBracket :: (us ++ fixed .semicolon ::
      (vs ++ fixed .semicolon :: (ws ++ fixed .rightBracket :: ts))), ?_, ?_⟩
    · exact .loop rfl rfl init rfl test rfl step rfl body
    · simp only [List.forall_mem_cons, List.forall_mem_append]
      exact ⟨.fixed rfl, .fixed rfl, inInit, .fixed rfl, inTest, .fixed rfl, inStep,
        .fixed rfl, inBody⟩
  | binding name value =>
    obtain ⟨ts, derived, regular⟩ := List.forall_mem_singleton.mp parts
    refine ⟨fixed .letWord :: ofName name :: fixed .assign :: ts, ?_, ?_⟩
    · exact .binding (t := ofName name) rfl rfl rfl derived
    · simp only [List.forall_mem_cons]
      exact ⟨.fixed rfl, .ofName name, .fixed rfl, regular⟩
  | assignment target value =>
    obtain ⟨ts, derived, regular⟩ := List.forall_mem_singleton.mp parts
    refine ⟨target :: fixed .assign :: ts, .assignment fits rfl derived, ?_⟩
    simp only [List.forall_mem_cons]
    exact ⟨.leaf (fits ▸ rfl), .fixed rfl, regular⟩
  | enumeration names =>
    cases names with
    | nil => exact absurd rfl fits
    | cons name names =>
      obtain ⟨ts, further, regular⟩ := exists_furtherNames names
      have separators : Separators [] := by simp [Separators]
      refine ⟨fixed .enumWord :: fixed .leftBracket :: ([] ++ ofName name ::
        (ts ++ ([] ++ [fixed .rightBracket]))), ?_, ?_⟩
      · exact .enumeration (t := ofName name) rfl rfl separators rfl further separators rfl
      · simp only [List.nil_append, List.forall_mem_cons, List.forall_mem_append]
        exact ⟨.fixed rfl, .fixed rfl, .ofName name, regular, .fixed rfl, by simp⟩
  | result value =>
    obtain ⟨ts, derived, regular⟩ := List.forall_mem_singleton.mp parts
    refine ⟨fixed .returnWord :: ts, .result rfl derived, ?_⟩
    exact List.forall_mem_cons.mpr ⟨.fixed rfl, regular⟩
  | jump j =>
    exact ⟨[ofName j.name], .jump ⟨rfl, rfl⟩, List.forall_mem_singleton.mpr (.ofName _)⟩
  | _ => cases is

/-- By induction on nodes, every composed node has tokens for the narrowest phrase it belongs to. -/
theorem Composed.writable {place : Place} {n : Tree} (composed : Composed place n) :
    n.phrase.Writable := by
  induction composed with
  | @node place n fits admits parts ih =>
    have read : ∀ part ∈ n.parts, (part.1.phrase part.2).Writable :=
      fun part member => (ih part member).toPlace (parts part member).admits
    by_cases is : n.IsStatement
    · have written := is.writable fits read
      cases n <;> first | exact written | cases is
    · cases n with
      | leaf t => exact ⟨[t], .leaf fits, List.forall_mem_singleton.mpr (.leaf fits)⟩
      | list elements =>
        have expressions := List.forall_mem_map.mp read
        exact Writable.list expressions
      | lambda parameters body =>
        have statements := List.forall_mem_map.mp read
        obtain ⟨us, spelled, front⟩ := exists_parameters parameters
        obtain ⟨ts, derived, back⟩ := Writable.body statements
        refine ⟨fixed .lambda :: (us ++ ts), .lambda rfl spelled derived, ?_⟩
        exact List.forall_mem_cons.mpr ⟨.fixed rfl, List.forall_mem_append.mpr ⟨front, back⟩⟩
      | access of keys =>
        obtain ⟨primary, key, rfl, atom⟩ := fits
        obtain ⟨first, second⟩ := List.forall_mem_cons.mp ih
        have second := List.forall_mem_singleton.mp second
        exact first.access primary second atom
      | unary op operand => exact (List.forall_mem_singleton.mp ih).unary fits
      | binary op left right =>
        obtain ⟨leftLevel, rightLevel⟩ := fits
        obtain ⟨left, right⟩ := List.forall_mem_cons.mp parts
        have right := List.forall_mem_singleton.mp right
        obtain ⟨first, second⟩ := List.forall_mem_cons.mp ih
        have second := List.forall_mem_singleton.mp second
        have first := first.toExpression left.admits leftLevel
        have second := second.toExpression right.admits rightLevel
        exact .binary first second
      | _ => exact absurd trivial is

theorem composed_of_parse {ts : List Token} {p : Program} (regular : ∀ t ∈ ts, t.Regular)
    (parsed : parse ts = .ok p) : ∀ n ∈ p.statements, Composed .statement n := by
  have endless : Endless ts := fun t member => (regular t member).kind
  exact (derives_of_parse endless parsed).isComposed regular

/-- The composed programs are exactly the results of parsing regular tokens. -/
theorem exists_parse_iff_composed (p : Program) :
    (∃ ts, (∀ t ∈ ts, t.Regular) ∧ parse ts = .ok p) ↔
      ∀ n ∈ p.statements, Composed .statement n := by
  constructor
  · rintro ⟨ts, regular, parsed⟩
    exact composed_of_parse regular parsed
  · intro composed
    have written (n) (member : n ∈ p.statements) : (Phrase.statement n).Writable :=
      (composed n member).writable.toPlace (composed n member).admits
    obtain ⟨ts, derived, regular⟩ := Writable.statements written
    refine ⟨ts, regular, parse_eq_ok_iff_run.mpr ?_⟩
    rw [derived.run_program]

end BracketScript
