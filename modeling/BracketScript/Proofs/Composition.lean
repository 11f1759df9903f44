import BracketScript.Proofs.Derivation
import BracketScript.Proofs.Layout

/-! The form of parsed programs. Trees hold no brackets, so some trees have no tokens, such as a sum
under a product, or a statement that would be read as another one. The conditions on a node and its
parts exclude exactly these. -/
namespace BracketScript

inductive Place where
  /-- in a program, in a body, or as the start or the step of a loop -/
  | statement
  | expression
deriving DecidableEq

namespace BinaryOp

def tier : BinaryOp → Tier
  | or => .or
  | and => .and
  | eq | ne => .equality
  | lt | gt | le | ge => .comparison
  | add | sub => .sum
  | mul | div => .product

def kind : BinaryOp → Kind
  | add => .plus
  | sub => .minus
  | mul => .mult
  | div => .div
  | lt => .lt
  | gt => .gt
  | le => .le
  | ge => .ge
  | eq | ne => .equality
  | and => .and
  | or => .or

theorem kind_tier? (op : BinaryOp) : op.kind.tier? = some op.tier := by cases op <;> rfl

theorem lexeme_mem_spellings (op : BinaryOp) : op.lexeme ∈ op.kind.spellings := by
  cases op <;> decide

theorem tier?_of_lexeme_mem {op : BinaryOp} {kind : Kind} (spelled : op.lexeme ∈ kind.spellings) :
    kind.tier? = some op.tier := by
  have key : ∀ kind ∈ Kind.all, ∀ op ∈ all, op.lexeme ∈ kind.spellings →
      kind.tier? = some op.tier := by decide
  exact key kind kind.mem_all op (by cases op <;> decide) spelled

end BinaryOp

namespace Node

section

variable {ν τ : Type}

/-- The level of the outermost operator, or that of the operands. -/
def level : Node ν τ → Nat
  | binary op _ _ => op.tier.level
  | _ => 7

def IsPrimary : Node ν τ → Prop
  | leaf _ | list _ | lambda _ _ => True
  | _ => False

def IsAtom : Node ν τ → Prop
  | leaf _ | list _ | lambda _ _ | access _ _ => True
  | _ => False

def IsStatement : Node ν τ → Prop
  | block _ | function _ _ _ | guarded _ _ _ | loop _ _ _ _ | binding _ _ | assignment _ _
  | enumeration _ | result _ | jump _ => True
  | _ => False

/-- The children of a node with their places. -/
def parts : Node ν τ → List (Place × Node ν τ)
  | block body | function _ _ body | lambda _ body => body.map (.statement, ·)
  | guarded _ condition body => (.expression, condition) :: body.map (.statement, ·)
  | loop init condition step body =>
    init.toList.map (.statement, ·) ++ condition.toList.map (.expression, ·) ++
      step.toList.map (.statement, ·) ++ body.map (.statement, ·)
  | binding _ value | assignment _ value | result value => [(.expression, value)]
  | list elements => elements.map (.expression, ·)
  | access of keys => (.expression, of) :: keys.map (.expression, ·)
  | unary _ operand => [(.expression, operand)]
  | binary _ left right => [(.expression, left), (.expression, right)]
  | enumeration _ | jump _ | leaf _ => []

theorem level_pos (n : Node ν τ) : 1 ≤ n.level := by
  cases n with
  | binary op left right => exact op.tier.level_pos
  | _ => exact Nat.le_add_left 1 6

theorem IsPrimary.isAtom {n : Node ν τ} (primary : n.IsPrimary) : n.IsAtom := by
  cases n <;> first | exact primary | cases primary

theorem IsAtom.level_eq {n : Node ν τ} (atom : n.IsAtom) : n.level = 7 := by
  cases n <;> first | rfl | cases atom

end

end Node

/-- The operands that need no brackets under the operator. -/
def UnaryOp.Takes {ν τ : Type} (op : UnaryOp) (operand : Node ν τ) : Prop :=
  match op with
  | negative | preInc | preDec => operand.IsAtom
  | bang => operand.IsAtom ∨ ∃ n, operand = .unary .bang n
  | postInc | postDec => ∃ t, operand = .leaf t

namespace Node

/-- The local conditions on a node, independent of its place. -/
def Fits : Tree → Prop
  | binary op left right => op.tier.leftLevel ≤ left.level ∧ op.tier.rightLevel ≤ right.level
  | unary op operand => op.Takes operand
  | access of keys => of.IsPrimary ∧ ∃ key, keys = [key] ∧ key.IsAtom
  | leaf t => t.kind.isLeaf = true
  | assignment t _ => t.kind = .symbol
  | enumeration names => names ≠ []
  | _ => True

/-- Expressions with a statement as their text: they start neither with a bracket nor with a symbol
that is accessed or is the word of a jump. -/
def Plain : Tree → Prop
  | leaf t => ∀ j, ¬ t.Jumps j
  | list _ => False
  | access (leaf t) _ => t.kind ≠ .symbol
  | access of _ => of.Plain
  | unary op operand => op.backKind? ≠ none → operand.Plain
  | binary _ left _ => left.Plain
  | _ => True

def AccessesSymbol (n : Tree) : Prop := ∃ t keys, n = .access (.leaf t) keys ∧ t.kind = .symbol

end Node

def Place.Admits : Place → Tree → Prop
  | .statement, n => n.IsStatement ∨ n.AccessesSymbol ∨ n.Plain
  | .expression, n => ¬ n.IsStatement

/-- The conditions hold at a node and, in their places, at all nodes below it. -/
inductive Composed : Place → Tree → Prop where
  | node {place : Place} {n : Tree} : n.Fits → place.Admits n →
      (∀ part ∈ n.parts, Composed part.1 part.2) → Composed place n

theorem Composed.fits {place : Place} {n : Tree} : Composed place n → n.Fits
  | node fits _ _ => fits

theorem Composed.admits {place : Place} {n : Tree} : Composed place n → place.Admits n
  | node _ admits _ => admits

theorem Composed.parts {place : Place} {n : Tree} :
    Composed place n → ∀ part ∈ n.parts, Composed part.1 part.2
  | node _ _ parts => parts

/-- The trees of the phrase are composed, and are of its form. -/
def Phrase.IsComposed : Phrase → Prop
  | statements ns | furtherStatements ns | body ns => ∀ n ∈ ns, Composed .statement n
  | statementOption node => ∀ n ∈ node, Composed .statement n
  | statement n => Composed .statement n
  | expressionOption node => ∀ n ∈ node, Composed .expression n
  | expression level n => Composed .expression n ∧ level ≤ n.level
  | unary n => Composed .expression n ∧ n.level = 7
  | banged n => Composed .expression n ∧ UnaryOp.bang.Takes n
  | atom n => Composed .expression n ∧ n.IsAtom
  | primary n => Composed .expression n ∧ n.IsPrimary
  | furtherElements ns => ∀ n ∈ ns, Composed .expression n

/-- The kind is not that of the end, and an operator has one of the texts of its kind. -/
structure Token.Regular (t : Token) : Prop where
  kind : t.kind ≠ .eof
  operator : t.kind.tier? ≠ none → ∃ text ∈ t.kind.spellings, t.text? = some text

theorem Token.Regular.tier_eq {o : Token} {tier : Tier} {op : BinaryOp} (regular : o.Regular)
    (operates : o.Operates tier op) : tier = op.tier := by
  obtain ⟨text, spelled, isText⟩ := regular.operator (by simp [operates.kind])
  obtain rfl : op.lexeme = text := Option.some.inj (operates.text.symm.trans isText)
  exact Option.some.inj (operates.kind.symm.trans (BinaryOp.tier?_of_lexeme_mem spelled))

section Starts

variable {t : Token} {us ts : List Token}

/-- The next token makes no access and no assignment of a symbol before it. -/
def ContinuesPlainly (ts : List Token) : Prop :=
  ∀ d ∈ ts.head?, d.kind ≠ .leftBracket ∧ d.kind ≠ .period ∧ d.kind ≠ .assign

theorem startsPlainly_append (nonempty : us ≠ []) (continues : ContinuesPlainly ts) :
    StartsPlainly (us ++ ts) ↔ StartsPlainly us := by
  match us with
  | [] => exact absurd rfl nonempty
  | [t] =>
    have alone : StartsPlainly [t] ↔ t.kind ≠ .leftBracket ∧
        (t.kind = .symbol → ∀ j, ¬ t.Jumps j) := by simp [StartsPlainly]
    rw [alone]
    constructor
    · rintro ⟨bracket, symbol⟩
      exact ⟨bracket, fun is => (symbol is).1⟩
    · rintro ⟨bracket, symbol⟩
      exact ⟨bracket, fun is => ⟨symbol is, continues⟩⟩
  | t :: u :: us => exact Iff.rfl

theorem startsPlainly_of_kind {kind : Kind} (is : t.kind = kind)
    (other : kind ≠ .leftBracket ∧ kind ≠ .symbol) : StartsPlainly (t :: ts) := by
  subst is
  exact ⟨other.1, fun symbol => absurd symbol other.2⟩

theorem not_startsPlainly (bracket : t.kind = .leftBracket) : ¬ StartsPlainly (t :: ts) :=
  fun plainly => plainly.1 bracket

theorem startsPlainly_leaf (leaf : t.kind.isLeaf = true) (continues : ContinuesPlainly ts) :
    StartsPlainly (t :: ts) ↔ ∀ j, ¬ t.Jumps j := by
  constructor
  · intro plainly j jumps
    exact (plainly.2 jumps.kind).1 j jumps
  · intro noJump
    refine ⟨?_, fun _ => ⟨noJump, continues⟩⟩
    rintro bracket
    rw [bracket] at leaf
    cases leaf

theorem startsPlainly_accessed {d : Token} (leaf : t.kind.isLeaf = true)
    (accessed : d.kind = .leftBracket ∨ d.kind = .period) :
    StartsPlainly (t :: d :: ts) ↔ t.kind ≠ .symbol := by
  constructor
  · intro plainly symbol
    obtain ⟨_, continues⟩ := plainly.2 symbol
    obtain ⟨bracket, period, _⟩ := continues d rfl
    exact accessed.elim bracket period
  · intro other
    refine ⟨?_, fun symbol => absurd symbol other⟩
    rintro bracket
    rw [bracket] at leaf
    cases leaf

end Starts

namespace Derives

/-- The first two tokens of an access decide whether it is plain. -/
theorem startsPlainly_access {n key : Tree} {us ts : List Token} {d : Token}
    (derived : Derives (.primary n) us) (accessed : d.kind = .leftBracket ∨ d.kind = .period) :
    StartsPlainly (us ++ d :: ts) ↔ (Node.access n [key]).Plain := by
  cases derived with
  | leaf leaf => exact startsPlainly_accessed leaf accessed
  | emptyList bracket _ | list bracket _ _ _ =>
    exact iff_of_false (not_startsPlainly bracket) id
  | lambda arrow _ _ => exact iff_of_true (startsPlainly_of_kind arrow (by decide)) trivial

/-- The first two tokens of an expression decide whether its tree is plain. -/
theorem startsPlainly_iff {phrase : Phrase} {us : List Token} (derived : Derives phrase us) :
    match phrase with
    | .expression _ n | .unary n | .banged n | .atom n | .primary n =>
      StartsPlainly us ↔ n.Plain
    | _ => True := by
  induction derived with
  | tighter _ ih | operand _ ih | bare _ ih | bangless _ ih | accessless _ ih => exact ih
  | @binary o tier op left right us ts first operates _ ih _ =>
    obtain ⟨t, us, rfl, _⟩ := first.starts
    have continues : ContinuesPlainly (o :: ts) := by
      rintro _ ⟨⟩
      have kind := operates.kind
      refine ⟨?_, ?_, ?_⟩
      all_goals
        intro is
        rw [is] at kind
        cases kind
    exact (startsPlainly_append (List.cons_ne_nil t us) continues).trans ih
  | @front o op n ts kind _ _ =>
    cases op <;> simp [UnaryOp.frontKind?] at kind
    all_goals
      have plainly : StartsPlainly (o :: ts) := startsPlainly_of_kind kind.symm (by decide)
      exact iff_of_true plainly fun behind => absurd rfl behind
  | bangs is _ _ | bang is _ _ =>
    exact iff_of_true (startsPlainly_of_kind is (by decide)) fun behind => absurd rfl behind
  | @back t o op leaf kind =>
    have continues : ContinuesPlainly [o] := by
      rintro _ ⟨⟩
      cases op <;> simp [UnaryOp.backKind?] at kind <;> simp [← kind]
    rw [startsPlainly_leaf leaf continues]
    simp [Node.Plain, kind]
  | member first period _ _ _ => exact first.startsPlainly_access (.inr period)
  | index first bracket _ _ _ => exact first.startsPlainly_access (.inl bracket)
  | leaf leaf => exact startsPlainly_leaf leaf (by simp [ContinuesPlainly])
  | emptyList bracket _ | list bracket _ _ _ _ _ =>
    exact iff_of_false (not_startsPlainly bracket) id
  | lambda arrow _ _ _ => exact iff_of_true (startsPlainly_of_kind arrow (by decide)) trivial
  | _ => trivial

/-- A primary whose first token is a symbol consists of that symbol. -/
theorem primary_symbol {n : Tree} {t : Token} {us : List Token} (symbol : t.kind = .symbol)
    (derived : Derives (.primary n) (t :: us)) : n = .leaf t := by
  cases derived with
  | leaf => rfl
  | emptyList other _ | list other _ _ _ | lambda other _ _ => cases symbol.symm.trans other

theorem accessesSymbol {n : Tree} {t d : Token} {ts : List Token} (symbol : t.kind = .symbol)
    (derived : Derives (.atom n) (t :: d :: ts)) : n.AccessesSymbol := by
  have access {n key : Tree} {us vs : List Token} (first : Derives (.primary n) us)
      (same : us ++ vs = t :: d :: ts) : (Node.access n [key]).AccessesSymbol := by
    obtain ⟨t', us, rfl, _⟩ := first.starts
    obtain ⟨rfl, _⟩ := List.cons.inj same
    rw [first.primary_symbol symbol]
    exact ⟨_, _, rfl, symbol⟩
  generalize same : t :: d :: ts = us at derived
  cases derived with
  | accessless primary =>
    subst same
    cases primary_symbol symbol primary
    cases primary
  | member first _ _ | index first _ _ => exact access first same.symm

/-- Every derivation over regular tokens yields composed trees. -/
theorem isComposed {phrase : Phrase} {us : List Token} (derived : Derives phrase us)
    (regular : ∀ t ∈ us, t.Regular) : phrase.IsComposed := by
  induction derived with try simp only [List.forall_mem_cons, List.forall_mem_append] at regular
  | noFurtherStatements | noStatement | noExpression | noFurtherElements =>
    simp [Phrase.IsComposed]
  | statements _ _ first others =>
    simp only [Phrase.IsComposed, List.forall_mem_append, Option.mem_toList]
    exact ⟨first regular.1, others regular.2⟩
  | furtherStatements _ _ _ first others =>
    simp only [Phrase.IsComposed, List.forall_mem_append, Option.mem_toList]
    exact ⟨first regular.2.1, others regular.2.2⟩
  | someStatement _ ih =>
    rintro _ ⟨⟩
    exact ih regular
  | someExpression _ ih =>
    rintro _ ⟨⟩
    exact (ih regular).1
  | body _ _ _ ih => exact ih regular.2.1
  | function _ _ _ _ ih =>
    exact .node trivial (.inl trivial) (List.forall_mem_map.mpr (ih regular.2.2.2))
  | guarded _ _ _ _ _ test body =>
    obtain ⟨_, _, inTest, _, inBody⟩ := regular
    refine .node trivial (.inl trivial) (List.forall_mem_cons.mpr ⟨(test inTest).1, ?_⟩)
    exact List.forall_mem_map.mpr (body inBody)
  | loop _ _ _ _ _ _ _ _ _ init test step body =>
    obtain ⟨_, _, inInit, _, inTest, _, inStep, _, inBody⟩ := regular
    refine .node trivial (.inl trivial) ?_
    simp only [Node.parts, List.forall_mem_append, List.forall_mem_map, Option.mem_toList]
    exact ⟨⟨⟨init inInit, test inTest⟩, step inStep⟩, body inBody⟩
  | binding _ _ _ _ ih =>
    exact .node trivial (.inl trivial) (List.forall_mem_singleton.mpr (ih regular.2.2.2).1)
  | enumeration _ _ _ _ _ _ _ =>
    exact .node (List.cons_ne_nil _ _) (.inl trivial) (by simp [Node.parts])
  | result _ _ ih =>
    exact .node trivial (.inl trivial) (List.forall_mem_singleton.mpr (ih regular.2).1)
  | block _ ih => exact .node trivial (.inl trivial) (List.forall_mem_map.mpr (ih regular))
  | assignment symbol _ _ ih =>
    exact .node symbol (.inl trivial) (List.forall_mem_singleton.mpr (ih regular.2.2).1)
  | access symbol _ derived ih =>
    have composed := (ih (by simpa using regular)).1
    exact .node composed.fits (.inr (.inl (derived.accessesSymbol symbol))) composed.parts
  | jump _ => exact .node trivial (.inl trivial) (by simp [Node.parts])
  | plain derived plainly ih =>
    have composed := (ih regular).1
    have plain := derived.startsPlainly_iff.mp plainly
    exact .node composed.fits (.inr (.inr plain)) composed.parts
  | tighter _ ih =>
    obtain ⟨composed, le⟩ := ih regular
    exact ⟨composed, Nat.le_of_succ_le le⟩
  | binary _ operates _ left right =>
    obtain ⟨inLeft, operator, inRight⟩ := regular
    obtain ⟨composed, leftLevel⟩ := left inLeft
    obtain ⟨composed', rightLevel⟩ := right inRight
    -- The levels are those of the token's kind, and the tree has but the operator.
    obtain rfl := operator.tier_eq operates
    refine ⟨.node ⟨leftLevel, rightLevel⟩ id ?_, Nat.le_refl _⟩
    exact List.forall_mem_cons.mpr ⟨composed, List.forall_mem_singleton.mpr composed'⟩
  | operand _ ih =>
    obtain ⟨composed, level⟩ := ih regular
    exact ⟨composed, Nat.le_of_eq level.symm⟩
  | @front o op n ts kind _ ih =>
    obtain ⟨composed, atom⟩ := ih regular.2
    have takes : op.Takes n := by cases op <;> first | exact atom | cases kind
    exact ⟨.node takes id (List.forall_mem_singleton.mpr composed), rfl⟩
  | bangs _ _ ih =>
    obtain ⟨composed, takes⟩ := ih regular.2
    exact ⟨.node takes id (List.forall_mem_singleton.mpr composed), rfl⟩
  | bang _ _ ih =>
    obtain ⟨composed, takes⟩ := ih regular.2
    exact ⟨.node takes id (List.forall_mem_singleton.mpr composed), .inr ⟨_, rfl⟩⟩
  | @back t o op leaf kind =>
    have takes : op.Takes (.leaf t : Tree) := by cases op <;> first | exact ⟨t, rfl⟩ | cases kind
    have composed : Composed .expression (.leaf t) := .node leaf id (by simp [Node.parts])
    exact ⟨.node takes id (List.forall_mem_singleton.mpr composed), rfl⟩
  | bare _ ih =>
    obtain ⟨composed, atom⟩ := ih regular
    exact ⟨composed, atom.level_eq⟩
  | bangless _ ih =>
    obtain ⟨composed, atom⟩ := ih regular
    exact ⟨composed, .inl atom⟩
  | accessless _ ih =>
    obtain ⟨composed, primary⟩ := ih regular
    exact ⟨composed, primary.isAtom⟩
  | member _ _ _ first ih =>
    obtain ⟨composed, primary⟩ := first regular.1
    obtain ⟨key, atom⟩ := ih regular.2.2
    refine ⟨.node ⟨primary, _, rfl, atom⟩ id ?_, trivial⟩
    exact List.forall_mem_cons.mpr ⟨composed, List.forall_mem_singleton.mpr key⟩
  | index _ _ _ first ih =>
    obtain ⟨composed, primary⟩ := first regular.1
    obtain ⟨key, atom⟩ := ih (List.forall_mem_cons.mpr regular.2)
    refine ⟨.node ⟨primary, _, rfl, atom⟩ id ?_, trivial⟩
    exact List.forall_mem_cons.mpr ⟨composed, List.forall_mem_singleton.mpr key⟩
  | leaf leaf => exact ⟨.node leaf id (by simp [Node.parts]), trivial⟩
  | emptyList _ _ => exact ⟨.node trivial id (by simp [Node.parts]), trivial⟩
  | list _ _ _ _ first others =>
    obtain ⟨_, inFirst, inOthers, _⟩ := regular
    refine ⟨.node trivial id (List.forall_mem_map.mpr ?_), trivial⟩
    exact List.forall_mem_cons.mpr ⟨(first inFirst).1, others inOthers⟩
  | lambda _ _ _ ih =>
    exact ⟨.node trivial id (List.forall_mem_map.mpr (ih regular.2.2)), trivial⟩
  | furtherElements _ _ _ first others =>
    obtain ⟨_, inFirst, inOthers⟩ := regular
    exact List.forall_mem_cons.mpr ⟨(first inFirst).1, others inOthers⟩

end Derives

end BracketScript
