import Mathlib.Data.List.Basic
import BracketScript.Grammar.Cue

/-! The grammar of programs, independent of how they are read. A derivation spells a phrase
with its tree by a list of tokens; it follows the productions one by one, and the only
conditions beyond them are on the first two tokens of a statement. -/
namespace BracketScript

abbrev Tree : Type := Node String Token

/-- The token is a binary operator: its kind gives the tier and its text the operator. -/
structure Token.Operates (o : Token) (tier : Tier) (op : BinaryOp) : Prop where
  kind : o.kind.tier? = some tier
  text : o.text? = some op.lexeme

/-- The token is a symbol whose text is the word of a jump. -/
structure Token.Jumps (t : Token) (j : Jump) : Prop where
  kind : t.kind = .symbol
  text : t.text? = some j.name

def Guard.word : Guard → Kind
  | .ifTrue => .ifWord
  | .whileTrue => .whileWord

def UnaryOp.frontKind? : UnaryOp → Option Kind
  | .negative => some .minus
  | .preInc => some .inc
  | .preDec => some .dec
  | .bang | .postInc | .postDec => none

def UnaryOp.backKind? : UnaryOp → Option Kind
  | .postInc => some .inc
  | .postDec => some .dec
  | .negative | .bang | .preInc | .preDec => none

namespace Tier

/-- The tiers from the loosest to the tightest. -/
def all : List Tier := [or, and, equality, comparison, sum, product]

theorem mem_all (tier : Tier) : tier ∈ all := by cases tier <;> decide

theorem level_eq (tier : Tier) : tier.level = all.idxOf tier + 1 := by cases tier <;> decide

theorem groupsRight_iff (tier : Tier) : tier.groupsRight = true ↔ tier = comparison := by
  cases tier <;> decide

theorem pairwise_all : all.Pairwise fun looser tighter => looser.level < tighter.level := by
  decide

theorem level_injective {a b : Tier} (same : a.level = b.level) : a = b := by
  rw [level_eq, level_eq] at same
  exact (List.idxOf_inj (mem_all a)).mp (Nat.succ.inj same)

theorem level_lt {looser tighter : Tier} (le : looser.level ≤ tighter.level)
    (other : tighter ≠ looser) : looser.level < tighter.level :=
  Nat.lt_of_le_of_ne le fun same => other (level_injective same).symm

/-- The loosest level that the left operand may have. -/
def leftLevel (tier : Tier) : Nat := if tier.groupsRight then tier.level + 1 else tier.level

def rightLevel (tier : Tier) : Nat := if tier.groupsRight then tier.level else tier.level + 1

/-- Comparisons alone take no operator of their own tier on the left. -/
theorem leftLevel_eq (tier : Tier) :
    tier.leftLevel = if tier = comparison then tier.level + 1 else tier.level := by
  simp only [leftLevel, groupsRight_iff]

/-- Comparisons alone take an operator of their own tier on the right. -/
theorem rightLevel_eq (tier : Tier) :
    tier.rightLevel = if tier = comparison then tier.level else tier.level + 1 := by
  simp only [rightLevel, groupsRight_iff]

end Tier

def Separators (ss : List Token) : Prop := ∀ s ∈ ss, s.kind.isSeparator = true

/-- `(',' symbol)*` -/
inductive FurtherParameters : List String → List Token → Prop where
  | done : FurtherParameters [] []
  | more {c t : Token} {ps : List String} {ts : List Token} : c.kind = .comma →
      t.kind = .symbol → FurtherParameters ps ts →
      FurtherParameters (t.payload.display :: ps) (c :: t :: ts)

/-- `'[' (symbol (',' symbol)*)? ']'` -/
inductive Parameters : List String → List Token → Prop where
  | none {l r : Token} : l.kind = .leftBracket → r.kind = .rightBracket → Parameters [] [l, r]
  | some {l t r : Token} {ps : List String} {ts : List Token} : l.kind = .leftBracket →
      t.kind = .symbol → FurtherParameters ps ts → r.kind = .rightBracket →
      Parameters (t.payload.display :: ps) (l :: t :: (ts ++ [r]))

/-- `(sep+ symbol)*` -/
inductive FurtherNames : List String → List Token → Prop where
  | done : FurtherNames [] []
  | more {t : Token} {ss ts : List Token} {names : List String} : Separators ss → ss ≠ [] →
      t.kind = .symbol → FurtherNames names ts →
      FurtherNames (t.payload.display :: names) (ss ++ t :: ts)

/-- The first token is no bracket; and if it is a symbol, it is no word of a jump, and
neither a bracket nor a period nor an assignment follows it. -/
def StartsPlainly : List Token → Prop
  | [] => True
  | t :: ts => t.kind ≠ .leftBracket ∧
      (t.kind = .symbol → (∀ j, ¬ t.Jumps j) ∧
        ∀ d ∈ ts.head?, d.kind ≠ .leftBracket ∧ d.kind ≠ .period ∧ d.kind ≠ .assign)

/-- The phrases of the grammar. An expression of a level holds no looser operator outside brackets,
and the level above all tiers is that of operands. -/
inductive Phrase where
  /-- `stmt? (sep stmt?)*` -/
  | statements (ns : List Tree)
  /-- `(sep stmt?)*` -/
  | furtherStatements (ns : List Tree)
  /-- `stmt?` -/
  | statementOption (n : Option Tree)
  | statement (n : Tree)
  /-- `'[' stmt? (sep stmt?)* ']'` -/
  | body (ns : List Tree)
  /-- `expr?` -/
  | expressionOption (n : Option Tree)
  | expression (level : Nat) (n : Tree)
  | unary (n : Tree)
  /-- `'!'* atom` -/
  | banged (n : Tree)
  | atom (n : Tree)
  /-- an atom without the access behind it -/
  | primary (n : Tree)
  /-- `(',' expr)*` -/
  | furtherElements (ns : List Tree)

inductive Derives : Phrase → List Token → Prop where
  | statements {n : Option Tree} {ns : List Tree} {us ts : List Token} :
      Derives (.statementOption n) us → Derives (.furtherStatements ns) ts →
      Derives (.statements (n.toList ++ ns)) (us ++ ts)
  | noFurtherStatements : Derives (.furtherStatements []) []
  | furtherStatements {s : Token} {n : Option Tree} {ns : List Tree} {us ts : List Token} :
      s.kind.isSeparator = true → Derives (.statementOption n) us →
      Derives (.furtherStatements ns) ts →
      Derives (.furtherStatements (n.toList ++ ns)) (s :: (us ++ ts))
  | noStatement : Derives (.statementOption none) []
  | someStatement {n : Tree} {ts : List Token} : Derives (.statement n) ts →
      Derives (.statementOption (some n)) ts
  | body {l r : Token} {ns : List Tree} {ts : List Token} : l.kind = .leftBracket →
      Derives (.statements ns) ts → r.kind = .rightBracket → Derives (.body ns) (l :: (ts ++ [r]))
  | function {f t : Token} {ps : List String} {body : List Tree} {us ts : List Token} :
      f.kind = .funcWord → t.kind = .symbol → Parameters ps us → Derives (.body body) ts →
      Derives (.statement (.function t.payload.display ps body)) (f :: t :: (us ++ ts))
  | guarded {w l r : Token} {guard : Guard} {test : Tree} {body : List Tree}
      {us ts : List Token} : w.kind = guard.word → l.kind = .leftBracket →
      Derives (.expression 1 test) us → r.kind = .rightBracket → Derives (.body body) ts →
      Derives (.statement (.guarded guard test body)) (w :: l :: (us ++ r :: ts))
  | loop {f l r s s' : Token} {init test step : Option Tree} {body : List Tree}
      {us vs ws ts : List Token} : f.kind = .forWord → l.kind = .leftBracket →
      Derives (.statementOption init) us → s.kind = .semicolon →
      Derives (.expressionOption test) vs → s'.kind = .semicolon →
      Derives (.statementOption step) ws → r.kind = .rightBracket → Derives (.body body) ts →
      Derives (.statement (.loop init test step body))
        (f :: l :: (us ++ s :: (vs ++ s' :: (ws ++ r :: ts))))
  | binding {w t a : Token} {value : Tree} {ts : List Token} : w.kind = .letWord →
      t.kind = .symbol → a.kind = .assign → Derives (.expression 1 value) ts →
      Derives (.statement (.binding t.payload.display value)) (w :: t :: a :: ts)
  /-- `'enum' '[' sep* symbol (sep+ symbol)* sep* ']'` -/
  | enumeration {w l t r : Token} {ss ts es : List Token} {names : List String} :
      w.kind = .enumWord → l.kind = .leftBracket → Separators ss → t.kind = .symbol →
      FurtherNames names ts → Separators es → r.kind = .rightBracket →
      Derives (.statement (.enumeration (t.payload.display :: names)))
        (w :: l :: (ss ++ t :: (ts ++ (es ++ [r]))))
  | result {w : Token} {value : Tree} {ts : List Token} : w.kind = .returnWord →
      Derives (.expression 1 value) ts → Derives (.statement (.result value)) (w :: ts)
  | block {body : List Tree} {ts : List Token} : Derives (.body body) ts →
      Derives (.statement (.block body)) ts
  | assignment {t a : Token} {value : Tree} {ts : List Token} : t.kind = .symbol →
      a.kind = .assign → Derives (.expression 1 value) ts →
      Derives (.statement (.assignment t value)) (t :: a :: ts)
  | access {t d : Token} {n : Tree} {ts : List Token} : t.kind = .symbol →
      d.kind = .leftBracket ∨ d.kind = .period → Derives (.atom n) (t :: d :: ts) →
      Derives (.statement n) (t :: d :: ts)
  | jump {t : Token} {j : Jump} : t.Jumps j → Derives (.statement (.jump j)) [t]
  | plain {n : Tree} {ts : List Token} : Derives (.expression 1 n) ts → StartsPlainly ts →
      Derives (.statement n) ts
  | noExpression : Derives (.expressionOption none) []
  | someExpression {n : Tree} {ts : List Token} : Derives (.expression 1 n) ts →
      Derives (.expressionOption (some n)) ts
  | tighter {level : Nat} {n : Tree} {ts : List Token} :
      Derives (.expression (level + 1) n) ts → Derives (.expression level n) ts
  | binary {o : Token} {tier : Tier} {op : BinaryOp} {left right : Tree} {us ts : List Token} :
      Derives (.expression tier.leftLevel left) us → o.Operates tier op →
      Derives (.expression tier.rightLevel right) ts →
      Derives (.expression tier.level (.binary op left right)) (us ++ o :: ts)
  | operand {n : Tree} {ts : List Token} : Derives (.unary n) ts → Derives (.expression 7 n) ts
  | front {o : Token} {op : UnaryOp} {n : Tree} {ts : List Token} :
      op.frontKind? = some o.kind → Derives (.atom n) ts → Derives (.unary (.unary op n)) (o :: ts)
  | bangs {o : Token} {n : Tree} {ts : List Token} : o.kind = .bang → Derives (.banged n) ts →
      Derives (.unary (.unary .bang n)) (o :: ts)
  | back {t o : Token} {op : UnaryOp} : t.kind.isLeaf = true → op.backKind? = some o.kind →
      Derives (.unary (.unary op (.leaf t))) [t, o]
  | bare {n : Tree} {ts : List Token} : Derives (.atom n) ts → Derives (.unary n) ts
  | bang {o : Token} {n : Tree} {ts : List Token} : o.kind = .bang → Derives (.banged n) ts →
      Derives (.banged (.unary .bang n)) (o :: ts)
  | bangless {n : Tree} {ts : List Token} : Derives (.atom n) ts → Derives (.banged n) ts
  | accessless {n : Tree} {ts : List Token} : Derives (.primary n) ts → Derives (.atom n) ts
  | member {p : Token} {n key : Tree} {us ts : List Token} : Derives (.primary n) us →
      p.kind = .period → Derives (.atom key) ts →
      Derives (.atom (.access n [key])) (us ++ p :: ts)
  | index {l : Token} {n key : Tree} {us ts : List Token} : Derives (.primary n) us →
      l.kind = .leftBracket → Derives (.atom key) (l :: ts) →
      Derives (.atom (.access n [key])) (us ++ l :: ts)
  | leaf {t : Token} : t.kind.isLeaf = true → Derives (.primary (.leaf t)) [t]
  | emptyList {l r : Token} : l.kind = .leftBracket → r.kind = .rightBracket →
      Derives (.primary (.list [])) [l, r]
  | list {l r : Token} {n : Tree} {ns : List Tree} {us ts : List Token} :
      l.kind = .leftBracket → Derives (.expression 1 n) us → Derives (.furtherElements ns) ts →
      r.kind = .rightBracket → Derives (.primary (.list (n :: ns))) (l :: (us ++ (ts ++ [r])))
  | lambda {a : Token} {ps : List String} {body : List Tree} {us ts : List Token} :
      a.kind = .lambda → Parameters ps us → Derives (.body body) ts →
      Derives (.primary (.lambda ps body)) (a :: (us ++ ts))
  | noFurtherElements : Derives (.furtherElements []) []
  | furtherElements {c : Token} {n : Tree} {ns : List Tree} {us ts : List Token} :
      c.kind = .comma → Derives (.expression 1 n) us → Derives (.furtherElements ns) ts →
      Derives (.furtherElements (n :: ns)) (c :: (us ++ ts))

def Kind.startsOperand : Kind → Bool
  | num | string | trueWord | falseWord | symbol => true
  | minus | bang | inc | dec | leftBracket | lambda => true
  | _ => false

namespace Derives

/-- A derived phrase of an expression starts with a kind of the table. -/
theorem starts {phrase : Phrase} {us : List Token} (derived : Derives phrase us) :
    match phrase with
    | .expression .. | .unary _ | .banged _ | .atom _ | .primary _ =>
      ∃ t ts, us = t :: ts ∧ t.kind.startsOperand = true
    | _ => True := by
  induction derived with
  | tighter _ ih | operand _ ih | bare _ ih | bangless _ ih | accessless _ ih => exact ih
  | binary _ _ _ ih _ | member _ _ _ ih _ | index _ _ _ ih _ =>
    obtain ⟨t, ts, same, starts⟩ := ih
    exact ⟨t, _, by rw [same, List.cons_append], starts⟩
  | @front o op n ts kind _ _ =>
    refine ⟨o, ts, rfl, ?_⟩
    cases op <;> simp [UnaryOp.frontKind?] at kind <;> rw [← kind] <;> rfl
  | @back t o op leaf _ =>
    refine ⟨t, [o], rfl, ?_⟩
    generalize t.kind = kind at leaf
    cases kind <;> first | contradiction | rfl
  | @leaf t leaf =>
    refine ⟨t, [], rfl, ?_⟩
    generalize t.kind = kind at leaf
    cases kind <;> first | contradiction | rfl
  | bangs is _ _ | bang is _ _ | emptyList is _ | list is _ _ _ _ _ | lambda is _ _ _ =>
    exact ⟨_, _, rfl, by rw [is]; rfl⟩
  | _ => trivial

/-- A tighter expression is also one of every looser level. -/
theorem loosen {level level' : Nat} {n : Tree} {ts : List Token}
    (derived : Derives (.expression level' n) ts) (le : level ≤ level') :
    Derives (.expression level n) ts := by
  induction le with
  | refl => exact derived
  | step _ ih => exact ih (.tighter derived)

end Derives

/-- The test in the parser compares exactly the levels of the grammar: an operand between two
operators goes to the second one if the first may hold it on its right. -/
theorem Tier.yieldsTo_iff (first second : Tier) :
    first.yieldsTo second = true ↔ first.rightLevel ≤ second.level := by
  cases first <;> cases second <;> decide

theorem Tier.leftLevel_le_iff (first second : Tier) :
    second.leftLevel ≤ first.level ↔ ¬ first.yieldsTo second = true := by
  cases first <;> cases second <;> decide

theorem Tier.level_pos (tier : Tier) : 1 ≤ tier.level := by cases tier <;> decide

theorem Tier.level_le_leftLevel (tier : Tier) : tier.level ≤ tier.leftLevel := by
  cases tier <;> decide

theorem Tier.level_le_rightLevel (tier : Tier) : tier.level ≤ tier.rightLevel := by
  cases tier <;> decide

theorem Tier.rightLevel_le (tier : Tier) : tier.rightLevel ≤ 7 := by cases tier <;> decide

theorem Tier.leftLevel_le (tier : Tier) : tier.leftLevel ≤ 7 := by cases tier <;> decide

/-- The operator in a cue agrees with the independent definition of an operator token. -/
theorem Token.operator?_eq_some_iff {o : Token} {tier : Tier} {op : BinaryOp} :
    o.operator? = some (tier, op) ↔ o.Operates tier op := by
  constructor
  · intro found
    obtain ⟨tier', kind, found⟩ := Option.bind_eq_some_iff.mp found
    obtain ⟨text, isText, found⟩ := Option.bind_eq_some_iff.mp found
    obtain ⟨op', named, same⟩ := Option.bind_eq_some_iff.mp found
    cases same
    have spelled : op.lexeme = text := by simpa using List.find?_some named
    exact ⟨kind, spelled ▸ isText⟩
  · rintro ⟨kind, text⟩
    simp [operator?, kind, text, BinaryOp.ofLexeme?_lexeme]

theorem Jump.ofText?_eq_some_iff {text : String} {j : Jump} :
    ofText? text = some j ↔ text = j.name := by
  constructor
  · intro found
    unfold ofText? at found
    split at found <;> cases found <;> rfl
  · rintro rfl
    cases j <;> rfl

theorem Token.jump?_eq_some_iff {t : Token} {j : Jump} : t.jump? = some j ↔ t.Jumps j := by
  constructor
  · intro found
    unfold jump? at found
    split at found
    · next symbol =>
      obtain ⟨text, isText, word⟩ := Option.bind_eq_some_iff.mp found
      exact ⟨symbol, Jump.ofText?_eq_some_iff.mp word ▸ isText⟩
    · cases found
  · rintro ⟨symbol, text⟩
    simp only [jump?, if_pos symbol, text, Option.bind_some, Jump.ofText?_eq_some_iff]

end BracketScript
