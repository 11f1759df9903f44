import BracketScript.Proofs.Exactness

/-! Operands and operators in a row are grouped by the tiers of the operators. The grouping is
defined from the outside in, by the operator applied last; the parser works from the first operand
on. -/
namespace BracketScript
open Token (vocabulary)

structure Operation where
  tier : Tier
  op : BinaryOp
  operand : Tree

namespace Operation

def loosest? (os : List Operation) : Option Tier :=
  Tier.all.find? fun tier => os.any (·.tier = tier)

def splitFirst (tier : Tier) :
    List Operation → Option (List Operation × Operation × List Operation)
  | [] => none
  | o :: os =>
    if o.tier = tier then some ([], o, os)
    else (splitFirst tier os).map fun (before, chosen, behind) => (o :: before, chosen, behind)

def splitLast (tier : Tier) :
    List Operation → Option (List Operation × Operation × List Operation)
  | [] => none
  | o :: os =>
    match splitLast tier os with
    | some (before, chosen, behind) => some (o :: before, chosen, behind)
    | none => if o.tier = tier then some ([], o, os) else none

/-- Splits at an operator of the loosest tier: the first comparison, or the last of others. -/
def split? (os : List Operation) : Option (List Operation × Operation × List Operation) := do
  let tier ← loosest? os
  if tier = .comparison then splitFirst tier os else splitLast tier os

variable {os before behind : List Operation} {o : Operation} {tier : Tier}

theorem loosest?_le (found : loosest? os = some tier) : ∀ o ∈ os, tier.level ≤ o.tier.level := by
  intro o member
  obtain ⟨_, looser, tighter, all, absent⟩ := List.find?_eq_some_iff_append.mp found
  have present : os.any (·.tier = o.tier) = true :=
    List.any_eq_true.mpr ⟨o, member, decide_eq_true rfl⟩
  have ordered := Tier.pairwise_all
  have among := o.tier.mem_all
  rw [all] at ordered among
  rcases List.mem_append.mp among with early | late
  · have untied := absent _ early
    rw [present] at untied
    cases untied
  · rcases List.mem_cons.mp late with same | later
    · exact Nat.le_of_eq (congrArg Tier.level same.symm)
    · exact Nat.le_of_lt (List.rel_of_pairwise_cons (List.pairwise_append.mp ordered).2.1 later)

theorem splitFirst_eq_some (split : splitFirst tier os = some (before, o, behind)) :
    os = before ++ o :: behind ∧ o.tier = tier ∧ ∀ other ∈ before, other.tier ≠ tier := by
  induction os generalizing before with
  | nil => cases split
  | cons first os ih =>
    unfold splitFirst at split
    split at split
    · next here =>
      cases split
      exact ⟨rfl, here, by simp⟩
    · next elsewhere =>
      obtain ⟨⟨front, chosen, back⟩, further, same⟩ := Option.map_eq_some_iff.mp split
      cases same
      obtain ⟨rfl, here, others⟩ := ih further
      exact ⟨rfl, here, List.forall_mem_cons.mpr ⟨elsewhere, others⟩⟩

theorem splitFirst_eq_none (unsplit : splitFirst tier os = none) :
    ∀ other ∈ os, other.tier ≠ tier := by
  induction os with
  | nil => simp
  | cons first os ih =>
    unfold splitFirst at unsplit
    split at unsplit
    · cases unsplit
    · next elsewhere =>
      exact List.forall_mem_cons.mpr ⟨elsewhere, ih (Option.map_eq_none_iff.mp unsplit)⟩

theorem splitLast_eq_none (unsplit : splitLast tier os = none) :
    ∀ other ∈ os, other.tier ≠ tier := by
  induction os with
  | nil => simp
  | cons first os ih =>
    unfold splitLast at unsplit
    split at unsplit
    · cases unsplit
    · next further =>
      split at unsplit
      · cases unsplit
      · next elsewhere => exact List.forall_mem_cons.mpr ⟨elsewhere, ih further⟩

theorem splitLast_eq_some (split : splitLast tier os = some (before, o, behind)) :
    os = before ++ o :: behind ∧ o.tier = tier ∧ ∀ other ∈ behind, other.tier ≠ tier := by
  induction os generalizing before with
  | nil => cases split
  | cons first os ih =>
    unfold splitLast at split
    split at split
    · next front chosen back further =>
      cases split
      obtain ⟨rfl, here, others⟩ := ih further
      exact ⟨rfl, here, others⟩
    · next unsplit =>
      split at split
      · next here =>
        cases split
        exact ⟨rfl, here, splitLast_eq_none unsplit⟩
      · cases split

/-- The operators on both sides of the split are within the levels of its operands. -/
theorem split?_eq_some (split : split? os = some (before, o, behind)) :
    os = before ++ o :: behind ∧ (∀ other ∈ before, o.tier.leftLevel ≤ other.tier.level) ∧
      ∀ other ∈ behind, o.tier.rightLevel ≤ other.tier.level := by
  obtain ⟨tier, found, chosen⟩ := Option.bind_eq_some_iff.mp split
  have loosest := loosest?_le found
  split at chosen
  · next comparison =>
    obtain ⟨rfl, rfl, others⟩ := splitFirst_eq_some chosen
    obtain ⟨left, right⟩ := List.forall_mem_append.mp loosest
    obtain ⟨_, right⟩ := List.forall_mem_cons.mp right
    rw [Tier.leftLevel_eq, Tier.rightLevel_eq, if_pos comparison, if_pos comparison]
    exact ⟨rfl, fun other member => Tier.level_lt (left other member) (others other member), right⟩
  · next other =>
    obtain ⟨rfl, rfl, others⟩ := splitLast_eq_some chosen
    obtain ⟨left, right⟩ := List.forall_mem_append.mp loosest
    obtain ⟨_, right⟩ := List.forall_mem_cons.mp right
    rw [Tier.leftLevel_eq, Tier.rightLevel_eq, if_neg other, if_neg other]
    exact ⟨rfl, left, fun other member => Tier.level_lt (right other member) (others other member)⟩

theorem split?_eq_none (unsplit : split? os = none) : os = [] := by
  cases found : loosest? os with
  | none =>
    refine List.eq_nil_iff_forall_not_mem.mpr fun o member => ?_
    have absent := List.find?_eq_none.mp found o.tier o.tier.mem_all
    exact absent (List.any_eq_true.mpr ⟨o, member, decide_eq_true rfl⟩)
  | some tier =>
    have present : os.any (·.tier = tier) = true := by
      have here := List.find?_some found
      exact here
    obtain ⟨o, member, here⟩ := List.any_eq_true.mp present
    rw [split?, found, Option.bind_eq_bind, Option.bind_some] at unsplit
    split at unsplit
    · exact absurd (of_decide_eq_true here) (splitFirst_eq_none unsplit o member)
    · exact absurd (of_decide_eq_true here) (splitLast_eq_none unsplit o member)

/-- The tree of a row of operations: the operator at the split, applied to the trees of both
sides. -/
def group (first : Tree) (os : List Operation) : Tree :=
  match _found : split? os with
  | none => first
  | some (before, o, behind) => .binary o.op (group first before) (group o.operand behind)
termination_by os.length
decreasing_by
  all_goals
    have whole := congrArg List.length (split?_eq_some _found).1
    rw [List.length_append, List.length_cons] at whole
    omega

end Operation

/-- The tokens derive an operand, and another one after each operator. -/
inductive SpellsOperations : Tree → List Operation → List Token → Prop where
  | single {v : Tree} {us : List Token} : Derives (.unary v) us → SpellsOperations v [] us
  | more {o : Token} {tier : Tier} {op : BinaryOp} {v w : Tree} {os : List Operation}
      {us ts : List Token} : Derives (.unary v) us → o.Operates tier op →
      SpellsOperations w os ts → SpellsOperations v (⟨tier, op, w⟩ :: os) (us ++ o :: ts)

namespace SpellsOperations

variable {v w : Tree} {before behind os : List Operation} {o : Operation} {ts rest : List Token}

/-- A spelling splits at the token of every operation. -/
theorem split (spelled : SpellsOperations v (before ++ o :: behind) ts) :
    ∃ us t ws, ts = us ++ t :: ws ∧ SpellsOperations v before us ∧ t.Operates o.tier o.op ∧
      SpellsOperations o.operand behind ws := by
  induction before generalizing v ts with
  | nil =>
    cases spelled with
    | more first operates others => exact ⟨_, _, _, rfl, .single first, operates, others⟩
  | cons o' before ih =>
    cases spelled with
    | @more t _ _ _ _ _ us _ first operates others =>
      obtain ⟨us', t', ws, rfl, front, chosen, back⟩ := ih others
      exact ⟨us ++ t :: us', t', ws, by simp, .more first operates front, chosen, back⟩

/-- By induction on the number of operations, the grammar derives their grouping at every level that
admits all operators. -/
theorem derives (spelled : SpellsOperations v os ts) {level : Nat} (le : level ≤ 7)
    (tight : ∀ o ∈ os, level ≤ o.tier.level) :
    Derives (.expression level (Operation.group v os)) ts := by
  fun_induction Operation.group v os generalizing ts level with
  | case1 v os unsplit =>
    obtain rfl := Operation.split?_eq_none unsplit
    cases spelled with
    | single operand => exact (Derives.operand operand).loosen le
  | case2 v os before o behind found left right =>
    obtain ⟨rfl, looser, tighter⟩ := Operation.split?_eq_some found
    obtain ⟨us, t, ws, rfl, front, operates, back⟩ := spelled.split
    have first := left front o.tier.leftLevel_le looser
    have second := right back o.tier.rightLevel_le tighter
    exact (Derives.binary first operates second).loosen (tight o (by simp))

end SpellsOperations

/-- The rest neither continues the last operand nor starts with an operator. -/
structure EndsOperations (rest : List Token) : Prop where
  operator : ∀ t ∈ rest.head?, ∀ tier op, ¬ t.Operates tier op
  kind : ∀ t ∈ rest.head?, t.kind ∉ [.leftBracket, .period, .inc, .dec]

theorem EndsOperations.operator_eq_none {rest : List Token} (ends : EndsOperations rest) :
    (vocabulary.ahead rest).operator = none := by
  cases rest with
  | nil => rfl
  | cons t rest =>
    refine Option.eq_none_iff_forall_ne_some.mpr fun (tier, op) operates => ?_
    exact ends.operator t rfl tier op (Token.operator?_eq_some_iff.mp operates)

theorem EndsOperations.endsOperand {rest : List Token} (ends : EndsOperations rest) :
    (vocabulary.ahead rest).EndsOperand := by
  cases rest with
  | nil => exact Cue.eof_delimits.endsOperand
  | cons t rest =>
    have kind := ends.kind t rfl
    simp only [List.mem_cons, List.not_mem_nil, or_false, not_or] at kind
    obtain ⟨bracket, period, inc, dec⟩ := kind
    exact ⟨⟨period, bracket⟩, inc, dec⟩

/-- The reader accepts a derived expression and stops right after it. -/
theorem Reader.expression_of_derives {n : Tree} {ts rest : List Token} (sentinel : Token)
    (derived : Derives (.expression 1 n) ts) (ends : EndsOperations rest) :
    Reader.expression ⟨ts ++ rest, sentinel⟩ = (.ok n, ⟨rest, sentinel⟩) := by
  have operatorless := ends.operator_eq_none
  have level : (vocabulary.ahead rest).EndsLevel 1 := by
    intro tier op operates
    rw [operatorless] at operates
    cases operates
  have ran : Config.expression.run vocabulary (ts ++ rest) = (.ok [n], rest) := by
    rw [Config.expression, derived.isRead .expression [] rest 1 rfl (Nat.le_refl 1)
      ends.endsOperand level, Frame.arrive, Frame.deliver_expression operatorless]
    rfl
  simp [Reader.expression, Reader.expression?, Reader.read, ran, Except.map]

/-- Any row of operands and operators is read to the tree that `Operation.group` computes from the
tiers alone, with nothing consumed beyond it. -/
theorem expression_grouped {v : Tree} {os : List Operation} {ts rest : List Token}
    (spelled : SpellsOperations v os ts) (ends : EndsOperations rest) (sentinel : Token) :
    Reader.expression ⟨ts ++ rest, sentinel⟩ = (.ok (Operation.group v os), ⟨rest, sentinel⟩) := by
  have derived : Derives (.expression 1 (Operation.group v os)) ts :=
    spelled.derives (by decide) fun o _ => o.tier.level_pos
  exact Reader.expression_of_derives sentinel derived ends

theorem expression_grouped_mixed :
    let x : Token := ⟨.symbol, .text "x", 1, 1, 1⟩
    let lt : Token := ⟨.lt, .text "<", 1, 2, 1⟩
    let sub : Token := ⟨.minus, .text "-", 1, 3, 1⟩
    let inc : Token := ⟨.inc, .text "++", 1, 4, 2⟩
    let ne : Token := ⟨.equality, .text "!=", 1, 5, 2⟩
    let rest : List Token := [⟨.rightBracket, .text "]", 1, 6, 1⟩]
    let n : Tree := .leaf x
    let os : List Operation := [⟨.comparison, .lt, n⟩, ⟨.sum, .sub, .unary .negative n⟩,
      ⟨.sum, .sub, .unary .postInc n⟩, ⟨.comparison, .lt, n⟩, ⟨.equality, .ne, n⟩]
    let ts := [x, lt, x, sub, sub, x, sub, x, inc, lt, x, ne, x]
    SpellsOperations n os ts ∧ EndsOperations rest ∧
      Reader.expression ⟨ts ++ rest, .sentinel []⟩ =
        (.ok (.binary .ne (.binary .lt n (.binary .lt (.binary .sub
          (.binary .sub n (.unary .negative n)) (.unary .postInc n)) n)) n),
          ⟨rest, .sentinel []⟩) := by
  intro x lt sub inc ne rest n os ts
  have leaf : Derives (.atom n) [x] := .accessless (.leaf rfl)
  have bare : Derives (.unary n) [x] := .bare leaf
  have negative : Derives (.unary (.unary .negative n)) [sub, x] := .front rfl leaf
  have step : Derives (.unary (.unary .postInc n)) [x, inc] := .back rfl rfl
  have spelled : SpellsOperations n os ts :=
    .more (o := lt) bare ⟨rfl, rfl⟩ <| .more (o := sub) bare ⟨rfl, rfl⟩ <|
      .more (o := sub) negative ⟨rfl, rfl⟩ <| .more (o := lt) step ⟨rfl, rfl⟩ <|
      .more (o := ne) bare ⟨rfl, rfl⟩ <| .single bare
  have ends : EndsOperations rest := by
    constructor
    · rintro t ⟨⟩ tier op ⟨kind, _⟩
      cases kind
    · rintro t ⟨⟩
      decide
  have grouped : Operation.group n os = .binary .ne (.binary .lt n (.binary .lt (.binary .sub
      (.binary .sub n (.unary .negative n)) (.unary .postInc n)) n)) n := by cbv
  rw [← grouped]
  exact ⟨spelled, ends, expression_grouped spelled ends _⟩

end BracketScript
