import BracketScript.Proofs.Moves

/-! The invariant of a run. The focus demands the rest of one phrase from the tokens left, and each
frame, from the innermost out, demands the rest of its own. The demands follow the grammar, and at
the start of a program the demand is a derivation. -/
namespace BracketScript
open Token (vocabulary)

/-- The tokens extend the expression `n` by operators and operands to the expression `m`, at a level
no looser than `loosest`. -/
inductive Extends (loosest : Nat) : Nat → Tree → List Token → Tree → Prop where
  | done {level : Nat} {n : Tree} : loosest ≤ level → Extends loosest level n [] n
  | more {level : Nat} {o : Token} {tier : Tier} {op : BinaryOp} {n m right : Tree}
      {us ts : List Token} : o.Operates tier op → tier.leftLevel ≤ level →
      Derives (.expression tier.rightLevel right) ts →
      Extends loosest tier.level (.binary op n right) us m →
      Extends loosest level n (o :: (ts ++ us)) m

theorem Extends.derives {loosest level : Nat} {n m : Tree} {us ts : List Token}
    (further : Extends loosest level n us m) (derived : Derives (.expression level n) ts) :
    Derives (.expression loosest m) (ts ++ us) := by
  induction further generalizing ts with
  | done le => rw [List.append_nil]; exact derived.loosen le
  | @more level o tier op n m right us ts' operates le right_derived _ ih =>
    have := ih (.binary (derived.loosen le) operates right_derived)
    rwa [List.append_assoc, List.cons_append] at this

/-- The tokens derive the phrase of a node, or are none without a node. -/
def Optionally (phrase : Tree → Phrase) : Option Tree → List Token → Prop
  | none, us => us = []
  | some n, us => Derives (phrase n) us

def ReadsAccess (p : Tree) (us : List Token) (n : Option Tree) : Prop :=
  ∃ m, n = some m ∧ ∀ ts, Derives (.primary p) ts → Derives (.atom m) (ts ++ us)

namespace Header

def ReadsBehind (h : Header String Token) (body : List Tree) (us : List Token)
    (n : Option Tree) : Prop :=
  match h with
  | lambda _ => ReadsAccess (h.node body) us n
  | _ => us = [] ∧ n = some (h.node body)

def Reads (h : Header String Token) (us : List Token) (n : Option Tree) : Prop :=
  ∃ body ts us', us = ts ++ us' ∧ Derives (.body body) ts ∧ h.ReadsBehind body us' n

end Header

/-- `(',' symbol)* ']'`, and the body of the owner. -/
def ReadsFurtherParameters (owner : Option String) (before : List String) (us : List Token)
    (n : Option Tree) : Prop :=
  ∃ ps ts r us', us = ts ++ r :: us' ∧ FurtherParameters ps ts ∧ r.kind = .rightBracket ∧
    (Header.ofParameters owner (before ++ ps)).Reads us' n

/-- `symbol (',' symbol)* ']'`, and the body of the owner. -/
def ReadsParameters (owner : Option String) (before : List String) (us : List Token)
    (n : Option Tree) : Prop :=
  ∃ t us', us = t :: us' ∧ t.kind = .symbol ∧
    ReadsFurtherParameters owner (before ++ [t.payload.display]) us' n

/-- `(symbol (',' symbol)*)? ']'`, and the body of the owner. -/
def ReadsAllParameters (owner : Option String) (us : List Token) (n : Option Tree) : Prop :=
  (∃ r us', us = r :: us' ∧ r.kind = .rightBracket ∧ (Header.ofParameters owner []).Reads us' n) ∨
    ReadsParameters owner [] us n

/-- `(sep+ symbol)* sep* ']'` -/
def ReadsFurtherNames (before : List String) (us : List Token) (n : Option Tree) : Prop :=
  ∃ names ts es r, us = ts ++ (es ++ [r]) ∧ FurtherNames names ts ∧ Separators es ∧
    r.kind = .rightBracket ∧ n = some (.enumeration (before ++ names))

/-- `sep* symbol (sep+ symbol)* sep* ']'`, or only `sep* ']'` behind a name. -/
def ReadsNames (before : List String) (us : List Token) (n : Option Tree) : Prop :=
  ∃ ss t us', us = ss ++ t :: us' ∧ Separators ss ∧
    (t.kind = .symbol ∧ ReadsFurtherNames (before ++ [t.payload.display]) us' n ∨
      before ≠ [] ∧ t.kind = .rightBracket ∧ us' = [] ∧ n = some (.enumeration before))

/-- What a focus reads, and the node it makes of it. -/
def Focus.Reads : Focus String Token → List Token → Option Tree → Prop
  | .statement, us, n => Derives (.statementOption n) us
  | .operand, us, n => Optionally .unary n us
  | .atom bangs, us, n => Optionally (if bangs then .banged else .atom) n us
  | .symbol t jump, us, n => t.kind = .symbol → t.jump? = jump →
      ∃ m, n = some m ∧ Derives (.statement m) (t :: us)
  | .leaf t, us, n => t.kind.isLeaf = true → ∃ m, n = some m ∧ Derives (.unary m) (t :: us)
  | .primary p, us, n => ReadsAccess p us n
  | .whole m, us, n => us = [] ∧ n = some m
  | .await kind next, us, n => ∃ t us', us = t :: us' ∧ t.kind = kind ∧ next.Reads us' n
  | .functionName, us, n => ∃ t l us', us = t :: l :: us' ∧ t.kind = .symbol ∧
      l.kind = .leftBracket ∧ ReadsAllParameters (some t.payload.display) us' n
  | .bindingName, us, n => ∃ t a us' value, us = t :: a :: us' ∧ t.kind = .symbol ∧
      a.kind = .assign ∧ Derives (.expression 1 value) us' ∧
      n = some (.binding t.payload.display value)
  | .parameterFirst owner, us, n => ReadsAllParameters owner us n
  | .parameterNext owner before, us, n => ReadsParameters owner before us n
  | .parameterEnd owner before, us, n => ReadsFurtherParameters owner before us n
  | .enumGap names, us, n => ReadsNames names us n
  | .enumEnd names, us, n => ReadsFurtherNames names us n

/-- First what is read for a node, then what is demanded after it. -/
def ReadsThen (reads : List Token → Option Tree → Prop) (demand : Option Tree → List Token → Prop)
    (ts : List Token) : Prop :=
  ∃ us us' n, ts = us ++ us' ∧ reads us n ∧ demand n us'

section Loop

variable (demand : Option Tree → List Token → Prop)

/-- `']'` and the body of a loop. -/
def ClosesStep (init test step : Option Tree) (ts : List Token) : Prop :=
  ∃ r us, ts = r :: us ∧ r.kind = .rightBracket ∧
    ReadsThen (Header.loop init test step).Reads demand us

/-- `';' stmt? ']'` and the body of a loop. -/
def ClosesTest (init test : Option Tree) (ts : List Token) : Prop :=
  ∃ s us us' step, ts = s :: (us ++ us') ∧ s.kind = .semicolon ∧
    Derives (.statementOption step) us ∧ ClosesStep demand init test step us'

/-- `';' expr? ';' stmt? ']'` and the body of a loop. -/
def ClosesInit (init : Option Tree) (ts : List Token) : Prop :=
  ∃ s us us' test, ts = s :: (us ++ us') ∧ s.kind = .semicolon ∧
    Derives (.expressionOption test) us ∧ ClosesTest demand init test us'

end Loop

section Demands

variable (nodes : List Tree) (rest : List Token)

/-- The demand of frames on a delivered node of a level and on the tokens after it, up to the nodes
returned and the tokens left. -/
def Closes : List (Frame String Token) → Nat → Option Tree → List Token → Prop
  | [], _, n, ts => nodes = n.toList ∧ rest = ts
  | .wrap w :: outer, _, n, ts => ∃ m, n = some m ∧ Closes outer 7 (some (w.node m)) ts
  | .binary tier op left :: outer, level, n, ts => ∃ m right us us', n = some m ∧
      ts = us ++ us' ∧ Extends tier.rightLevel level m us right ∧
      Closes outer tier.level (some (.binary op left right)) us'
  | .expression :: outer, _, none, ts => Closes outer 7 none ts
  | .expression :: outer, level, some m, ts => ∃ whole us us', ts = us ++ us' ∧
      Extends 1 level m us whole ∧ Closes outer 7 (some whole) us'
  | .list before :: outer, _, none, ts => before = [] ∧ ∃ r us, ts = r :: us ∧
      r.kind = .rightBracket ∧ ReadsThen (ReadsAccess (.list [])) (Closes outer 7) us
  | .list before :: outer, _, some m, ts => ∃ ns us r us', ts = us ++ r :: us' ∧
      Derives (.furtherElements ns) us ∧ r.kind = .rightBracket ∧
      ReadsThen (ReadsAccess (.list (before ++ m :: ns))) (Closes outer 7) us'
  | .condition guard :: outer, _, n, ts => ∃ m r us, n = some m ∧ ts = r :: us ∧
      r.kind = .rightBracket ∧ ReadsThen (Header.guarded guard m).Reads (Closes outer 7) us
  | .loopInit :: outer, _, n, ts => ClosesInit (Closes outer 7) n ts
  | .loopCondition init :: outer, _, n, ts => ClosesTest (Closes outer 7) init n ts
  | .loopStep init test :: outer, _, n, ts => ClosesStep (Closes outer 7) init test n ts
  | .body header before :: outer, _, n, ts => ∃ ns us r us', ts = us ++ r :: us' ∧
      Derives (.furtherStatements ns) us ∧ r.kind = .rightBracket ∧
      ReadsThen (header.ReadsBehind (before ++ (n.toList ++ ns))) (Closes outer 7) us'
  | .program before :: _, _, n, ts => ∃ ns us, ts = us ++ rest ∧
      Derives (.furtherStatements ns) us ∧ (vocabulary.ahead rest).kind = .eof ∧
      nodes = before ++ (n.toList ++ ns)

def Completes (config : Config String Token) (ts : List Token) : Prop :=
  ReadsThen config.focus.Reads (Closes nodes rest config.frames 7) ts

end Demands

/-- The innermost frame admits operands of the level. -/
def Fits (frames : List (Frame String Token)) (level : Nat) : Prop :=
  ∀ loosest ∈ frames.head?.bind Frame.level?, loosest ≤ level

/-- Every pending operator fits the frame around it. -/
def Ordered : List (Frame String Token) → Prop
  | [] => True
  | .binary tier _ _ :: outer => Fits outer tier.level ∧ Ordered outer
  | _ :: outer => Ordered outer

@[simp] theorem ordered_cons_iff {frame : Frame String Token} {outer : List (Frame String Token)}
    (loose : frame.level? = none ∨ frame = .expression) :
    Ordered (frame :: outer) ↔ Ordered outer := by
  cases frame <;> first | rfl | simp [Frame.level?] at loose

theorem Ordered.tail {frame : Frame String Token} {outer : List (Frame String Token)}
    (ordered : Ordered (frame :: outer)) : Ordered outer := by
  cases frame <;> first | exact ordered | exact ordered.2

theorem fits_operand (frames : List (Frame String Token)) : Fits frames 7 := by
  intro loosest found
  obtain ⟨frame, _, waits⟩ := Option.bind_eq_some_iff.mp found
  cases frame with
  | binary tier _ _ => cases waits; exact tier.rightLevel_le
  | expression => cases waits; decide
  | _ => cases waits

theorem ReadsAllParameters.parameters {owner : Option String} {l : Token} {us : List Token}
    {n : Option Tree} (open_ : l.kind = .leftBracket) (reads : ReadsAllParameters owner us n) :
    ∃ ps ts us', l :: us = ts ++ us' ∧ Parameters ps ts ∧
      (Header.ofParameters owner ps).Reads us' n := by
  rcases reads with ⟨r, us', rfl, close, reads⟩ | ⟨t, _, rfl, symbol, ps, ts, r, us', rfl, further,
    close, reads⟩
  · exact ⟨[], [l, r], us', rfl, .none open_ close, reads⟩
  · exact ⟨_, l :: t :: (ts ++ [r]), us', by simp, .some open_ symbol further close, reads⟩

namespace Completes

variable {nodes : List Tree} {rest ts : List Token} {frames : List (Frame String Token)}

theorem await {kind : Kind} {next : Focus String Token}
    (complete : Completes nodes rest ⟨.await kind next, frames⟩ ts) :
    ∃ t us, ts = t :: us ∧ t.kind = kind ∧ Completes nodes rest ⟨next, frames⟩ us := by
  obtain ⟨_, us', n, rfl, ⟨t, us, rfl, is, reads⟩, closes⟩ := complete
  exact ⟨t, us ++ us', rfl, is, us, us', n, rfl, reads, closes⟩

theorem expressionOption (complete : Completes nodes rest ⟨.operand, .expression :: frames⟩ ts) :
    ReadsThen (fun us n => Derives (.expressionOption n) us) (Closes nodes rest frames 7) ts := by
  obtain ⟨us, us', n, rfl, read, closes⟩ := complete
  cases n with
  | none =>
    cases (read : us = [])
    exact ⟨[], us', none, rfl, .noExpression, closes⟩
  | some m =>
    obtain ⟨whole, vs, vs', rfl, further, closes⟩ := closes
    have derived := further.derives (.operand read)
    exact ⟨us ++ vs, vs', some whole, (List.append_assoc ..).symm, .someExpression derived, closes⟩

theorem wrapped {w : Wrapper String Token}
    (complete : Completes nodes rest ⟨.operand, .expression :: .wrap w :: frames⟩ ts) :
    ∃ value us us', ts = us ++ us' ∧ Derives (.expression 1 value) us ∧
      Closes nodes rest frames 7 (some (w.node value)) us' := by
  obtain ⟨us, us', n, rfl, read, value, rfl, closes⟩ := complete.expressionOption
  cases read with
  | someExpression read => exact ⟨value, us, us', rfl, read, closes⟩

theorem element {before : List Tree} (nonempty : before ≠ [])
    (complete : Completes nodes rest ⟨.operand, .expression :: .list before :: frames⟩ ts) :
    ∃ n us us', ts = us ++ us' ∧ Derives (.expression 1 n) us ∧
      Closes nodes rest (.list before :: frames) 7 (some n) us' := by
  obtain ⟨us, us', n, rfl, read, closes⟩ := complete.expressionOption
  cases read with
  | noExpression => exact absurd closes.1 nonempty
  | someExpression read => exact ⟨_, us, us', rfl, read, closes⟩

theorem list {l : Token} (bracket : l.kind = .leftBracket)
    (complete : Completes nodes rest ⟨.operand, .expression :: .list [] :: frames⟩ ts) :
    ∃ m us us', ts = us ++ us' ∧ Derives (.atom m) (l :: us) ∧
      Closes nodes rest frames 7 (some m) us' := by
  obtain ⟨us, us', n, rfl, read, closes⟩ := complete.expressionOption
  cases read with
  | noExpression =>
    obtain ⟨_, r, vs, rfl, close, ws, ws', _, rfl, ⟨m, rfl, access⟩, closes⟩ := closes
    exact ⟨m, r :: ws, ws', rfl, access _ (.emptyList bracket close), closes⟩
  | someExpression read =>
    obtain ⟨ns, vs, r, us', rfl, further, close, ws, ws', _, rfl, ⟨m, rfl, access⟩, closes⟩ :=
      closes
    refine ⟨m, us ++ (vs ++ r :: ws), ws', by simp, ?_, closes⟩
    simpa using access _ (.list bracket read further close)

theorem closed {header : Header String Token} {ns : List Tree}
    (complete : Completes nodes rest ⟨header.close ns, frames⟩ ts) :
    ReadsThen (header.ReadsBehind ns) (Closes nodes rest frames 7) ts := by
  cases header <;> exact complete

theorem body {header : Header String Token} (complete : Completes nodes rest
      ⟨.await .leftBracket .statement, .body header [] :: frames⟩ ts) :
    ReadsThen header.Reads (Closes nodes rest frames 7) ts := by
  obtain ⟨_, us', n, rfl, ⟨l, us, rfl, open_, first⟩, closes⟩ := complete
  obtain ⟨ns, vs, r, vs', rfl, further, close, ws, ws', m, rfl, behind, closes⟩ := closes
  have derived := Derives.body open_ (.statements first further) close
  exact ⟨l :: (us ++ vs ++ [r]) ++ ws, ws', m, by simp, ⟨_, _, ws, rfl, derived, behind⟩, closes⟩

end Completes

end BracketScript
