import BracketScript.Grammar.Run
import BracketScript.Proofs.Derivation

/-! A run is the move of its state, made of the cue ahead, and then what the move leads to.
The laws of this module say it for each kind of move, and for the delivery of a node at a
cue that ends the phrase around it. -/
namespace BracketScript

variable {ν τ : Type}

/-- The cue of the next token, or of the end. -/
def Vocabulary.ahead (v : Vocabulary ν τ) : List τ → Cue
  | [] => .eof
  | t :: _ => v.cue t

namespace Move

def resume (v : Vocabulary ν τ) :
    Move ν τ → List τ → Except Expected (List (Node ν τ)) × List τ
  | accept nodes, ts => (.ok nodes, ts)
  | reject expected, ts => (.error expected, ts)
  | shift _, [] => (.error (.kind .eof), [])
  | shift next, t :: ts => (next t).run v ts

end Move

variable {v : Vocabulary ν τ} {ts rest : List τ} {nodes : List (Node ν τ)}

theorem Config.run_eq (config : Config ν τ) (ts : List τ) :
    config.run v ts = (config.step v.name (v.ahead ts)).resume v ts := by
  cases ts <;> simp only [run, Vocabulary.ahead] <;> split <;> simp only [Move.resume, *]

namespace Move

theorem resume_shift_ok_iff {next : τ → Config ν τ} :
    (shift next).resume v ts = (.ok nodes, rest) ↔
      ∃ t us, ts = t :: us ∧ (next t).run v us = (.ok nodes, rest) := by
  cases ts with
  | nil => simp [resume]
  | cons t ts =>
    constructor
    · exact fun ran => ⟨t, ts, rfl, ran⟩
    · rintro ⟨_, _, same, ran⟩
      cases same
      exact ran

theorem resume_when_ok_iff {c : Cue} {kind : Kind} {move : Move ν τ} :
    (Move.when c kind move).resume v ts = (.ok nodes, rest) ↔
      c.kind = kind ∧ move.resume v ts = (.ok nodes, rest) := by
  unfold Move.when
  split <;> simp [resume, *]

theorem resume_given_ok_iff {node : Option (Node ν τ)} {move : Node ν τ → Move ν τ} :
    (given node move).resume v ts = (.ok nodes, rest) ↔
      ∃ n, node = some n ∧ (move n).resume v ts = (.ok nodes, rest) := by
  cases node <;> simp [given, resume]

end Move

/-- Continues after the delivery of a complete node. -/
def Frame.arrive (v : Vocabulary ν τ) (node : Option (Node ν τ)) (frames : List (Frame ν τ))
    (ts : List τ) : Except Expected (List (Node ν τ)) × List τ :=
  (deliver (v.ahead ts) node frames).resume v ts

theorem Frame.arrive_wrap (w : Wrapper ν τ) (n : Node ν τ) (frames : List (Frame ν τ))
    (ts : List τ) :
    arrive v (some n) (wrap w :: frames) ts = arrive v (some (w.node n)) frames ts :=
  rfl

/-- The loosest level of the operands that a frame waits for. -/
def Frame.level? : Frame ν τ → Option Nat
  | binary tier .. => some tier.rightLevel
  | expression => some 1
  | _ => none

/-- The cue ends statements and expressions. -/
structure Cue.Delimits (c : Cue) : Prop where
  kind : c.kind = .newline ∨ c.kind = .semicolon ∨ c.kind = .comma ∨ c.kind = .rightBracket ∨
    c.kind = .eof
  operator : c.operator = none

structure Cue.EndsAtom (c : Cue) : Prop where
  period : c.kind ≠ .period
  bracket : c.kind ≠ .leftBracket

/-- Only a binary operator could continue the operand. -/
structure Cue.EndsOperand (c : Cue) : Prop extends c.EndsAtom where
  inc : c.kind ≠ .inc
  dec : c.kind ≠ .dec

def Cue.EndsLevel (c : Cue) (level : Nat) : Prop :=
  ∀ tier op, c.operator = some (tier, op) → tier.leftLevel ≤ level

theorem Cue.Delimits.endsOperand {c : Cue} (delimits : c.Delimits) : c.EndsOperand := by
  obtain ⟨kind, _⟩ := delimits
  constructor
  · constructor <;> rcases kind with kind | kind | kind | kind | kind <;> simp [kind]
  all_goals rcases kind with kind | kind | kind | kind | kind <;> simp [kind]

theorem Cue.Delimits.endsLevel {c : Cue} (delimits : c.Delimits) (level : Nat) :
    c.EndsLevel level := by
  intro tier op operates
  rw [delimits.operator] at operates
  cases operates

@[simp] theorem Token.cue_kind (t : Token) : t.cue.kind = t.kind := rfl

@[simp] theorem Token.ahead_cons (t : Token) (ts : List Token) :
    Token.vocabulary.ahead (t :: ts) = t.cue := rfl

theorem Token.ahead_append {d : Token} {us : List Token} (first : d ∈ us.head?) (ts : List Token) :
    Token.vocabulary.ahead (us ++ ts) = d.cue := by
  cases us with
  | nil => cases first
  | cons u us => cases first; rfl

@[simp] theorem Token.vocabulary_name (t : Token) :
    Token.vocabulary.name t = t.payload.display := rfl

theorem Cue.eof_delimits : Cue.eof.Delimits := ⟨by simp [eof], rfl⟩

theorem Token.operator?_eq_none {t : Token} (kind : t.kind.tier? = none) : t.operator? = none := by
  simp [operator?, kind]

theorem Token.delimits {t : Token} (kind : t.kind = .newline ∨ t.kind = .semicolon ∨
    t.kind = .comma ∨ t.kind = .rightBracket ∨ t.kind = .eof) : t.cue.Delimits := by
  refine ⟨kind, operator?_eq_none ?_⟩
  rcases kind with kind | kind | kind | kind | kind <;> rw [kind] <;> rfl

/-- An operator ends the operand before it. -/
theorem Token.Operates.endsOperand {o : Token} {tier : Tier} {op : BinaryOp}
    (operates : o.Operates tier op) : o.cue.EndsOperand := by
  have differs {kind : Kind} (operatorless : kind.tier? = none) : o.kind ≠ kind := by
    intro same
    cases (same ▸ operates.kind).symm.trans operatorless
  exact ⟨⟨differs rfl, differs rfl⟩, differs rfl, differs rfl⟩

namespace Frame

variable {frames : List (Frame ν τ)} {c : Cue}

/-- At an operator a node becomes its left operand, provided the innermost frame admits that
level. -/
theorem deliver_operator {frame : Frame ν τ} {level : Nat} {tier : Tier} {op : BinaryOp}
    (waits : frame.level? = some level) (le : level ≤ tier.level)
    (operator : c.operator = some (tier, op)) (n : Node ν τ) :
    deliver c (some n) (frame :: frames) =
      .skip .operand (binary tier op n :: frame :: frames) := by
  cases frame with
  | binary tier' op' left =>
    cases waits
    have taken : c.taking? tier' = some (tier, op) := by
      simp [Cue.taking?, operator, Option.filter, (Tier.yieldsTo_iff _ _).mpr le]
    simp [deliver, Move.given, taken]
  | expression => simp [deliver, Move.given, operator]
  | _ => cases waits

/-- At any other cue an operation is completed by its right operand and delivered further out. -/
theorem deliver_binary {tier : Tier} (ends : c.EndsLevel tier.level) (op : BinaryOp)
    (left right : Node ν τ) :
    deliver c (some right) (binary tier op left :: frames) =
      deliver c (some (.binary op left right)) frames := by
  have kept : c.taking? tier = none := by
    refine Option.filter_eq_none_iff.mpr fun ⟨next, nextOp⟩ operates takes => ?_
    exact (Tier.leftLevel_le_iff _ _).mp (ends next nextOp operates) takes
  simp [deliver, Move.given, kept]

theorem deliver_expression (operatorless : c.operator = none) (node : Option (Node ν τ)) :
    deliver c node (expression :: frames) = deliver c node frames := by
  simp [deliver, operatorless]

def Collects (make : List (Node ν τ) → Frame ν τ) : Prop :=
  make = program ∨ ∃ header, make = body header

theorem Collects.deliver_separator {make : List (Node ν τ) → Frame ν τ} (collects : Collects make)
    (separator : c.kind.isSeparator = true) (node : Option (Node ν τ)) (before : List (Node ν τ)) :
    deliver c node (make before :: frames) =
      .skip .statement (make (before ++ node.toList) :: frames) := by
  obtain rfl | ⟨header, rfl⟩ := collects <;> simp [deliver, separator]

theorem Collects.deliver_joined {make : List (Node ν τ) → Frame ν τ} (collects : Collects make)
    (node : Option (Node ν τ)) (before : List (Node ν τ)) :
    deliver c node (make before :: frames) =
      deliver c none (make (before ++ node.toList) :: frames) := by
  obtain rfl | ⟨header, rfl⟩ := collects <;> simp [deliver]

/-- No operand starts at a delimiter. -/
theorem startOperand_delimits (delimits : c.Delimits) :
    startOperand c frames = deliver c none frames := by
  rcases delimits.kind with kind | kind | kind | kind | kind <;>
    simp [startOperand, startAtom, kind, Kind.isLeaf]

theorem startStatement_delimits (delimits : c.Delimits) :
    startStatement c frames = deliver c none frames := by
  rw [← deliver_expression delimits.operator, ← startOperand_delimits delimits]
  rcases delimits.kind with kind | kind | kind | kind | kind <;> simp [startStatement, kind]

end Frame

end BracketScript
