import BracketScript.Proofs.Listings
import BracketScript.Proofs.Statistics

/-! A trace records the events of a walk, each by the kind of a node or the size of a body. The
sizes are those of all bodies, each opened once. -/
namespace BracketScript

variable {ν τ : Type}

/-- The events have equal marks: they enter nodes of one kind, or open bodies of one size. -/
inductive Event.Alike : Event ν Token → Event ν Token → Prop where
  | enter {n m : Node ν Token} : n.kindName = m.kindName → Alike (.enter n) (.enter m)
  | leave : Alike .leave .leave
  | openBody {size : Nat} : Alike (.openBody size) (.openBody size)
  | closeBody : Alike .closeBody .closeBody

namespace Event

theorem mark_eq_iff {e e' : Event ν Token} : e.mark = e'.mark ↔ e.Alike e' := by
  constructor
  · intro same
    have inside := congrArg String.toList same
    cases e <;> cases e' <;> simp [mark] at inside
    · exact .enter (String.toList_inj.mp inside)
    · exact .leave
    · obtain rfl := Text.toDigits_inj (by decide) (by decide) inside
      exact .openBody
    · exact .closeBody
  · rintro (kind | _ | _ | _)
    · rw [mark, mark, kind]
    all_goals rfl

theorem mark_ne_empty (e : Event ν Token) : e.mark ≠ "" := by
  intro empty
  have inside := congrArg String.toList empty
  cases e <;> simp [mark] at inside

theorem space_not_mem_mark (e : Event ν Token) : ' ' ∉ e.mark.toList := by
  cases e with
  | enter n =>
    have kind : ' ' ∉ n.kindName.toList := by
      cases n with
      | guarded guard => cases guard <;> simp [Node.kindName, Guard.name]
      | jump j => cases j <;> simp [Node.kindName, Jump.name]
      | unary op => cases op <;> simp [Node.kindName, UnaryOp.name]
      | binary op => cases op <;> simp [Node.kindName, BinaryOp.lexeme]
      | leaf token => exact token.kind.space_not_mem_name
      | _ => simp [Node.kindName]
    simp [mark, kind]
  | openBody size =>
    have digits : ' ' ∉ Nat.toDigits 10 size := not_mem_digits rfl size
    simp [mark, digits]
  | leave | closeBody => simp [mark]

end Event

/-- Equal traces mean walks with events alike in order. -/
theorem Program.trace_eq_iff (p q : Program) :
    p.trace = q.trace ↔ p.walk.Forall₂ Event.Alike q.walk := by
  have free (p : Program) : ∀ m ∈ p.walk.map Event.mark, ' ' ∉ m.toList :=
    List.forall_mem_map.mpr fun e _ => e.space_not_mem_mark
  have filled (p : Program) : "" ∉ p.walk.map Event.mark := by
    simp [Event.mark_ne_empty]
  have marks : p.trace = q.trace ↔ p.walk.map Event.mark = q.walk.map Event.mark :=
    ⟨Text.intercalate_inj (free p) (free q) (filled p) (filled q), congrArg _⟩
  simp only [marks, ← List.forall₂_eq_eq_eq, List.forall₂_map_left_iff, List.forall₂_map_right_iff,
    Event.mark_eq_iff]

namespace Node

def bodySize? : Node ν τ → Option Nat
  | block body | function _ _ body | lambda _ body | guarded _ _ body | loop _ _ _ body =>
    some body.length
  | _ => none

end Node

def openedSizes (walk : List (Event ν τ)) : List Nat :=
  walk.filterMap fun
    | .openBody size => some size
    | _ => none

section Walks

variable (w w' : List (Event ν τ))

@[simp] theorem openedSizes_nil : openedSizes ([] : List (Event ν τ)) = [] := rfl

@[simp] theorem openedSizes_enter (n : Node ν τ) :
    openedSizes (.enter n :: w) = openedSizes w := rfl

@[simp] theorem openedSizes_leave : openedSizes (.leave :: w) = openedSizes w := rfl

@[simp] theorem openedSizes_append :
    openedSizes (w ++ w') = openedSizes w ++ openedSizes w' := List.filterMap_append

@[simp] theorem openedSizes_bodyWalk (size : Nat) :
    openedSizes (Node.bodyWalk size w) = size :: openedSizes w := by
  simp [openedSizes, Node.bodyWalk]

end Walks

namespace Node

def OpensBodies (n : Node ν τ) : Prop := (openedSizes n.walk).Perm (n.nodes.filterMap bodySize?)

theorem openedSizes_listWalk {ns : List (Node ν τ)} (opens : ∀ n ∈ ns, n.OpensBodies) :
    (openedSizes (listWalk ns)).Perm ((ns.flatMap nodes).filterMap bodySize?) := by
  induction ns with
  | nil => rfl
  | cons n ns ih =>
    obtain ⟨first, others⟩ := List.forall_mem_cons.mp opens
    rw [listWalk, openedSizes_append, List.flatMap_cons, List.filterMap_append]
    exact first.append (ih others)

theorem openedSizes_optionWalk {part : Option (Node ν τ)} (opens : ∀ n ∈ part, n.OpensBodies) :
    (openedSizes (optionWalk part)).Perm ((part.toList.flatMap nodes).filterMap bodySize?) := by
  cases part with
  | none => rfl
  | some n => simpa [optionWalk, OpensBodies] using opens n rfl

theorem opensBodies (n : Node ν τ) : n.OpensBodies := by
  induction n using children_induction with
  | step n ih =>
    rw [OpensBodies, nodes_eq, walk.eq_def]
    cases n with
    | block body | function _ _ body | lambda _ body =>
      have inner : ∀ m ∈ body, m.OpensBodies := by simpa [children, parts] using ih
      simpa [children, parts, bodySize?, Function.comp_def] using openedSizes_listWalk inner
    | guarded _ condition body =>
      obtain ⟨test, inner⟩ : condition.OpensBodies ∧ ∀ m ∈ body, m.OpensBodies := by
        simpa [children, parts] using ih
      simpa [children, parts, bodySize?, Function.comp_def] using
        List.perm_middle.trans ((test.append (openedSizes_listWalk inner)).cons body.length)
    | loop init condition step body =>
      obtain ⟨first, second, third, inner⟩ : (∀ m ∈ init, m.OpensBodies) ∧
          (∀ m ∈ condition, m.OpensBodies) ∧ (∀ m ∈ step, m.OpensBodies) ∧
          ∀ m ∈ body, m.OpensBodies := by
        simpa [children, parts, or_imp, forall_and] using ih
      have header := ((openedSizes_optionWalk first).append (openedSizes_optionWalk second)).append
        (openedSizes_optionWalk third)
      simpa [children, parts, bodySize?, Function.comp_def] using
        List.perm_middle.trans ((header.append (openedSizes_listWalk inner)).cons body.length)
    | binding _ value | assignment _ value | result value | unary _ value =>
      have inner : value.OpensBodies := by simpa [children, parts] using ih
      simpa [children, parts, bodySize?, List.filterMap_cons, OpensBodies] using inner
    | enumeration | jump | leaf => simp [children, parts, bodySize?]
    | list elements =>
      have inner : ∀ m ∈ elements, m.OpensBodies := by simpa [children, parts] using ih
      simpa [children, parts, bodySize?, List.filterMap_cons, Function.comp_def] using
        openedSizes_listWalk inner
    | access of keys =>
      obtain ⟨first, others⟩ : of.OpensBodies ∧ ∀ m ∈ keys, m.OpensBodies := by
        simpa [children, parts] using ih
      simpa [children, parts, bodySize?, List.filterMap_cons, Function.comp_def] using
        first.append (openedSizes_listWalk others)
    | binary _ left right =>
      obtain ⟨front, back⟩ : left.OpensBodies ∧ right.OpensBodies := by
        simpa [children, parts] using ih
      simpa [children, parts, bodySize?, List.filterMap_cons] using front.append back

end Node

/-- The recorded sizes are those of all bodies of the program, in some order. -/
theorem Program.bodySizes_perm (p : Program) :
    p.bodySizes.Perm (p.nodes.filterMap Node.bodySize?) := by
  have same : p.bodySizes = openedSizes p.walk := by
    rw [bodySizes, openedSizes]
    congr
    funext e
    cases e <;> rfl
  rw [same]
  exact Node.openedSizes_listWalk fun n _ => n.opensBodies

end BracketScript
