import BracketScript.Node.Dump
import BracketScript.Proofs.Diagnostics
import BracketScript.Proofs.Labels
import BracketScript.Proofs.Scientific

/-! A dump on one line holds the texts of its parts and the marks around them. Names and strings
are dumped in quotes, so that the dumps of tokens and of programs have no line breaks. -/
namespace BracketScript

namespace Dump

mutual

/-- The names and literal texts of a dump. -/
def texts : Dump → List String
  | plain text => [text]
  | record name fields => name :: fieldsTexts fields
  | tuple name parts => name :: itemsTexts parts
  | list items => itemsTexts items

def itemsTexts : List Dump → List String
  | [] => []
  | item :: items => item.texts ++ itemsTexts items

def fieldsTexts : List (String × Dump) → List String
  | [] => []
  | (name, value) :: fields => name :: (value.texts ++ fieldsTexts fields)

end

def marks : List Char := [' ', ',', ':', '(', ')', '[', ']', '\x7b', '\x7d']

theorem mem_intercalate_iff {c : Char} {sep : List Char} (other : c ∉ sep) {xs : List (List Char)} :
    c ∈ sep.intercalate xs ↔ ∃ x ∈ xs, c ∈ x := by
  cases xs with
  | nil => simp
  | cons x xs => simp [intercalate_cons, other]

section Inline

variable {c : Char}

mutual

theorem mem_inline_iff (other : c ∉ marks) (d : Dump) :
    c ∈ d.inline.toList ↔ ∃ text ∈ d.texts, c ∈ text.toList := by
  have unmarked := other
  simp only [marks, List.mem_cons, List.not_mem_nil, or_false, not_or] at unmarked
  have separator : c ∉ [',', ' '] := by simp [unmarked]
  cases d with
  | plain text => simp [inline, texts]
  | record name fields =>
    have inner := mem_inlineFields_iff other fields
    simp [inline, texts, String.toList_intercalate, mem_intercalate_iff separator, unmarked, inner]
  | tuple name parts =>
    have inner := mem_inlineItems_iff other parts
    simp [inline, texts, String.toList_intercalate, mem_intercalate_iff separator, unmarked, inner]
  | list items =>
    have inner := mem_inlineItems_iff other items
    simp [inline, texts, String.toList_intercalate, mem_intercalate_iff separator, unmarked, inner]
termination_by structural d

theorem mem_inlineItems_iff (other : c ∉ marks) (items : List Dump) :
    (∃ line ∈ inlineItems items, c ∈ line.toList) ↔
      ∃ text ∈ itemsTexts items, c ∈ text.toList := by
  cases items with
  | nil => simp [inlineItems, itemsTexts]
  | cons item items =>
    have first := mem_inline_iff other item
    have others := mem_inlineItems_iff other items
    simp [inlineItems, itemsTexts, first, others, or_and_right, exists_or]
termination_by structural items

theorem mem_inlineFields_iff (other : c ∉ marks) (fields : List (String × Dump)) :
    (∃ line ∈ inlineFields fields, c ∈ line.toList) ↔
      ∃ text ∈ fieldsTexts fields, c ∈ text.toList := by
  cases fields with
  | nil => simp [inlineFields, fieldsTexts]
  | cons field fields =>
    obtain ⟨name, value⟩ := field
    have unmarked := other
    simp only [marks, List.mem_cons, List.not_mem_nil, or_false, not_or] at unmarked
    have first := mem_inline_iff other value
    have others := mem_inlineFields_iff other fields
    simp [inlineFields, fieldsTexts, first, others, unmarked, or_and_right, exists_or, or_assoc]
termination_by structural fields

end

end Inline

def IsUnbroken (texts : List String) : Prop := ∀ text ∈ texts, '\n' ∉ text.toList

theorem newline_not_mem_inline {d : Dump} (unbroken : IsUnbroken d.texts) :
    '\n' ∉ d.inline.toList := by
  rw [mem_inline_iff (by decide)]
  rintro ⟨text, member, broken⟩
  exact unbroken text member broken

section Unbroken

variable {text : String} {front back : List String}

@[simp] theorem isUnbroken_nil : IsUnbroken [] := List.forall_mem_nil _

@[simp] theorem isUnbroken_cons :
    IsUnbroken (text :: back) ↔ '\n' ∉ text.toList ∧ IsUnbroken back := List.forall_mem_cons

@[simp] theorem isUnbroken_append :
    IsUnbroken (front ++ back) ↔ IsUnbroken front ∧ IsUnbroken back := List.forall_mem_append

@[simp] theorem isUnbroken_string (s : String) : IsUnbroken (string s).texts :=
  List.forall_mem_singleton.mpr ((Text.HasNoControls.quote s).newline)

@[simp] theorem isUnbroken_natural (n : Nat) : IsUnbroken (natural n).texts := by
  have digits := newline_not_mem_digits n
  exact List.forall_mem_singleton.mpr (by simpa [Nat.repr] using digits)

@[simp] theorem isUnbroken_namesDump (names : List String) :
    IsUnbroken (Node.namesDump names).texts := by
  change IsUnbroken (itemsTexts (names.map string))
  induction names with
  | nil => simp [itemsTexts]
  | cons name names ih => simp [itemsTexts, ih]

end Unbroken

end Dump

open Dump (IsUnbroken texts itemsTexts fieldsTexts)

theorem Number.newline_not_mem_text_dump (n : Number) : '\n' ∉ (n.text .dump).toList := by
  cases finite : n.isFinite with
  | true =>
    intro member
    rcases isNumeric_of_mem_text .dump finite _ member with digit | mark
    · cases digit
    · exact absurd mark (by decide)
  | false =>
    unfold text
    split
    · decide
    · rw [finite, if_neg Bool.false_ne_true]
      split <;> simp

theorem Kind.newline_not_mem_dumpName (kind : Kind) : '\n' ∉ kind.dumpName.toList := by
  have key : ∀ kind ∈ all, '\n' ∉ kind.dumpName.toList := by decide
  exact key kind kind.mem_all

theorem Token.isUnbroken_dump (t : Token) : IsUnbroken t.dump.texts := by
  have kind := t.kind.newline_not_mem_dumpName
  obtain ⟨_, payload, _, _, _⟩ := t
  cases payload with
  | number n =>
    have number := n.newline_not_mem_text_dump
    simp [dump, texts, fieldsTexts, kind, Payload.dump, itemsTexts, Dump.number, number]
  | text => simp [dump, texts, fieldsTexts, kind, Payload.dump, itemsTexts]

namespace Node

mutual

theorem isUnbroken_dump (n : Node String Token) : IsUnbroken n.dump.texts := by
  cases n with
  | block body | function _ _ body | lambda _ body | list body =>
    have inner := isUnbroken_listDump body
    simp [dump, texts, fieldsTexts, itemsTexts, bodyDump, inner]
  | guarded guard condition body =>
    have name : '\n' ∉ guard.dumpName.toList := by cases guard <;> decide
    have test := isUnbroken_dump condition
    have inner := isUnbroken_listDump body
    simp [dump, texts, fieldsTexts, bodyDump, name, test, inner]
  | loop init condition step body =>
    have first := isUnbroken_optionDump init
    have second := isUnbroken_optionDump condition
    have third := isUnbroken_optionDump step
    have inner := isUnbroken_listDump body
    simp [dump, texts, fieldsTexts, bodyDump, first, second, third, inner]
  | binding _ value | result value =>
    have inner := isUnbroken_dump value
    simp [dump, texts, fieldsTexts, inner]
  | assignment target value =>
    have first := target.isUnbroken_dump
    have inner := isUnbroken_dump value
    simp [dump, texts, fieldsTexts, first, inner]
  | enumeration => simp [dump, texts, fieldsTexts]
  | jump j =>
    have name : '\n' ∉ j.dumpName.toList := by cases j <;> decide
    simp [dump, texts, name]
  | access of keys =>
    have first := isUnbroken_dump of
    have others := isUnbroken_listDump keys
    simp [dump, texts, fieldsTexts, first, others]
  | unary op operand =>
    have names : '\n' ∉ op.dumpName.toList ∧ '\n' ∉ op.operandName.toList := by
      cases op <;> decide
    have inner := isUnbroken_dump operand
    simp [dump, texts, fieldsTexts, names, inner]
  | binary op left right =>
    have name : '\n' ∉ op.dumpName.toList := by cases op <;> decide
    have front := isUnbroken_dump left
    have back := isUnbroken_dump right
    simp [dump, texts, fieldsTexts, name, front, back]
  | leaf token =>
    have inner := token.isUnbroken_dump
    simp [dump, texts, itemsTexts, inner]
termination_by structural n

theorem isUnbroken_listDump (ns : List (Node String Token)) :
    IsUnbroken (itemsTexts (listDump ns)) := by
  cases ns with
  | nil => simp [listDump, itemsTexts]
  | cons n ns =>
    have first := isUnbroken_dump n
    have others := isUnbroken_listDump ns
    simp [listDump, itemsTexts, first, others]
termination_by structural ns

theorem isUnbroken_optionDump (n : Option (Node String Token)) :
    IsUnbroken (optionDump n).texts := by
  cases n with
  | none => simp [optionDump, Dump.option, texts]
  | some n =>
    have inner := isUnbroken_dump n
    simp [optionDump, Dump.option, texts, itemsTexts, inner]
termination_by structural n

end

end Node

theorem Token.newline_not_mem_inline (t : Token) : '\n' ∉ t.dump.inline.toList :=
  Dump.newline_not_mem_inline t.isUnbroken_dump

/-- A dump stays on one line, whatever line breaks the strings of the program hold. -/
theorem Program.newline_not_mem_inline (p : Program) : '\n' ∉ p.dump.inline.toList := by
  have inner := Node.isUnbroken_listDump p.statements
  exact Dump.newline_not_mem_inline (by simp [dump, texts, fieldsTexts, inner])

end BracketScript
