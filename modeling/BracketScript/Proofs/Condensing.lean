import BracketScript.Proofs.Writing

/-! With lines and margins a document is written as without, but for blanks between its words. A
reader that drops the blanks outside of strings is left with the text without spaces. -/
namespace BracketScript.Json

inductive Place where
  | between
  | inString
  | escaped

def isSpace (c : Char) : Bool := c == ' ' || c == '\n'

/-- Removes the blanks outside strings. -/
def condense : Place → List Char → List Char
  | _, [] => []
  | .between, c :: cs =>
    if c = '"' then c :: condense .inString cs
    else if isSpace c then condense .between cs
    else c :: condense .between cs
  | .inString, c :: cs =>
    c :: condense (if c = '"' then .between else if c = '\\' then .escaped else .inString) cs
  | .escaped, c :: cs => c :: condense .inString cs

def isBare (c : Char) : Bool := c != '"' && !isSpace c

/-- Condensing the first text in front of any rest gives the second. -/
def Condenses (text bare : List Char) : Prop :=
  ∀ rest, condense .between (text ++ rest) = bare ++ condense .between rest

namespace Condenses

variable {text text' bare bare' : List Char}

theorem nil : Condenses [] [] := fun _ => rfl

theorem append (first : Condenses text bare) (second : Condenses text' bare') :
    Condenses (text ++ text') (bare ++ bare') := fun rest => by
  rw [List.append_assoc, first, second, List.append_assoc]

theorem plain (free : text.all isBare = true) : Condenses text text := by
  induction text with
  | nil => exact nil
  | cons c text ih =>
    simp only [List.all_cons, isBare, Bool.and_eq_true, bne_iff_ne, Bool.not_eq_true'] at free
    obtain ⟨⟨mark, space⟩, others⟩ := free
    intro rest
    rw [List.cons_append, condense, if_neg mark, space, if_neg Bool.false_ne_true, ih others,
      List.cons_append]

theorem blanks (blank : text.all isSpace = true) : Condenses text [] := by
  induction text with
  | nil => exact nil
  | cons c text ih =>
    obtain ⟨space, others⟩ := Bool.and_eq_true_iff.mp (List.all_cons.symm.trans blank)
    have mark : c ≠ '"' := by
      rintro rfl
      exact absurd space (by decide)
    intro rest
    rw [List.cons_append, condense, if_neg mark, if_pos space, ih others]

theorem word (all : ∀ c ∈ text, isWord c = true) : Condenses text text := by
  refine plain (List.all_eq_true.mpr fun c member => ?_)
  have mark : c ≠ '"' := ne_of_isWord (all c member) (by decide)
  have space : c ≠ ' ' := ne_of_isWord (all c member) (by decide)
  have newline : c ≠ '\n' := ne_of_isWord (all c member) (by decide)
  simp [isBare, isSpace, mark, space, newline]

end Condenses

theorem condense_escapeChar (c : Char) (rest : List Char) :
    condense .inString (escapeChar c ++ rest) = escapeChar c ++ condense .inString rest := by
  rcases escapeChar_cases c with ⟨code, backslash, mark⟩ | ⟨k, code, _⟩ | ⟨code, control⟩
  · simp [code, condense, backslash, mark]
  · simp [code, condense]
  · have hexadecimal (d : Nat) : Nat.digitChar d ≠ '"' ∧ Nat.digitChar d ≠ '\\' :=
      ⟨Nat.digitChar_ne '"' rfl, Nat.digitChar_ne '\\' rfl⟩
    simp [code, controlEscape, condense, hexadecimal]

theorem condenses_quote (s : String) : Condenses (quote s).toList (quote s).toList := by
  have inside (cs rest : List Char) : condense .inString (cs.flatMap escapeChar ++ rest) =
      cs.flatMap escapeChar ++ condense .inString rest := by
    induction cs with
    | nil => rfl
    | cons c cs ih =>
      rw [List.flatMap_cons, List.append_assoc, condense_escapeChar, ih, List.append_assoc]
  intro rest
  rw [toList_quote, List.cons_append, condense, if_pos rfl, List.append_assoc, inside]
  simp [condense]

theorem condenses_numberText (n : Number) :
    Condenses (numberText n).toList (numberText n).toList := by
  unfold numberText
  split
  · next finite =>
    have numeric := n.isNumeric_of_mem_text .document finite
    exact .word fun c member => isWord_of_isNumeric (numeric c member)
  · exact .word readsBack_null.word

def IsMargin (margin : String) : Prop := margin.toList.all isSpace = true

theorem IsMargin.deeper {margin : String} (blank : IsMargin margin) :
    IsMargin (margin ++ "  ") := by
  rw [IsMargin, String.toList_append, List.all_append, blank]
  decide

section Rows

variable {margin : String} {lines : List String} {pieces : List (List Char)}

/-- The lines condense to the pieces one by one. -/
def LinesOf (lines : List String) (pieces : List (List Char)) : Prop :=
  List.Forall₂ (fun line piece => Condenses line.toList piece) lines pieces

theorem LinesOf.further (same : LinesOf lines pieces) :
    Condenses ((lines.map String.toList).flatMap ([',', '\n'] ++ ·))
      (pieces.flatMap ([','] ++ ·)) := by
  induction same with
  | nil => exact .nil
  | cons first _ ih =>
    have comma : Condenses [','] [','] := .plain (by decide)
    have line : Condenses ['\n'] [] := .blanks (by decide)
    have comma := comma.append line
    exact .append (.append comma first) ih

theorem condenses_bracketLines {left right : String} {l r : Char} (opens : left.toList = [l])
    (closes : right.toList = [r]) (free : [l].all isBare = true ∧ [r].all isBare = true)
    (blank : IsMargin margin) (same : LinesOf lines pieces) :
    Condenses (bracketLines left right margin lines).toList (row l r pieces) := by
  have first : Condenses [l] [l] := .plain free.1
  have last : Condenses [r] [r] := .plain free.2
  have line : Condenses ['\n'] [] := .blanks (by decide)
  unfold bracketLines row
  cases same with
  | nil =>
    have brackets := first.append last
    simpa [opens, closes] using brackets
  | cons head tail =>
    have inside := head.append (LinesOf.further tail)
    have brackets := ((first.append line).append inside).append
      ((line.append (.blanks blank)).append last)
    simpa [opens, closes, intercalate_cons] using brackets

end Rows

mutual

/-- Outside strings the indented text differs from the compact text by blanks only. -/
theorem condenses_pretty (d : Json) {margin : String} (blank : IsMargin margin) :
    Condenses (d.pretty margin).toList d.compact.toList := by
  cases d with
  | null => exact .word readsBack_null.word
  | natural value => exact .word (readsBack_natural value).word
  | number value => exact condenses_numberText value
  | string value => exact condenses_quote value
  | array items =>
    rw [toList_compact_array]
    exact condenses_bracketLines rfl rfl (by decide) blank (linesOf_items items blank.deeper)
  | object members =>
    rw [toList_compact_object]
    exact condenses_bracketLines rfl rfl (by decide) blank
      (linesOf_members members blank.deeper)
termination_by structural d

theorem linesOf_items (items : List Json) {margin : String} (blank : IsMargin margin) :
    LinesOf (prettyItems margin items) (items.map fun d => d.compact.toList) := by
  cases items with
  | nil => exact .nil
  | cons item items =>
    refine .cons ?_ (linesOf_items items blank)
    rw [String.toList_append]
    exact .append (.blanks blank) (condenses_pretty item blank)
termination_by structural items

theorem linesOf_members (members : List (String × Json)) {margin : String}
    (blank : IsMargin margin) :
    LinesOf (prettyMembers margin members) (members.map compactMember) := by
  cases members with
  | nil => exact .nil
  | cons member members =>
    cases member with
    | mk name value =>
      refine .cons ?_ (linesOf_members members blank)
      have colon : Condenses [':'] [':'] := .plain (by decide)
      have space : Condenses [' '] [] := .blanks (by decide)
      have line := ((Condenses.blanks blank).append (condenses_quote name)).append
        ((colon.append space).append (condenses_pretty value blank))
      simpa [compactMember] using line
termination_by structural members

end

/-- Equal indented texts come with equal compact texts. -/
theorem compact_eq_of_pretty_eq {d e : Json} {margin : String} (blank : IsMargin margin)
    (same : d.pretty margin = e.pretty margin) : d.compact = e.compact := by
  have bare := condenses_pretty d blank []
  rw [same, condenses_pretty e blank] at bare
  exact (String.toList_inj.mp (List.append_cancel_right bare)).symm

end BracketScript.Json
