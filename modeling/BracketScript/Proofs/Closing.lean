import BracketScript.Lexeme.Pattern

/-! A string ends at the first quotation mark on its line that no backslash precedes; where a
backslash precedes every mark, it ends at the last one. So the text of a string may hold its mark
behind backslashes only. -/
namespace BracketScript

def IsQuotationMark (mark : Char) : Prop := mark = '"' ∨ mark = '\''

theorem IsQuotationMark.other (quotation : IsQuotationMark mark) :
    mark ≠ '\\' ∧ mark ≠ '\r' ∧ mark ≠ '\n' := by
  rcases quotation with rfl | rfl <;> decide

theorem IsQuotationMark.ne_space (quotation : IsQuotationMark mark) : mark ≠ ' ' := by
  rcases quotation with rfl | rfl <;> decide

def EscapedBehind (mark : Char) (before text : List Char) : Prop :=
  ∀ front back, text = front ++ mark :: back → ['\\'] <:+ before ++ front

/-- Every mark in the text directly follows a backslash of the text. -/
def Escaped (mark : Char) (text : List Char) : Prop := EscapedBehind mark [] text

/-- On its line a string closes with `inside` before the mark and `behind` after it. The mark is the
first without a backslash before it, or the last one if all have one. -/
structure ClosesAt (mark : Char) (before line inside behind : List Char) : Prop where
  split : line = inside ++ mark :: behind
  closed : EscapedBehind mark before inside ∧ ¬ ['\\'] <:+ before ++ inside ∨
    EscapedBehind mark before line ∧ mark ∉ behind

section Escapes

variable {mark c d : Char} {before text more line inside behind : List Char}

theorem backslash_suffix_concat : ['\\'] <:+ before ++ [c] ↔ c = '\\' := by
  constructor
  · rintro ⟨front, same⟩
    exact (List.cons.inj (List.append_inj_right' same rfl)).1.symm
  · rintro rfl
    exact List.suffix_append _ _

theorem EscapedBehind.of_not_mem (absent : mark ∉ text) : EscapedBehind mark before text := by
  rintro front back rfl
  simp at absent

theorem escapedBehind_cons :
    EscapedBehind mark before (c :: text) ↔
      (c = mark → ['\\'] <:+ before) ∧ EscapedBehind mark (before ++ [c]) text := by
  constructor
  · intro escaped
    refine ⟨fun same => ?_, fun front back same => ?_⟩
    · have here := escaped [] text (by rw [same]; rfl)
      rwa [List.append_nil] at here
    · have there := escaped (c :: front) back (by rw [same]; rfl)
      rwa [List.append_cons] at there
  · rintro ⟨here, there⟩ front back same
    cases front with
    | nil =>
      rw [List.append_nil]
      exact here (List.cons.inj same).1
    | cons d front =>
      obtain ⟨rfl, further⟩ := List.cons.inj same
      rw [List.append_cons]
      exact there front back further

theorem escapedBehind_append :
    EscapedBehind mark before (text ++ more) ↔
      EscapedBehind mark before text ∧ EscapedBehind mark (before ++ text) more := by
  induction text generalizing before with
  | nil =>
    rw [List.nil_append, List.append_nil]
    exact (and_iff_right (.of_not_mem List.not_mem_nil)).symm
  | cons c text ih =>
    rw [List.cons_append, escapedBehind_cons, ih, escapedBehind_cons, List.append_assoc,
      List.singleton_append, and_assoc]

/-- A closing mark is the first unescaped one, so the marks inside are escaped. -/
theorem ClosesAt.escaped (closes : ClosesAt mark before line inside behind) :
    EscapedBehind mark before inside := by
  rcases closes.closed with ⟨escaped, _⟩ | ⟨escaped, _⟩
  · exact escaped
  · rw [closes.split] at escaped
    exact (escapedBehind_append.mp escaped).1

theorem closesAt_nil_iff :
    ClosesAt mark before (c :: line) [] behind ↔
      c = mark ∧ line = behind ∧ (['\\'] <:+ before → mark ∉ line) := by
  constructor
  · rintro ⟨same, closed⟩
    obtain ⟨rfl, rfl⟩ := List.cons.inj same
    refine ⟨rfl, rfl, fun backslash => ?_⟩
    rcases closed with ⟨_, free⟩ | ⟨_, last⟩
    · rw [List.append_nil] at free
      exact absurd backslash free
    · exact last
  · rintro ⟨rfl, rfl, last⟩
    refine ⟨rfl, ?_⟩
    by_cases backslash : ['\\'] <:+ before
    · right
      exact ⟨escapedBehind_cons.mpr ⟨fun _ => backslash, .of_not_mem (last backslash)⟩,
        last backslash⟩
    · left
      rw [List.append_nil]
      exact ⟨.of_not_mem List.not_mem_nil, backslash⟩

theorem closesAt_cons_iff :
    ClosesAt mark before (c :: line) (d :: inside) behind ↔
      d = c ∧ (c = mark → ['\\'] <:+ before) ∧
        ClosesAt mark (before ++ [c]) line inside behind := by
  have shift : before ++ d :: inside = before ++ [d] ++ inside := List.append_cons ..
  constructor
  · rintro ⟨same, closed⟩
    obtain ⟨rfl, rfl⟩ := List.cons.inj same
    simp only [escapedBehind_cons, shift] at closed
    refine ⟨rfl, ?_, rfl, ?_⟩
    · rcases closed with ⟨⟨here, _⟩, _⟩ | ⟨⟨here, _⟩, _⟩ <;> exact here
    · rcases closed with ⟨⟨_, escaped⟩, free⟩ | ⟨⟨_, escaped⟩, last⟩
      · exact .inl ⟨escaped, free⟩
      · exact .inr ⟨escaped, last⟩
  · rintro ⟨rfl, here, rfl, closed⟩
    refine ⟨rfl, ?_⟩
    simp only [escapedBehind_cons, shift]
    rcases closed with ⟨escaped, free⟩ | ⟨escaped, last⟩
    · exact .inl ⟨⟨here, escaped⟩, free⟩
    · exact .inr ⟨⟨here, escaped⟩, last⟩

/-- Where a backslash stands before the mark that closes a string, no mark follows on the line. -/
theorem closesAt_iff :
    ClosesAt mark before line inside behind ↔ line = inside ++ mark :: behind ∧
      EscapedBehind mark before inside ∧ (['\\'] <:+ before ++ inside → mark ∉ behind) := by
  constructor
  · intro closes
    refine ⟨closes.split, closes.escaped, fun backslash => ?_⟩
    rcases closes.closed with ⟨_, free⟩ | ⟨_, last⟩
    · exact absurd backslash free
    · exact last
  · rintro ⟨rfl, escaped, last⟩
    refine ⟨rfl, ?_⟩
    by_cases backslash : ['\\'] <:+ before ++ inside
    · right
      refine ⟨escapedBehind_append.mpr ⟨escaped, ?_⟩, last backslash⟩
      exact escapedBehind_cons.mpr ⟨fun _ => backslash, .of_not_mem (last backslash)⟩
    · exact .inl ⟨escaped, backslash⟩

end Escapes

namespace Pattern

variable {mark : Char} {escaped : Bool} {before line inside behind : List Char}

/-- The text between the marks has no line break, and its own marks are escaped. -/
theorem splitQuoted_inside {text rest : List Char} (flag : escaped = true → ['\\'] <:+ before)
    (found : splitQuoted mark escaped text = some (inside, rest)) :
    '\n' ∉ inside ∧ EscapedBehind mark before inside := by
  induction text generalizing escaped before inside rest with
  | nil => cases found
  | cons c text ih =>
    have nothing : '\n' ∉ [] ∧ EscapedBehind mark before [] :=
      ⟨List.not_mem_nil, .of_not_mem List.not_mem_nil⟩
    have deeper {escaped inside rest} (line : c ≠ '\n') (here : c = mark → ['\\'] <:+ before)
        (flag : escaped = true → c = '\\')
        (found : (splitQuoted mark escaped text).map (fun pair => (c :: pair.1, pair.2)) =
          some (inside, rest)) : '\n' ∉ inside ∧ EscapedBehind mark before inside := by
      obtain ⟨⟨tail, rest⟩, below, same⟩ := Option.map_eq_some_iff.mp found
      cases same
      obtain ⟨single, escapes⟩ := ih (fun set => backslash_suffix_concat.mpr (flag set)) below
      exact ⟨by simp [line.symm, single], escapedBehind_cons.mpr ⟨here, escapes⟩⟩
    simp only [splitQuoted] at found
    split at found
    · cases found
    · next line =>
      split at found
      · split at found
        · next _ set =>
          rcases Option.or_eq_some_iff.mp found with found | ⟨_, found⟩
          · exact deeper line (fun _ => flag set) Bool.noConfusion found
          · cases found
            exact nothing
        · cases found
          exact nothing
      · next different =>
        exact deeper line (fun same => absurd same different) (fun set => by simpa using set) found

/-- The split fails exactly where the line holds no mark. -/
theorem splitQuoted_eq_none_iff (single : '\n' ∉ line) :
    splitQuoted mark escaped line = none ↔ mark ∉ line := by
  induction line generalizing escaped with
  | nil => simp [splitQuoted]
  | cons c line ih =>
    obtain ⟨other, single⟩ := List.ne_and_not_mem_of_not_mem_cons single
    rw [splitQuoted, if_neg (Ne.symm other)]
    split
    · next same =>
      rw [same]
      split <;> simp
    · next different => simp [ih single, Ne.symm different]

/-- The backtracking split computes `ClosesAt`. The flag records whether a backslash stands before
the line. -/
theorem splitQuoted_eq_some_iff (other : mark ≠ '\\') (single : '\n' ∉ line)
    (flag : escaped = true ↔ ['\\'] <:+ before) :
    splitQuoted mark escaped line = some (inside, behind) ↔
      ClosesAt mark before line inside behind := by
  induction line generalizing escaped before inside with
  | nil =>
    have unclosed : ¬ ClosesAt mark before [] inside behind := fun closes => by
      simpa using closes.split
    simp [splitQuoted, unclosed]
  | cons c line ih =>
    obtain ⟨newline, single⟩ := List.ne_and_not_mem_of_not_mem_cons single
    rw [splitQuoted, if_neg (Ne.symm newline)]
    by_cases same : c = mark
    · subst same
      have flag' : false = true ↔ ['\\'] <:+ before ++ [c] := by
        rw [backslash_suffix_concat]
        simp [other]
      rw [if_pos rfl]
      cases inside with
      | nil =>
        rw [closesAt_nil_iff, ← flag]
        cases escaped with
        | false => simp
        | true =>
          have absent : splitQuoted c false line = none ↔ c ∉ line :=
            splitQuoted_eq_none_iff single
          cases further : splitQuoted c false line with
          | none => simp [absent.mp further]
          | some parts =>
            have present : ¬ c ∉ line := fun outside => by
              rw [absent.mpr outside] at further
              cases further
            simp [present]
      | cons d inside =>
        rw [closesAt_cons_iff, ← flag, ← ih single flag']
        cases escaped with
        | false => simp
        | true => cases splitQuoted c false line <;> simp [Prod.ext_iff, eq_comm, and_assoc]
    · have flag' : (c == '\\') = true ↔ ['\\'] <:+ before ++ [c] := by
        rw [backslash_suffix_concat, beq_iff_eq]
      rw [if_neg same, Option.map_eq_some_iff]
      cases inside with
      | nil => simp [closesAt_nil_iff, same]
      | cons d inside =>
        rw [closesAt_cons_iff, ← ih single flag']
        constructor
        · rintro ⟨⟨inside, rest⟩, found, equal⟩
          cases equal
          exact ⟨rfl, fun equal => absurd equal same, found⟩
        · rintro ⟨rfl, _, found⟩
          exact ⟨_, found, rfl⟩

end Pattern

end BracketScript
