/-! A character class is a list of inclusive ranges of code points. Membership is decided
by comparing the code point of a character with the ends of each range. -/
namespace BracketScript.Text

/-- Inclusive ranges of code points, in ascending order. -/
abbrev CodeRanges := List (Nat × Nat)

def CodeRanges.covers (ranges : CodeRanges) (c : Char) : Bool :=
  ranges.any fun (first, last) => first ≤ c.toNat && c.toNat ≤ last

theorem CodeRanges.covers_iff {ranges : CodeRanges} {c : Char} :
    ranges.covers c = true ↔ ∃ r ∈ ranges, r.1 ≤ c.toNat ∧ c.toNat ≤ r.2 := by
  simp only [CodeRanges.covers, List.any_eq_true, Bool.and_eq_true, decide_eq_true_eq]

end BracketScript.Text
