import BracketScript.Proofs.Layout
import BracketScript.Proofs.Rounding
import Mathlib.Data.List.DropRight
import Mathlib.Tactic.Ring

/-! Numbers read back from their plain text. Rounding sees only the value of a quotient, so it
does not matter in which of the equal decimals a number is written; the decimal that is written is
one that rounds to the number. -/
namespace BracketScript

namespace Decimal

/-- Trailing zeros of a decimal may be moved into its exponent. -/
theorem toNumber_zeros (digits zeros : Nat) (e : Int) :
    (Decimal.mk (digits * powerOfTen zeros) e).toNumber =
      (Decimal.mk digits (e + zeros)).toNumber := by
  apply toNumber_congr
  rw [value, value, Nat.cast_mul, cast_powerOfTen, zpow_add₀ (by norm_num), zpow_natCast]
  ring

end Decimal

namespace Number

theorem value_eq_zero {n : Number} (zero : n.units = 0) : n.value = 0 := by
  simp [value, zero]

theorem IsMagnitude.exactDecimal_value {n : Number} (magnitude : n.IsMagnitude) :
    n.exactDecimal.value = n.value := by
  have grid : ((1074 : Nat) : Int) = 1074 := rfl
  rw [Decimal.value, value, magnitude.isNegative_eq, exactDecimal, ← grid]
  generalize 1074 = halves
  have fives : ((Nat.pow 5 halves : ℕ) : ℚ) = 5 ^ halves := Nat.cast_pow 5 halves
  have tens : (10 : ℚ) ^ halves = 2 ^ halves * 5 ^ halves := by
    rw [← mul_pow]
    norm_num
  rw [Nat.cast_mul, fives, zpow_neg, zpow_natCast, tens]
  field_simp
  simp

theorem exactDecimal_toNumber {n : Number} (magnitude : n.IsMagnitude) :
    n.exactDecimal.toNumber = n := by
  rw [Decimal.toNumber_eq_iff, magnitude.exactDecimal_value]
  exact magnitude.isNearest_value

theorem IsMagnitude.toNumber_zero {n : Number} (magnitude : n.IsMagnitude) (zero : n.units = 0)
    (e : Int) :
    (Decimal.mk 0 e).toNumber = n := by
  have value : (Decimal.mk 0 e).value = n.value := by
    rw [Decimal.value, Nat.cast_zero, zero_mul, Number.value_eq_zero zero]
  rw [Decimal.toNumber_eq_iff, value]
  exact magnitude.isNearest_value

/-- Roundtrip: the shortest decimal of a magnitude rounds to the magnitude. -/
theorem shortestDecimal_toNumber {n : Number} (magnitude : n.IsMagnitude) (tie : TieRule) :
    (n.shortestDecimal tie).toNumber = n := by
  unfold shortestDecimal
  simp only
  cases found : List.find? _ _ with
  | none => exact exactDecimal_toNumber magnitude
  | some d =>
    have reads := List.find?_some found
    rw [magnitude.magnitude_eq] at reads
    simpa using reads

end Number

namespace Decimal

theorem digitsValue_append (cs ds : List Char) :
    digitsValue (cs ++ ds) = digitsValue cs * powerOfTen ds.length + digitsValue ds := by
  have step (value : Nat) (ds : List Char) :
      ds.foldl (fun value c => 10 * value + (c.toNat - '0'.toNat)) value =
        value * powerOfTen ds.length + digitsValue ds := by
    induction ds generalizing value with
    | nil => simp [powerOfTen, digitsValue]
    | cons d ds ih =>
      have tenfold : powerOfTen (d :: ds).length = powerOfTen ds.length * 10 := Nat.pow_succ ..
      have first : digitsValue (d :: ds) =
          (10 * 0 + (d.toNat - '0'.toNat)) * powerOfTen ds.length + digitsValue ds := ih _
      rw [List.foldl_cons, ih, tenfold, first]
      ring
  rw [digitsValue, List.foldl_append]
  exact step _ _

theorem digitsValue_zeros (count : Nat) : digitsValue (List.replicate count '0') = 0 := by
  induction count with
  | zero => rfl
  | succ count ih =>
    rw [List.replicate_succ', digitsValue_append, ih, Nat.zero_mul]
    rfl

theorem digitsValue_toDigits (n : Nat) : digitsValue (Nat.toDigits 10 n) = n :=
  Nat.ofDigitChars_toDigits (by decide) (by decide)

theorem isDigit_of_mem_toDigits {n : Nat} {c : Char} (member : c ∈ Nat.toDigits 10 n) :
    c.isDigit = true :=
  Nat.isDigit_of_mem_toDigits (by decide) (by decide) member

theorem isDigit_or_eq_of_ofChars? {cs : List Char} {d : Decimal} (read : ofChars? cs = some d) :
    ∀ c ∈ cs, c.isDigit = true ∨ c = '.' := by
  have whole : ∀ c ∈ cs.takeWhile Char.isDigit, c.isDigit = true := fun c =>
    List.mem_takeWhile_imp
  rw [← List.takeWhile_append_dropWhile (p := Char.isDigit) (l := cs)]
  refine List.forall_mem_append.mpr ⟨fun c member => .inl (whole c member), ?_⟩
  simp only [ofChars?] at read
  split at read
  · cases read
  · split at read
    · next empty => simp [empty]
    · next places point =>
      rw [point]
      split at read
      · next digits =>
        have digits := List.all_eq_true.mp digits
        exact List.forall_mem_cons.mpr ⟨.inr rfl, fun c member => .inl (digits c member)⟩
      · cases read
    · cases read

end Decimal

namespace NumberLayout

/-- The significant digits are all digits without the zeros at their end. -/
theorem significantDigits_eq (d : Decimal) :
    ∃ zeros, Nat.toDigits 10 d.digits = (significantDigits d).1 ++ List.replicate zeros '0' ∧
      (significantDigits d).2 = (significantDigits d).1.length + zeros + d.exponent := by
  have split : (significantDigits d).1 ++ (Nat.toDigits 10 d.digits).rtakeWhile (· == '0') =
      Nat.toDigits 10 d.digits := List.rdropWhile_append_rtakeWhile
  have zeros : (Nat.toDigits 10 d.digits).rtakeWhile (· == '0') =
      List.replicate ((Nat.toDigits 10 d.digits).rtakeWhile (· == '0')).length '0' := by
    refine List.eq_replicate_iff.mpr ⟨rfl, fun c member => ?_⟩
    simpa using List.mem_rtakeWhile_imp member
  refine ⟨_, zeros ▸ split.symm, ?_⟩
  have long := congrArg List.length split
  rw [List.length_append] at long
  simp only [significantDigits] at long ⊢
  omega

/-- The significant digits and their point have the value of the magnitude. -/
theorem significantDigits_toNumber {n : Number} (magnitude : n.IsMagnitude) (positive : n.units ≠ 0)
    (tie : TieRule) {digits : List Char} {point : Int}
    (written : significantDigits (n.shortestDecimal tie) = (digits, point)) :
    digits ≠ [] ∧ (∀ c ∈ digits, c.isDigit) ∧
      (Decimal.mk (Decimal.digitsValue digits) (point - digits.length)).toNumber = n := by
  have reads := Number.shortestDecimal_toNumber magnitude tie
  generalize n.shortestDecimal tie = d at reads written
  obtain ⟨zeros, all, place⟩ := significantDigits_eq d
  simp only [written] at all place
  have value : d.digits = Decimal.digitsValue digits * powerOfTen zeros := by
    rw [← Decimal.digitsValue_toDigits d.digits, all, Decimal.digitsValue_append,
      Decimal.digitsValue_zeros, Nat.add_zero, List.length_replicate]
  refine ⟨fun empty => positive ?_, fun c member => ?_, ?_⟩
  · rw [empty] at value
    have zero : d.digits = 0 := value.trans (Nat.zero_mul _)
    have small : (Number.mk 0).IsMagnitude := Nat.zero_le _
    obtain rfl : n = ⟨0⟩ := by
      rw [← reads, ← small.toNumber_zero rfl d.exponent, ← zero]
    rfl
  · have among : c ∈ Nat.toDigits 10 d.digits := all ▸ List.mem_append_left _ member
    exact Decimal.isDigit_of_mem_toDigits among
  · have exponent : point - digits.length = d.exponent + zeros := by omega
    rw [exponent, ← Decimal.toNumber_zeros, ← value, reads]

theorem ofChars?_wholeTail (l : NumberLayout) {whole : List Char} (nonempty : whole ≠ [])
    (digital : ∀ c ∈ whole, c.isDigit) :
    ∃ d, Decimal.ofChars? (whole ++ if l.wholeTail then ['.', '0'] else []) = some d ∧
      d.toNumber = (Decimal.mk (Decimal.digitsValue whole) 0).toNumber := by
  split
  · have zero : ∀ c ∈ ['0'], c.isDigit := List.forall_mem_singleton.mpr rfl
    refine ⟨_, Decimal.ofChars?_places nonempty digital zero, ?_⟩
    rw [Decimal.digitsValue_append]
    exact Decimal.toNumber_zeros (Decimal.digitsValue whole) 1 (-1)
  · rw [List.append_nil]
    exact ⟨_, Decimal.ofChars?_whole nonempty digital, rfl⟩

variable {digits : List Char}

/-- Placing the point keeps the value, with zeros filled in on either side. -/
theorem ofChars?_placePoint (l : NumberLayout) (nonempty : digits ≠ [])
    (digital : ∀ c ∈ digits, c.isDigit) (point : Int) :
    ∃ d, Decimal.ofChars? (l.placePoint digits point) = some d ∧
      d.toNumber = (Decimal.mk (Decimal.digitsValue digits) (point - digits.length)).toNumber := by
  have zero : ∀ c ∈ ['0'], c.isDigit := List.forall_mem_singleton.mpr rfl
  have zeros (count : Nat) : ∀ c ∈ List.replicate count '0', c.isDigit := fun c member => by
    rw [List.eq_of_mem_replicate member]
    decide
  unfold placePoint
  split
  · next before =>
    have places := List.forall_mem_append.mpr ⟨zeros (-point).toNat, digital⟩
    have text : ['0', '.'] ++ List.replicate (-point).toNat '0' ++ digits =
        ['0'] ++ '.' :: (List.replicate (-point).toNat '0' ++ digits) := by simp
    rw [text]
    refine ⟨_, Decimal.ofChars?_places (by simp) zero places, ?_⟩
    have value : Decimal.digitsValue (['0'] ++ (List.replicate (-point).toNat '0' ++ digits)) =
        Decimal.digitsValue digits := by
      have lead : Decimal.digitsValue ['0'] = 0 := rfl
      rw [Decimal.digitsValue_append, lead, Decimal.digitsValue_append, Decimal.digitsValue_zeros]
      simp
    have exponent : -((List.replicate (-point).toNat '0' ++ digits).length : Int) =
        point - digits.length := by
      rw [List.length_append, List.length_replicate]
      omega
    rw [value, exponent]
  · split
    · next after before =>
      have whole := List.forall_mem_append.mpr ⟨digital, zeros (point.toNat - digits.length)⟩
      obtain ⟨d, read, same⟩ := l.ofChars?_wholeTail (by simp [nonempty]) whole
      refine ⟨d, read, ?_⟩
      rw [same, Decimal.digitsValue_append, Decimal.digitsValue_zeros, Nat.add_zero,
        List.length_replicate, Decimal.toNumber_zeros]
      congr 2
      omega
    · next after before =>
      have front : digits.take point.toNat ≠ [] := by
        simp [nonempty]
        omega
      have whole : ∀ c ∈ digits.take point.toNat, c.isDigit := fun c member =>
        digital c (List.mem_of_mem_take member)
      have places : ∀ c ∈ digits.drop point.toNat, c.isDigit := fun c member =>
        digital c (List.mem_of_mem_drop member)
      refine ⟨_, Decimal.ofChars?_places front whole places, ?_⟩
      rw [List.take_append_drop, List.length_drop]
      congr 2
      omega

/-- Roundtrip: the plain text of a finite magnitude reads back as the magnitude. -/
theorem ofChars?_magnitudeText {n : Number} (magnitude : n.IsMagnitude) :
    ∃ d, Decimal.ofChars? (plain.magnitudeText n) = some d ∧ d.toNumber = n := by
  unfold magnitudeText
  split
  · next zero => exact ⟨⟨0, 0⟩, rfl, magnitude.toNumber_zero zero 0⟩
  · next positive =>
    obtain ⟨nonempty, digital, reads⟩ := significantDigits_toNumber magnitude positive plain.tie rfl
    obtain ⟨d, read, same⟩ := plain.ofChars?_placePoint nonempty digital _
    exact ⟨d, read, same.trans reads⟩

end NumberLayout

namespace Number

variable {m n : Number}

theorem IsMagnitude.not_isFinite_iff (magnitude : n.IsMagnitude) :
    n.isFinite = false ↔ n.bits.toNat = infinityBits := by
  obtain ⟨parts, small⟩ := magnitude.bits_eq
  unfold IsMagnitude at magnitude
  unfold isFinite infinityBits hiddenBit at *
  rw [bne_eq_false_iff_eq]
  omega

theorem text_plain (magnitude : n.IsMagnitude) :
    n.text .plain =
      .ofList (if n.isFinite then NumberLayout.plain.magnitudeText n else ['i', 'n', 'f']) := by
  simp [text, magnitude.isNaN_eq, magnitude.isNegative_eq]

/-- A text without digits, such as that of infinity, reads as nothing. -/
theorem ofChars?_text (magnitude : n.IsMagnitude) :
    (Decimal.ofChars? (n.text .plain).toList).map Decimal.toNumber =
      if n.isFinite then some n else none := by
  rw [text_plain magnitude, String.toList_ofList]
  split
  · obtain ⟨d, read, same⟩ := NumberLayout.ofChars?_magnitudeText magnitude
    rw [read, Option.map_some, same]
  · rfl

/-- Plain texts distinguish magnitudes, infinity included. -/
theorem text_plain_inj (first : m.IsMagnitude) (second : n.IsMagnitude)
    (same : m.text .plain = n.text .plain) : m = n := by
  have read := ofChars?_text first
  rw [same, ofChars?_text second] at read
  by_cases finite : m.isFinite = true
  · by_cases finite' : n.isFinite = true
    · rw [if_pos finite, if_pos finite'] at read
      exact (Option.some.inj read).symm
    · simp [finite, finite'] at read
  · by_cases finite' : n.isFinite = true
    · simp [finite, finite'] at read
    · have bits : m.bits.toNat = n.bits.toNat := by
        rw [first.not_isFinite_iff.mp (Bool.eq_false_iff.mpr finite),
          second.not_isFinite_iff.mp (Bool.eq_false_iff.mpr finite')]
      exact congrArg Number.mk (UInt64.toNat_inj.mp bits)

theorem newline_not_mem_text (magnitude : n.IsMagnitude) : '\n' ∉ (n.text .plain).toList := by
  rw [text_plain magnitude, String.toList_ofList]
  split
  · obtain ⟨d, read, _⟩ := NumberLayout.ofChars?_magnitudeText magnitude
    intro member
    exact absurd (Decimal.isDigit_or_eq_of_ofChars? read _ member) (by decide)
  · decide

end Number

end BracketScript
