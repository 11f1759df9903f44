import BracketScript.Number.Decimal
import Mathlib.Algebra.Order.Archimedean.Basic
import Mathlib.Tactic.FieldSimp
import Mathlib.Tactic.Linarith
import Mathlib.Tactic.LinearCombination
import Mathlib.Tactic.NormNum

/-! Rounding is to the nearest number, and ties go to the even fraction. The specification
compares distances between rationals and does not mention how a number is rounded. Magnitudes
ascend with their bits, so that the two neighbours of the rounded number decide; the spacing
below a power of two is half of that above. -/
namespace BracketScript

namespace Number

/-- Neither negative nor undefined. -/
def IsMagnitude (n : Number) : Prop := n.bits.toNat ≤ infinityBits

/-- The rational value. Infinity counts as `2 ^ 1024`, the next number beyond the range. -/
def value (n : Number) : ℚ := (if n.isNegative then -1 else 1) * (n.units / 2 ^ 1074)

/-- No magnitude is nearer, and the fraction is even if another one is equally near. -/
structure IsNearest (n : Number) (x : ℚ) : Prop where
  magnitude : n.IsMagnitude
  nearest : ∀ m : Number, m.IsMagnitude → |x - n.value| ≤ |x - m.value|
  even : ∀ m : Number, m.IsMagnitude → m ≠ n → |x - m.value| = |x - n.value| → Even n.fraction

/-- The units of a magnitude as a function of its bits, continued beyond infinity. -/
def unitsOfBits (bits : Nat) : Nat :=
  if bits / hiddenBit = 0 then bits
  else (bits % hiddenBit + hiddenBit) * 2 ^ (bits / hiddenBit - 1)

/-- The significand may have one bit more than the format, since it carries into the exponent. -/
theorem unitsOfBits_add {shift significand : Nat} (low : shift = 0 ∨ hiddenBit ≤ significand)
    (high : significand ≤ 2 * hiddenBit) :
    unitsOfBits (shift * hiddenBit + significand) = significand * 2 ^ shift := by
  have pos : 0 < hiddenBit := by decide
  unfold unitsOfBits
  rw [Nat.add_comm, Nat.add_mul_div_right _ _ pos, Nat.add_mul_mod_self_right]
  rcases Nat.lt_trichotomy significand hiddenBit with below | rfl | above
  · obtain rfl : shift = 0 := by omega
    simp [Nat.div_eq_of_lt below]
  · simp [Nat.div_self pos]
  · rcases Nat.eq_or_lt_of_le high with rfl | high
    · have twice : 2 * hiddenBit / hiddenBit = 2 := Nat.mul_div_cancel _ pos
      rw [twice, Nat.mul_mod_left, if_neg (by omega), Nat.zero_add,
        show 2 + shift - 1 = shift + 1 by omega, Nat.pow_succ]
      ring
    · have one : significand / hiddenBit = 1 :=
        Nat.div_eq_of_lt_le (by omega) (by omega)
      have rest : significand % hiddenBit + hiddenBit = significand := by
        rw [Nat.mod_eq_sub_div_mul, one]
        omega
      rw [one, rest, if_neg (by omega), Nat.add_sub_cancel_left]

theorem exists_significand (bits : Nat) :
    ∃ shift significand, bits = shift * hiddenBit + significand ∧
      (shift = 0 ∨ hiddenBit ≤ significand) ∧ significand < 2 * hiddenBit := by
  refine ⟨bits / hiddenBit - 1, bits - (bits / hiddenBit - 1) * hiddenBit, ?_⟩
  unfold hiddenBit
  omega

theorem unitsOfBits_strictMono : StrictMono unitsOfBits := by
  refine strictMono_nat_of_lt_succ fun bits => ?_
  obtain ⟨shift, significand, rfl, low, high⟩ := exists_significand bits
  rw [unitsOfBits_add low (Nat.le_of_lt high), Nat.add_assoc,
    unitsOfBits_add (low.imp id Nat.le_succ_of_le) high]
  exact Nat.mul_lt_mul_of_pos_right (Nat.lt_succ_self _) (Nat.two_pow_pos shift)

section Magnitudes

variable {m n : Number} {x : ℚ}

theorem toNat_ofNat {bits : Nat} (small : bits ≤ infinityBits) :
    (UInt64.ofNat bits).toNat = bits := by
  rw [UInt64.toNat_ofNat']
  unfold infinityBits hiddenBit at small
  omega

theorem IsMagnitude.bits_eq (magnitude : n.IsMagnitude) :
    n.bits.toNat = n.exponent * hiddenBit + n.fraction ∧ n.fraction < hiddenBit := by
  unfold IsMagnitude infinityBits at magnitude
  unfold exponent fraction hiddenBit at *
  omega

theorem IsMagnitude.magnitude_eq (magnitude : n.IsMagnitude) : n.magnitude = n := by
  unfold IsMagnitude infinityBits hiddenBit at magnitude
  unfold Number.magnitude signBit
  rw [Nat.mod_eq_of_lt (by omega), UInt64.ofNat_toNat]

theorem IsMagnitude.isNegative_eq (magnitude : n.IsMagnitude) : n.isNegative = false := by
  unfold IsMagnitude infinityBits hiddenBit at magnitude
  simp only [isNegative, signBit, beq_eq_false_iff_ne]
  omega

theorem IsMagnitude.isNaN_eq (magnitude : n.IsMagnitude) : n.isNaN = false := by
  obtain ⟨parts, small⟩ := magnitude.bits_eq
  unfold IsMagnitude infinityBits hiddenBit at magnitude
  unfold hiddenBit at parts small
  simp only [isNaN, Bool.and_eq_false_iff, beq_eq_false_iff_ne, bne_eq_false_iff_eq]
  omega

theorem IsMagnitude.units_eq (magnitude : n.IsMagnitude) :
    n.units = unitsOfBits n.bits.toNat := by
  obtain ⟨parts, small⟩ := magnitude.bits_eq
  have exponent : n.bits.toNat / hiddenBit = n.exponent := by
    unfold hiddenBit at *
    omega
  have fraction : n.bits.toNat % hiddenBit = n.fraction := rfl
  rw [unitsOfBits, exponent, fraction, units, significand, Nat.shiftLeft_eq]
  split
  · next subnormal =>
    rw [subnormal] at parts ⊢
    omega
  · rfl

theorem IsMagnitude.even_fraction_iff (magnitude : n.IsMagnitude) :
    Even n.fraction ↔ Even n.bits.toNat := by
  obtain ⟨parts, _⟩ := magnitude.bits_eq
  unfold hiddenBit at parts
  rw [Nat.even_iff, Nat.even_iff]
  omega

theorem IsMagnitude.abs_sub_value (magnitude : n.IsMagnitude) (x : ℚ) :
    |x - n.value| = |x * 2 ^ 1074 - unitsOfBits n.bits.toNat| / 2 ^ 1074 := by
  rw [value, magnitude.isNegative_eq, magnitude.units_eq]
  -- the power stays a symbol, for its value has over three hundred digits
  generalize 1074 = grid
  have pos : (0 : ℚ) < 2 ^ grid := by positivity
  rw [eq_div_iff pos.ne', ← abs_of_pos pos, ← abs_mul, abs_of_pos pos]
  congr 1
  field_simp
  simp

theorem IsMagnitude.eq_of_bits (same : m.bits.toNat = n.bits.toNat) : m = n :=
  congrArg Number.mk (UInt64.toNat_inj.mp same)

theorem IsMagnitude.value_lt (first : m.IsMagnitude) (second : n.IsMagnitude)
    (less : m.bits.toNat < n.bits.toNat) : m.value < n.value := by
  rw [value, value, first.isNegative_eq, second.isNegative_eq, first.units_eq, second.units_eq]
  have units : (unitsOfBits m.bits.toNat : ℚ) < unitsOfBits n.bits.toNat :=
    Nat.cast_lt.mpr (unitsOfBits_strictMono less)
  generalize 1074 = grid
  simpa using div_lt_div_of_pos_right units (by positivity)

theorem IsMagnitude.isNearest_value (magnitude : n.IsMagnitude) : n.IsNearest n.value := by
  refine ⟨magnitude, fun m _ => ?_, fun m other distinct same => ?_⟩
  · rw [sub_self, abs_zero]
    exact abs_nonneg _
  · rw [sub_self, abs_zero, abs_eq_zero, sub_eq_zero] at same
    rcases Nat.lt_trichotomy m.bits.toNat n.bits.toNat with less | bits | more
    · exact absurd same (other.value_lt magnitude less).ne'
    · exact absurd (IsMagnitude.eq_of_bits bits) distinct
    · exact absurd same (magnitude.value_lt other more).ne

/-- Of two distinct nearest magnitudes one would have to be odd, since between even ones there is a
nearer one. -/
theorem IsNearest.bits_le (first : m.IsNearest x) (second : n.IsNearest x) :
    n.bits.toNat ≤ m.bits.toNat := by
  by_contra less
  rw [Nat.not_le] at less
  have equal : |x - m.value| = |x - n.value| :=
    le_antisymm (first.nearest n second.magnitude) (second.nearest m first.magnitude)
  have distinct : m ≠ n := fun same => absurd less (by rw [same]; exact Nat.lt_irrefl _)
  have evenFirst := first.magnitude.even_fraction_iff.mp
    (first.even n second.magnitude distinct.symm equal.symm)
  have evenSecond := second.magnitude.even_fraction_iff.mp
    (second.even m first.magnitude distinct equal)
  have small : m.bits.toNat + 1 ≤ infinityBits := Nat.le_trans less second.magnitude
  have bits := toNat_ofNat small
  have between : (Number.mk (.ofNat (m.bits.toNat + 1))).IsMagnitude := bits.trans_le small
  have nearer := first.nearest _ between
  have low := first.magnitude.value_lt between (by simp only [bits]; omega)
  have high := between.value_lt second.magnitude (by
    simp only [bits]
    rw [Nat.even_iff] at evenFirst evenSecond
    omega)
  generalize (Number.mk (.ofNat (m.bits.toNat + 1))).value = middle at nearer low high
  rcases abs_cases (x - m.value) with ⟨_, _⟩ | ⟨_, _⟩ <;>
    rcases abs_cases (x - n.value) with ⟨_, _⟩ | ⟨_, _⟩ <;>
    rcases abs_cases (x - middle) with ⟨_, _⟩ | ⟨_, _⟩ <;> linarith

theorem IsNearest.unique (first : m.IsNearest x) (second : n.IsNearest x) : m = n :=
  IsMagnitude.eq_of_bits (Nat.le_antisymm (second.bits_le first) (first.bits_le second))

end Magnitudes

/-- The error of the rounded quotient is at most half the divisor, and the quotient is even at
exactly half. -/
theorem divideToEven_bounds (a : Nat) {b : Nat} (pos : 0 < b) :
    2 * a ≤ 2 * (divideToEven a b * b) + b ∧ 2 * (divideToEven a b * b) ≤ 2 * a + b ∧
      (2 * a = 2 * (divideToEven a b * b) + b ∨ 2 * (divideToEven a b * b) = 2 * a + b →
        Even (divideToEven a b)) := by
  have split := Nat.div_add_mod a b
  have small := Nat.mod_lt a pos
  unfold divideToEven
  simp only
  rw [Nat.mul_comm] at split
  split
  · rw [Nat.even_add_one, Nat.not_even_iff, Nat.add_mul]
    omega
  · rw [Nat.even_iff]
    omega

/-- On a grid the error is at most half the spacing. -/
theorem divideToEven_near (a : Nat) {b : Nat} (pos : 0 < b) (shift : Nat) :
    2 * |(a / b : ℚ) - divideToEven a (b <<< shift) * 2 ^ shift| ≤ 2 ^ shift ∧
      (2 * |(a / b : ℚ) - divideToEven a (b <<< shift) * 2 ^ shift| = 2 ^ shift →
        Even (divideToEven a (b <<< shift))) := by
  have positive : (0 : ℚ) < b := Nat.cast_pos.mpr pos
  rw [Nat.shiftLeft_eq]
  have bounds := divideToEven_bounds a (Nat.mul_pos pos (Nat.two_pow_pos shift))
  generalize divideToEven a (b * 2 ^ shift) = d at bounds ⊢
  obtain ⟨above, below, even⟩ := bounds
  have exact : (a : ℚ) = a / b * b := (div_mul_cancel₀ _ positive.ne').symm
  have above : (2 : ℚ) * a ≤ 2 * (d * (b * 2 ^ shift)) + b * 2 ^ shift := by exact_mod_cast above
  have below : (2 : ℚ) * (d * (b * 2 ^ shift)) ≤ 2 * a + b * 2 ^ shift := by exact_mod_cast below
  have even : (2 : ℚ) * a = 2 * (d * (b * 2 ^ shift)) + b * 2 ^ shift ∨
      (2 : ℚ) * (d * (b * 2 ^ shift)) = 2 * a + b * 2 ^ shift → Even d := fun tie =>
    even (tie.imp (fun same => by exact_mod_cast same) fun same => by exact_mod_cast same)
  generalize (a / b : ℚ) = x, (2 : ℚ) ^ shift = spacing at *
  rw [exact] at above below even
  have above : 2 * x ≤ 2 * (d * spacing) + spacing :=
    le_of_mul_le_mul_right (by linarith) positive
  have below : 2 * (d * spacing) ≤ 2 * x + spacing :=
    le_of_mul_le_mul_right (by linarith) positive
  constructor
  · rcases abs_cases (x - d * spacing) with ⟨same, _⟩ | ⟨same, _⟩ <;> rw [same] <;> linarith
  · intro tie
    rcases abs_cases (x - d * spacing) with ⟨same, _⟩ | ⟨same, _⟩ <;> rw [same] at tie
    · have high : 2 * x = 2 * (d * spacing) + spacing := by linarith
      exact even (.inl (by linear_combination b * high))
    · have low : 2 * (d * spacing) = 2 * x + spacing := by linarith
      exact even (.inr (by linear_combination b * low))

/-- The first bits are at least as near as the other ones, and even at a tie. -/
structure Prevails (x : ℚ) (bits other : Nat) : Prop where
  near : |x - unitsOfBits bits| ≤ |x - unitsOfBits other|
  even : other ≠ bits → |x - unitsOfBits other| = |x - unitsOfBits bits| → Even bits

/-- It suffices to compare with both neighbours, because units increase with the bits. -/
theorem Prevails.of_neighbours {x : ℚ} {bits : Nat}
    (before : ∀ less, less + 1 = bits → |x - unitsOfBits bits| ≤ x - unitsOfBits less ∧
      (|x - unitsOfBits bits| = x - unitsOfBits less → Even bits))
    (behind : |x - unitsOfBits bits| ≤ unitsOfBits (bits + 1) - x ∧
      (|x - unitsOfBits bits| = unitsOfBits (bits + 1) - x → Even bits)) (other : Nat) :
    Prevails x bits other := by
  have ascends {low high : Nat} (le : low ≤ high) : (unitsOfBits low : ℚ) ≤ unitsOfBits high :=
    Nat.cast_le.mpr (unitsOfBits_strictMono.monotone le)
  rcases Nat.lt_trichotomy other bits with less | rfl | more
  · obtain ⟨near, even⟩ := before (bits - 1) (by omega)
    have units := ascends (show other ≤ bits - 1 by omega)
    have far := le_abs_self (x - unitsOfBits other)
    exact ⟨by linarith, fun _ same => even (by linarith)⟩
  · exact ⟨le_refl _, fun distinct => absurd rfl distinct⟩
  · obtain ⟨near, even⟩ := behind
    have units := ascends (show bits + 1 ≤ other by omega)
    have far := neg_abs_le (x - unitsOfBits other)
    exact ⟨by linarith, fun _ same => even (by linarith)⟩

section Nearest

variable {scaled b : Nat}

/-- The chosen exponent gives the quotient a significand within the format. -/
theorem quotient_bounds (scaled : Nat) {b shift : Nat} (pos : 0 < b)
    (isShift : (scaled / b).log2 - 52 = shift) :
    (scaled / b : ℚ) < 2 * hiddenBit * 2 ^ shift ∧
      (shift = 0 ∨ (hiddenBit * 2 ^ shift : ℚ) ≤ scaled / b) := by
  have positive : (0 : ℚ) < b := Nat.cast_pos.mpr pos
  have hidden : hiddenBit = 2 ^ 52 := rfl
  constructor
  · have small : scaled / b < 2 * hiddenBit * 2 ^ shift := by
      refine Nat.lt_of_lt_of_le Nat.lt_log2_self ?_
      rw [hidden, ← Nat.pow_succ', ← Nat.pow_add]
      exact Nat.pow_le_pow_right two_pos (by omega)
    rw [div_lt_iff₀ positive]
    exact_mod_cast (Nat.div_lt_iff_lt_mul pos).mp small
  · refine (Nat.eq_zero_or_pos shift).imp id fun large => ?_
    have nonzero : scaled / b ≠ 0 := by
      intro zero
      rw [zero, Nat.log2_zero] at isShift
      omega
    have big : hiddenBit * 2 ^ shift ≤ scaled / b := by
      refine Nat.le_trans ?_ (Nat.log2_self_le nonzero)
      rw [hidden, ← Nat.pow_add]
      exact Nat.pow_le_pow_right two_pos (by omega)
    rw [le_div_iff₀ positive]
    exact_mod_cast (Nat.le_div_iff_mul_le pos).mp big

/-- The bits of the rounded quotient, before the cut at infinity. -/
def roundedBits (scaled b : Nat) : Nat :=
  let shift := (scaled / b).log2 - 52
  shift * hiddenBit + divideToEven scaled (b <<< shift)

theorem roundedBits_prevails (scaled : Nat) {b : Nat} (pos : 0 < b) (other : Nat) :
    Prevails (scaled / b) (roundedBits scaled b) other := by
  generalize isShift : (scaled / b).log2 - 52 = shift
  obtain ⟨small, big⟩ := quotient_bounds scaled pos isShift
  obtain ⟨near, even⟩ := divideToEven_near scaled pos shift
  simp only [roundedBits, isShift]
  generalize divideToEven scaled (b <<< shift) = d at near even ⊢
  generalize (scaled / b : ℚ) = x at small big near even ⊢
  have positive : (0 : ℚ) < 2 ^ shift := by positivity
  have within := abs_le.mp (show |x - d * 2 ^ shift| ≤ 2 ^ shift / 2 by linarith)
  have high : d ≤ 2 * hiddenBit := by
    have bound : (d : ℚ) < 2 * hiddenBit + 1 :=
      lt_of_mul_lt_mul_right (by linarith) positive.le
    exact Nat.le_of_lt_succ (by exact_mod_cast bound)
  have low : shift = 0 ∨ hiddenBit ≤ d := by
    refine big.imp id fun big => ?_
    have bound : (hiddenBit : ℚ) < d + 1 := lt_of_mul_lt_mul_right (by linarith) positive.le
    exact Nat.le_of_lt_succ (by exact_mod_cast bound)
  have isEven : Even (shift * hiddenBit + d) ↔ Even d := by
    rw [Nat.even_iff, Nat.even_iff]
    unfold hiddenBit
    omega
  have units {d : Nat} (low : shift = 0 ∨ hiddenBit ≤ d) (high : d ≤ 2 * hiddenBit) :
      (unitsOfBits (shift * hiddenBit + d) : ℚ) = d * 2 ^ shift := by
    rw [unitsOfBits_add low high]
    push_cast
    rfl
  have ascends {low high : Nat} (less : low < high) :
      (unitsOfBits low : ℚ) < unitsOfBits high :=
    Nat.cast_lt.mpr (unitsOfBits_strictMono less)
  rw [← isEven] at even
  refine .of_neighbours (fun less next => ?_) ?_ other
  · by_cases regular : shift = 0 ∨ hiddenBit < d
    · obtain ⟨e, rfl⟩ : ∃ e, d = e + 1 := by
        refine Nat.exists_eq_succ_of_ne_zero fun zero => ?_
        rcases regular with rfl | more <;> omega
      obtain rfl : less = shift * hiddenBit + e := by omega
      rw [units low high, units (regular.imp id Nat.le_of_lt_succ) (by omega)]
      push_cast at near even within ⊢
      exact ⟨by linarith, fun same => even (by linarith)⟩
    · -- below a power of two the spacing is half as wide, but the quotient is not below it
      obtain ⟨normal, edge⟩ := not_or.mp regular
      obtain rfl : d = hiddenBit := Nat.le_antisymm (Nat.not_lt.mp edge) (low.resolve_left normal)
      have below := ascends (show less < shift * hiddenBit + hiddenBit by omega)
      rw [units low high] at below ⊢
      have above := big.resolve_left normal
      rw [abs_of_nonneg (by linarith)]
      exact ⟨by linarith, fun same => by linarith⟩
  · rcases Nat.lt_or_eq_of_le high with high' | rfl
    · rw [units low high, Nat.add_assoc, units (low.imp id Nat.le_succ_of_le) high']
      push_cast
      exact ⟨by linarith, fun same => even (by linarith)⟩
    · have above := ascends (Nat.lt_succ_self (shift * hiddenBit + 2 * hiddenBit))
      rw [units low high, Nat.succ_eq_add_one] at above
      rw [units low high]
      push_cast at above small near ⊢
      rw [abs_of_neg (by linarith)]
      exact ⟨by linarith, fun same => by linarith⟩

/-- Beyond the largest number infinity is nearest. -/
theorem min_roundedBits_prevails (scaled : Nat) {b : Nat} (pos : 0 < b) {other : Nat}
    (small : other ≤ infinityBits) :
    Prevails (scaled / b) (min (roundedBits scaled b) infinityBits) other := by
  have prevails := roundedBits_prevails scaled pos
  generalize roundedBits scaled b = bits at prevails
  rcases Nat.lt_or_ge infinityBits bits with overflows | fits
  · rw [Nat.min_eq_right (Nat.le_of_lt overflows)]
    have ascends := unitsOfBits_strictMono
    have last : (unitsOfBits infinityBits : ℚ) < unitsOfBits bits :=
      Nat.cast_lt.mpr (ascends overflows)
    have nearer := (prevails infinityBits).near
    generalize (scaled / b : ℚ) = x at nearer ⊢
    have beyond : (unitsOfBits infinityBits : ℚ) < x := by
      by_contra within
      rw [abs_of_neg (by linarith), abs_of_nonpos (by linarith)] at nearer
      linarith
    have order : (unitsOfBits other : ℚ) ≤ unitsOfBits infinityBits :=
      Nat.cast_le.mpr (ascends.monotone small)
    constructor
    · rw [abs_of_pos (by linarith), abs_of_pos (by linarith)]
      linarith
    · intro distinct same
      rw [abs_of_pos (by linarith), abs_of_pos (by linarith)] at same
      have units : (unitsOfBits other : ℚ) = unitsOfBits infinityBits := by linarith
      exact absurd (ascends.injective (Nat.cast_injective units)) distinct
  · rw [Nat.min_eq_left fits]
    exact prevails other

theorem nearest_isMagnitude (a b : Nat) : (nearest a b).IsMagnitude := by
  unfold nearest
  simp only [IsMagnitude]
  rw [toNat_ofNat (Nat.min_le_right _ _)]
  exact Nat.min_le_right _ _

theorem toNat_nearest (a b : Nat) :
    (nearest a b).bits.toNat = min (roundedBits (a <<< 1074) b) infinityBits :=
  toNat_ofNat (Nat.min_le_right _ _)

/-- Correct rounding: `nearest` returns the magnitude nearest to the quotient, and the even one at a
tie. -/
theorem nearest_isNearest (a : Nat) {b : Nat} (pos : 0 < b) : (nearest a b).IsNearest (a / b) := by
  have magnitude := nearest_isMagnitude a b
  have prevails {m : Number} (small : m.IsMagnitude) :=
    min_roundedBits_prevails (a <<< 1074) pos small
  have scaled (grid : Nat) : ((a <<< grid : ℕ) / b : ℚ) = a / b * 2 ^ grid := by
    rw [Nat.shiftLeft_eq, Nat.cast_mul, mul_div_right_comm, Nat.cast_pow, Nat.cast_two]
  simp only [← toNat_nearest, scaled] at prevails
  refine ⟨magnitude, fun m small => ?_, fun m small distinct same => ?_⟩
  · rw [magnitude.abs_sub_value, small.abs_sub_value]
    exact div_le_div_of_nonneg_right (prevails small).near (by positivity)
  · rw [magnitude.abs_sub_value, small.abs_sub_value] at same
    refine magnitude.even_fraction_iff.mpr ((prevails small).even (fun bits => ?_) ?_)
    · exact distinct (IsMagnitude.eq_of_bits bits)
    · exact (div_left_inj' (by positivity)).mp same

/-- The tie `2 ^ 53 + 1` goes down to the even fraction of `2 ^ 53`. -/
example : nearest 9007199254740993 1 = ⟨0x4340000000000000⟩ := by decide +kernel

end Nearest

end Number

namespace Decimal

def value (d : Decimal) : ℚ := d.digits * 10 ^ d.exponent

theorem powerOfTen_pos (e : Nat) : 0 < powerOfTen e := Nat.pow_pos (by decide)

theorem cast_powerOfTen (e : Nat) : (powerOfTen e : ℚ) = 10 ^ e := Nat.cast_pow 10 e

theorem value_eq_div (d : Decimal) : d.value = d.numerator / d.denominator := by
  have split : d.exponent = d.exponent.toNat - (-d.exponent).toNat := by omega
  have power : (10 : ℚ) ^ d.exponent = 10 ^ d.exponent.toNat / 10 ^ (-d.exponent).toNat := by
    conv_lhs => rw [split, zpow_sub₀ (by norm_num), zpow_natCast, zpow_natCast]
  rw [value, power, numerator, denominator, Nat.cast_mul, cast_powerOfTen, cast_powerOfTen,
    mul_div_assoc]

theorem toNumber_isNearest (d : Decimal) : d.toNumber.IsNearest d.value := by
  rw [value_eq_div]
  exact Number.nearest_isNearest d.numerator (powerOfTen_pos _)

theorem toNumber_eq_iff {d : Decimal} {n : Number} : d.toNumber = n ↔ n.IsNearest d.value := by
  constructor
  · rintro rfl
    exact d.toNumber_isNearest
  · exact d.toNumber_isNearest.unique

theorem toNumber_congr {d e : Decimal} (same : d.value = e.value) : d.toNumber = e.toNumber :=
  toNumber_eq_iff.mpr (same ▸ e.toNumber_isNearest)

end Decimal

end BracketScript
