import BracketScript.Proofs.Numerals

/-! Numbers read back from their text in every layout. An exponent behind the digits moves their
point, and a sign before them takes the magnitude to the other side of zero. -/
namespace BracketScript

namespace Decimal

/-- The integer that digits spell, with an optional sign. -/
def signedValue : List Char → Int
  | '-' :: cs => -digitsValue cs
  | '+' :: cs => digitsValue cs
  | cs => digitsValue cs

/-- Reads a decimal with an optional exponent. -/
def ofScientific? (cs : List Char) : Option Decimal :=
  (ofChars? (cs.takeWhile (· != 'e'))).map fun d =>
    ⟨d.digits, d.exponent + signedValue (cs.dropWhile (· != 'e')).tail⟩

variable {cs front back : List Char} {d : Decimal}

theorem signedValue_of_digits (digital : ∀ c ∈ cs, c.isDigit) :
    signedValue cs = digitsValue cs := by
  unfold signedValue
  split
  · exact absurd (digital '-' List.mem_cons_self) (by decide)
  · exact absurd (digital '+' List.mem_cons_self) (by decide)
  · rfl

theorem e_not_mem_of_ofChars? (read : ofChars? cs = some d) : 'e' ∉ cs := fun member =>
  absurd (isDigit_or_eq_of_ofChars? read 'e' member) (by decide)

theorem ofScientific?_of_ofChars? (read : ofChars? cs = some d) : ofScientific? cs = some d := by
  have free : ∀ c ∈ cs, (c != 'e') = true := fun c member =>
    bne_iff_ne.mpr fun e => e_not_mem_of_ofChars? read (e ▸ member)
  rw [ofScientific?, List.takeWhile_eq_self_iff.mpr free, List.dropWhile_eq_nil_iff.mpr free, read]
  simp [signedValue, digitsValue]

theorem ofScientific?_exponent (read : ofChars? front = some d) :
    ofScientific? (front ++ 'e' :: back) = some ⟨d.digits, d.exponent + signedValue back⟩ := by
  have free : ∀ c ∈ front, (c != 'e') = true := fun c member =>
    bne_iff_ne.mpr fun e => e_not_mem_of_ofChars? read (e ▸ member)
  rw [ofScientific?, List.takeWhile_append_of_pos free, List.dropWhile_append_of_pos free]
  simp [read]

end Decimal

namespace NumberLayout

def exponentSign (l : NumberLayout) (lead : Int) : List Char :=
  if lead < 0 then ['-'] else if l.plusSign then ['+'] else []

theorem signedValue_exponent (l : NumberLayout) (lead : Int) :
    Decimal.signedValue (l.exponentSign lead ++ Nat.toDigits 10 lead.natAbs) = lead := by
  unfold exponentSign
  split
  · simp only [List.cons_append, List.nil_append, Decimal.signedValue,
      Decimal.digitsValue_toDigits]
    omega
  · split
    · simp only [List.cons_append, List.nil_append, Decimal.signedValue,
        Decimal.digitsValue_toDigits]
      omega
    · rw [List.nil_append, Decimal.signedValue_of_digits fun c => Decimal.isDigit_of_mem_toDigits,
        Decimal.digitsValue_toDigits]
      omega

variable {n : Number}

theorem ofChars?_pointed {digits : List Char} (nonempty : digits ≠ [])
    (digital : ∀ c ∈ digits, c.isDigit) :
    Decimal.ofChars? (digits.take 1 ++ if digits.length ≤ 1 then [] else '.' :: digits.drop 1) =
      some ⟨Decimal.digitsValue digits, 1 - digits.length⟩ := by
  cases digits with
  | nil => exact absurd rfl nonempty
  | cons c cs =>
    have first : ∀ d ∈ [c], d.isDigit := List.forall_mem_singleton.mpr (digital c (by simp))
    have places : ∀ d ∈ cs, d.isDigit := fun d member => digital d (List.mem_cons_of_mem c member)
    split
    · next short =>
      obtain rfl : cs = [] := by simpa using short
      exact Decimal.ofChars?_whole (by simp) first
    · refine (Decimal.ofChars?_places (by simp) first places).trans ?_
      simp

/-- The two forms of a magnitude: positional, or with an exponent. -/
theorem magnitudeText_cases (l : NumberLayout) (magnitude : n.IsMagnitude) :
    (∃ d, Decimal.ofChars? (l.magnitudeText n) = some d ∧ d.toNumber = n) ∨
      ∃ front d lead, Decimal.ofChars? front = some d ∧
        l.magnitudeText n = front ++ 'e' :: (l.exponentSign lead ++ Nat.toDigits 10 lead.natAbs) ∧
        (Decimal.mk d.digits (d.exponent + lead)).toNumber = n := by
  unfold magnitudeText
  split
  · next zero =>
    obtain ⟨d, read, same⟩ := l.ofChars?_wholeTail (List.cons_ne_nil '0' [])
      (List.forall_mem_singleton.mpr rfl)
    exact .inl ⟨d, read, same.trans (magnitude.toNumber_zero zero 0)⟩
  · next positive =>
    cases written : significantDigits (n.shortestDecimal l.tie) with
    | mk digits point =>
      obtain ⟨nonempty, digital, reads⟩ :=
        significantDigits_toNumber magnitude positive l.tie written
      dsimp only
      split
      · obtain ⟨d, read, same⟩ := l.ofChars?_placePoint nonempty digital point
        exact .inl ⟨d, read, same.trans reads⟩
      · refine .inr ⟨_, _, point - 1, ofChars?_pointed nonempty digital, ?_, ?_⟩
        · simp [scientific, exponentSign]
        · have exponent : 1 - (digits.length : Int) + (point - 1) = point - digits.length := by
            omega
          rw [exponent, reads]

/-- Roundtrip: every layout of a finite magnitude reads back as the magnitude. -/
theorem ofScientific?_magnitudeText (l : NumberLayout) (magnitude : n.IsMagnitude) :
    ∃ d, Decimal.ofScientific? (l.magnitudeText n) = some d ∧ d.toNumber = n := by
  rcases l.magnitudeText_cases magnitude with ⟨d, read, same⟩ | ⟨front, d, lead, read, text, same⟩
  · exact ⟨d, Decimal.ofScientific?_of_ofChars? read, same⟩
  · refine ⟨_, text ▸ Decimal.ofScientific?_exponent read, ?_⟩
    rw [signedValue_exponent, same]

end NumberLayout

def IsNumeric (c : Char) : Prop := c.isDigit = true ∨ c ∈ ['.', 'e', '+', '-']

theorem NumberLayout.isNumeric_of_mem_magnitudeText (l : NumberLayout) {n : Number}
    (magnitude : n.IsMagnitude) : ∀ c ∈ l.magnitudeText n, IsNumeric c := by
  have decimal {cs : List Char} {d : Decimal} (read : Decimal.ofChars? cs = some d) :
      ∀ c ∈ cs, IsNumeric c := by
    intro c member
    rcases Decimal.isDigit_or_eq_of_ofChars? read c member with digit | rfl
    · exact .inl digit
    · exact .inr (by decide)
  rcases l.magnitudeText_cases magnitude with ⟨d, read, _⟩ | ⟨front, d, lead, read, text, _⟩
  · exact decimal read
  · have sign : ∀ c ∈ l.exponentSign lead, c ∈ ['.', 'e', '+', '-'] := by
      unfold exponentSign
      split_ifs <;> simp
    rw [text]
    refine List.forall_mem_append.mpr
      ⟨decimal read, List.forall_mem_cons.mpr ⟨.inr (by decide), ?_⟩⟩
    refine List.forall_mem_append.mpr ⟨fun c member => .inr (sign c member), fun c member => ?_⟩
    exact .inl (Decimal.isDigit_of_mem_toDigits member)

theorem NumberLayout.exists_mem_magnitudeText {l : NumberLayout} (tail : l.wholeTail = true)
    (n : Number) : '.' ∈ l.magnitudeText n ∨ 'e' ∈ l.magnitudeText n := by
  unfold magnitudeText
  split
  · simp
  · dsimp only
    split
    · unfold placePoint
      split_ifs <;> simp
    · simp [scientific]

namespace Number

/-- The negation of a magnitude. -/
def negate (n : Number) : Number := ⟨.ofNat (signBit + n.bits.toNat)⟩

def ofText? : List Char → Option Number
  | '-' :: cs => (Decimal.ofScientific? cs).map fun d => d.toNumber.negate
  | cs => (Decimal.ofScientific? cs).map Decimal.toNumber

theorem ofText?_of_ofScientific? {cs : List Char} {d : Decimal}
    (read : Decimal.ofScientific? cs = some d) : ofText? cs = some d.toNumber := by
  unfold ofText?
  split
  · next cs =>
    have unsigned : Decimal.ofScientific? ('-' :: cs) = none := by
      simp [Decimal.ofScientific?, Decimal.ofChars?]
    rw [unsigned] at read
    cases read
  · rw [read, Option.map_some]

variable {n : Number}

theorem toNat_magnitude (n : Number) :
    n.magnitude.bits.toNat = n.bits.toNat % signBit := by
  have bound := n.bits.toNat_lt
  unfold magnitude signBit
  rw [UInt64.toNat_ofNat']
  omega

theorem isNaN_eq_of_isFinite (finite : n.isFinite = true) : n.isNaN = false := by
  rw [isFinite, bne_iff_ne] at finite
  simp [isNaN, finite]

theorem magnitude_isMagnitude (defined : n.isNaN = false) : n.magnitude.IsMagnitude := by
  have bound := n.bits.toNat_lt
  unfold isNaN exponent fraction hiddenBit at defined
  simp only [Bool.and_eq_false_iff, beq_eq_false_iff_ne, bne_eq_false_iff_eq] at defined
  unfold IsMagnitude
  rw [toNat_magnitude]
  unfold signBit infinityBits hiddenBit
  omega

theorem units_magnitude (n : Number) : n.magnitude.units = n.units := by
  have bound := n.bits.toNat_lt
  have bits := n.toNat_magnitude
  have fraction : n.magnitude.fraction = n.fraction := by
    unfold Number.fraction
    rw [bits]
    unfold signBit hiddenBit
    omega
  have exponent : n.magnitude.exponent = n.exponent := by
    unfold Number.exponent
    rw [bits]
    unfold signBit hiddenBit
    omega
  rw [units, units, significand, significand, fraction, exponent]

theorem magnitudeText_magnitude (l : NumberLayout) (finite : n.isFinite = true) :
    l.magnitudeText n.magnitude = l.magnitudeText n := by
  have magnitude := magnitude_isMagnitude (isNaN_eq_of_isFinite finite)
  have decimal : n.magnitude.shortestDecimal l.tie = n.shortestDecimal l.tie := by
    unfold shortestDecimal exactDecimal
    rw [n.units_magnitude, magnitude.magnitude_eq]
  unfold NumberLayout.magnitudeText
  rw [n.units_magnitude, decimal]

/-- Every number is its magnitude with its sign. -/
theorem magnitude_signed (n : Number) :
    (if n.isNegative then n.magnitude.negate else n.magnitude) = n := by
  have bound := n.bits.toNat_lt
  have bits := n.toNat_magnitude
  split
  · next negative =>
    unfold isNegative signBit at negative
    rw [beq_iff_eq] at negative
    have sum : signBit + n.magnitude.bits.toNat = n.bits.toNat := by
      rw [bits]
      unfold signBit
      omega
    rw [negate, sum, UInt64.ofNat_toNat]
  · next positive =>
    unfold isNegative signBit at positive
    rw [beq_iff_eq] at positive
    have small : n.bits.toNat % signBit = n.bits.toNat := by
      unfold signBit
      omega
    rw [magnitude, small, UInt64.ofNat_toNat]

theorem text_of_isFinite (l : NumberLayout) (finite : n.isFinite = true) :
    (n.text l).toList =
      if n.isNegative then '-' :: l.magnitudeText n.magnitude else l.magnitudeText n.magnitude := by
  rw [magnitudeText_magnitude l finite]
  simp [text, isNaN_eq_of_isFinite finite, finite]

/-- Roundtrip: every layout of a finite number reads back as the number. -/
theorem ofText?_text (l : NumberLayout) (finite : n.isFinite = true) :
    ofText? (n.text l).toList = some n := by
  have magnitude := magnitude_isMagnitude (isNaN_eq_of_isFinite finite)
  obtain ⟨d, read, same⟩ := l.ofScientific?_magnitudeText magnitude
  have signed := n.magnitude_signed
  rw [text_of_isFinite l finite]
  split
  · next negative =>
    rw [if_pos negative] at signed
    rw [ofText?, read, Option.map_some, same, signed]
  · next positive =>
    rw [if_neg positive] at signed
    rw [ofText?_of_ofScientific? read, same, signed]

theorem isNumeric_of_mem_text (l : NumberLayout) (finite : n.isFinite = true) :
    ∀ c ∈ (n.text l).toList, IsNumeric c := by
  have magnitude := magnitude_isMagnitude (isNaN_eq_of_isFinite finite)
  have numeric := l.isNumeric_of_mem_magnitudeText magnitude
  rw [text_of_isFinite l finite]
  split
  · exact List.forall_mem_cons.mpr ⟨.inr (by decide), numeric⟩
  · exact numeric

theorem exists_mem_text {l : NumberLayout} (tail : l.wholeTail = true)
    (finite : n.isFinite = true) : ∃ c ∈ (n.text l).toList, c.isDigit = false := by
  have pointed : ∃ c ∈ l.magnitudeText n.magnitude, c.isDigit = false := by
    rcases NumberLayout.exists_mem_magnitudeText tail n.magnitude with point | exponent
    · exact ⟨'.', point, by decide⟩
    · exact ⟨'e', exponent, by decide⟩
  rw [text_of_isFinite l finite]
  split
  · exact ⟨'-', List.mem_cons_self, by decide⟩
  · exact pointed

end Number

end BracketScript
