/-! Numbers are binary64 values, kept as their bits. A magnitude is a natural number of
units of `2 ^ -1074`, the least positive number, so that rounding and comparison are exact
arithmetic on naturals. -/
namespace BracketScript

structure Number where
  bits : UInt64
deriving DecidableEq

namespace Number

/-- One above the lower 52 bits, which hold the fraction. -/
def hiddenBit : Nat := 0x10000000000000

/-- One above all bits but the sign. -/
def signBit : Nat := 0x8000000000000000

def fraction (n : Number) : Nat := n.bits.toNat % hiddenBit

def exponent (n : Number) : Nat := n.bits.toNat / hiddenBit % 0x800

def isNegative (n : Number) : Bool := n.bits.toNat / signBit == 1

/-- The largest biased exponent marks infinities and what is not a number. -/
def isFinite (n : Number) : Bool := n.exponent != 2047

def isNaN (n : Number) : Bool := n.exponent == 2047 && n.fraction != 0

/-- The significand, with the bit that normal numbers leave out. -/
def significand (n : Number) : Nat :=
  if n.exponent = 0 then n.fraction else n.fraction + hiddenBit

/-- The magnitude of a finite number in units of `2 ^ -1074`. -/
def units (n : Number) : Nat := n.significand <<< (n.exponent - 1)

def magnitude (n : Number) : Number := ⟨.ofNat (n.bits.toNat % signBit)⟩

def infinityBits : Nat := 2047 * hiddenBit

/-- The quotient rounded to the nearest natural number, a half to the even one. -/
def divideToEven (a b : Nat) : Nat :=
  let quotient := a / b
  let twice := 2 * (a % b)
  if twice > b ∨ twice = b ∧ quotient % 2 = 1 then quotient + 1 else quotient

/-- The number nearest to the quotient `a / b`, a tie going to the even significand, and
infinity where it is too large. With the exponent left at `shift`, a significand that
rounds up to `2 ^ 53` carries into the exponent by itself. -/
def nearest (a b : Nat) : Number :=
  let scaled := a <<< 1074
  let shift := (scaled / b).log2 - 52
  let bits := shift * hiddenBit + divideToEven scaled (b <<< shift)
  ⟨.ofNat (min bits infinityBits)⟩

/-- Numerical equality. Undefined numbers differ from everything, and the two zeros are equal. -/
def sameValue (a b : Number) : Bool :=
  !a.isNaN && !b.isNaN && (a == b || a.magnitude.bits == 0 && b.magnitude.bits == 0)

end Number

end BracketScript
