import BracketScript.Number.Binary64

/-! Decimals are naturals scaled by a power of ten. A numeral is read exactly and rounded
once; a number is written by the fewest digits that read back as it. -/
namespace BracketScript

/-- The value `digits * 10 ^ exponent`. -/
structure Decimal where
  digits : Nat
  exponent : Int
deriving DecidableEq

def powerOfTen (exponent : Nat) : Nat := Nat.pow 10 exponent

namespace Decimal

def numerator (d : Decimal) : Nat := d.digits * powerOfTen d.exponent.toNat

def denominator (d : Decimal) : Nat := powerOfTen (-d.exponent).toNat

def toNumber (d : Decimal) : Number := .nearest d.numerator d.denominator

def digitsValue (cs : List Char) : Nat :=
  cs.foldl (fun value c => 10 * value + (c.toNat - '0'.toNat)) 0

/-- Reads digits, then perhaps a point and perhaps more digits. -/
def ofChars? (cs : List Char) : Option Decimal :=
  let whole := cs.takeWhile Char.isDigit
  if whole = [] then none
  else
    match cs.dropWhile Char.isDigit with
    | [] => some ⟨digitsValue whole, 0⟩
    | '.' :: places =>
      if places.all Char.isDigit then some ⟨digitsValue (whole ++ places), -places.length⟩
      else none
    | _ => none

end Decimal

inductive TieRule where
  | up
  | toEven
deriving DecidableEq

namespace Number

/-- The exponent of the first decimal digit of the quotient `a / b`, for `a` and `b`
positive. -/
def leadingExponent (a b : Nat) : Int :=
  if b ≤ a then (Nat.toDigits 10 (a / b)).length - 1
  else -(Nat.toDigits 10 ((b - 1) / a)).length

/-- The two decimals with exponent `e` around the quotient `a / b`, the nearer one first. -/
def neighbours (tie : TieRule) (a b : Nat) (e : Int) : List Decimal :=
  let a := a * powerOfTen (-e).toNat
  let b := b * powerOfTen e.toNat
  let low := a / b
  let twice := 2 * (a % b)
  let upFirst := twice > b ∨ twice = b ∧ (tie = .up ∨ low % 2 = 1)
  if upFirst then [⟨low + 1, e⟩, ⟨low, e⟩] else [⟨low, e⟩, ⟨low + 1, e⟩]

def exactDecimal (n : Number) : Decimal := ⟨n.units * Nat.pow 5 1074, -1074⟩

/-- The decimal with the fewest digits that reads back as the magnitude of `n`, and of
those the nearest one. Seventeen digits always suffice. -/
def shortestDecimal (tie : TieRule) (n : Number) : Decimal :=
  let a := n.units
  let b := 1 <<< 1074
  let lead := leadingExponent a b
  let candidates := (List.range 17).flatMap fun (count : Nat) => neighbours tie a b (lead - count)
  (candidates.find? fun d => d.toNumber == n.magnitude).getD n.exactDecimal

end Number

end BracketScript
