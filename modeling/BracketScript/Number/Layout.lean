import BracketScript.Number.Decimal

/-! A number is laid out as text in one of three ways: plain for messages and listings,
and with an exponent at the extremes for structural dumps and for documents. -/
namespace BracketScript

structure NumberLayout where
  /-- Whether a number whose first digit has this exponent is written without one. -/
  positional : Int → Bool
  /-- Whether a whole number ends in `.0`. -/
  wholeTail : Bool
  /-- Whether a positive exponent has a sign. -/
  plusSign : Bool
  tie : TieRule

namespace NumberLayout

def plain : NumberLayout := ⟨fun _ => true, false, false, .up⟩

/-- Always with a point or an exponent. -/
def dump : NumberLayout := ⟨fun lead => -4 ≤ lead && lead < 16, true, false, .up⟩

/-- With signed exponents. -/
def document : NumberLayout := ⟨fun lead => -5 ≤ lead && lead < 16, true, true, .toEven⟩

/-- The digits of a decimal without the zeros at its end, and the place of the point
counted from the first digit. -/
def significantDigits (d : Decimal) : List Char × Int :=
  let all := Nat.toDigits 10 d.digits
  ((all.reverse.dropWhile (· == '0')).reverse, all.length + d.exponent)

/-- The digits with the point after `point` of them. -/
def placePoint (l : NumberLayout) (digits : List Char) (point : Int) : List Char :=
  if point ≤ 0 then
    ['0', '.'] ++ List.replicate (-point).toNat '0' ++ digits
  else if digits.length ≤ point.toNat then
    digits ++ List.replicate (point.toNat - digits.length) '0' ++
      if l.wholeTail then ['.', '0'] else []
  else
    digits.take point.toNat ++ '.' :: digits.drop point.toNat

def scientific (l : NumberLayout) (digits : List Char) (lead : Int) : List Char :=
  let sign := if lead < 0 then ['-'] else if l.plusSign then ['+'] else []
  digits.take 1 ++ (if digits.length ≤ 1 then [] else '.' :: digits.drop 1) ++
    'e' :: sign ++ Nat.toDigits 10 lead.natAbs

def magnitudeText (l : NumberLayout) (n : Number) : List Char :=
  if n.units = 0 then '0' :: if l.wholeTail then ['.', '0'] else []
  else
    let (digits, point) := significantDigits (n.shortestDecimal l.tie)
    if l.positional (point - 1) then l.placePoint digits point
    else l.scientific digits (point - 1)

end NumberLayout

def Number.text (l : NumberLayout) (n : Number) : String :=
  if n.isNaN then "NaN"
  else
    let magnitude := if n.isFinite then l.magnitudeText n else ['i', 'n', 'f']
    String.ofList (if n.isNegative then '-' :: magnitude else magnitude)

end BracketScript
