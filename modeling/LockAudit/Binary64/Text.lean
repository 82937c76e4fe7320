import LockAudit.Binary64.Basic
import LockAudit.Decimal

/-!
# `LockAudit.Binary64.Text` — decimal texts of binary64 values

Three ways to write a value. `repr` has the fewest digits that read back, positional while the
decimal exponent is from -4 to 15; `fixed` has a given number of places; `roundTo` rounds to a
number of places and stays a value.
-/

namespace LockAudit.Binary64

/-- The reals that round to a finite value other than zero. The gap below a power of two is half
    the gap above it, and the ends belong to it iff the significand is even. -/
def around (x : Binary64) : Decimal.Around :=
  let m := x.significand
  let low := if m = twoTo 52 ∧ 1 < x.exponentField then 4 * m - 1 else 4 * m - 2
  ⟨low, 4 * m, 4 * m + 2, x.power - 2, m % 2 == 0⟩

/-- When a number is written without an exponent, and how its exponent is written. -/
structure ExponentStyle where
  /-- Least decimal exponent that is written positionally. -/
  least : Int
  /-- Greatest decimal exponent that is written positionally. -/
  greatest : Int
  /-- Fewest digits of a written exponent. -/
  exponentDigits : Nat

/-- Numbers from `0.0001` to below `10 ^ 16` are positional; exponents have a sign and two digits. -/
def style : ExponentStyle := ⟨-4, 15, 2⟩

/-- A text with zeros in front, up to a width. -/
def padded (width : Nat) (s : List Char) : List Char := List.replicate (width - s.length) '0' ++ s

/-- The minus sign of a negative value. -/
def sign (x : Binary64) : List Char := if x.isNegative then ['-'] else []

/-- Positional digits: the point stands after `point` digits, with zeros filled in on either side
    and at least one digit after it. -/
def positional (ds : List Char) (point : Int) : List Char :=
  if point ≤ 0 then '0' :: '.' :: List.replicate (-point).toNat '0' ++ ds
  else
    let n := point.toNat
    let whole := ds.take n ++ List.replicate (n - ds.length) '0'
    whole ++ '.' :: (if ds.length ≤ n then ['0'] else ds.drop n)

/-- One digit, the other digits after a point if there are any, and the exponent. -/
def scientific (ds : List Char) (exponent : Int) : List Char :=
  let body := match ds with
    | [] => ['0']
    | [d] => [d]
    | d :: r => d :: '.' :: r
  body ++ 'e' :: (if exponent < 0 then '-' else '+')
    :: padded style.exponentDigits (Nat.toDigits 10 exponent.natAbs)

/-- The shortest text that reads back as the value. -/
def repr (x : Binary64) : List Char :=
  if x.isNaN then "nan".toList
  else if x.isSpecial then x.sign ++ "inf".toList
  else if x.isZero then x.sign ++ "0.0".toList
  else
    let d := Decimal.shortest x.around
    let ds := Nat.toDigits 10 d.digits
    let exponent := d.exponent + ds.length - 1
    x.sign ++
      if style.least ≤ exponent ∧ exponent ≤ style.greatest then positional ds (exponent + 1)
      else scientific ds exponent

/-- The value in units of `10 ^ -places`, rounded to nearest with ties to even, sign aside. -/
def units (places : Nat) (x : Binary64) : Nat :=
  Decimal.roundDiv (x.magnitude.1 * tenTo places) x.magnitude.2

/-- The text with a fixed number of places after the point. -/
def fixed (places : Nat) (x : Binary64) : List Char :=
  if x.isNaN then "nan".toList
  else if x.isSpecial then x.sign ++ "inf".toList
  else
    let ds := padded (places + 1) (Nat.toDigits 10 (x.units places))
    let whole := ds.length - places
    x.sign ++ ds.take whole ++ if places = 0 then [] else '.' :: ds.drop whole

/-- The value nearest to the one with the given number of places. -/
def roundTo (places : Nat) (x : Binary64) : Binary64 :=
  if x.isSpecial then x else ofDecimal x.isNegative (x.units places) (-places)

end LockAudit.Binary64
