import LockAudit.Binary64.Basic

/-!
# `LockAudit.Binary64.Arithmetic` — sums, products and order

Sums and products of binary64 values: the exact result, rounded once. An infinity wins over finite
values; what has no answer is no number. Values are ordered by what they are in units of the least one.
-/

namespace LockAudit.Binary64

/-- The value with the other sign. -/
def neg (x : Binary64) : Binary64 :=
  ofWord (!x.isNegative) (x.word.toNat % twoTo 63)

/-- A finite value in units of `2 ^ -1074`, which makes it an integer. -/
def inLeastUnits (x : Binary64) : Int :=
  let n : Nat := x.significand * twoTo (x.power + 1074).toNat
  if x.isNegative then -n else n

/-- The sum. Two zeros of different sign, and two opposite values, add up to the positive zero. -/
def add (x y : Binary64) : Binary64 :=
  if x.isNaN || y.isNaN then nan
  else if x.isSpecial then
    if y.isSpecial && x.isNegative != y.isNegative then nan else x
  else if y.isSpecial then y
  else
    let n := x.inLeastUnits + y.inLeastUnits
    if n = 0 then zero (x.isNegative && y.isNegative)
    else ofRatio (n < 0) n.natAbs (twoTo 1074)

/-- The product. -/
def mul (x y : Binary64) : Binary64 :=
  let negative := x.isNegative != y.isNegative
  if x.isNaN || y.isNaN then nan
  else if x.isSpecial || y.isSpecial then
    if x.isZero || y.isZero then nan else infinity negative
  else
    let (a, b) := x.magnitude
    let (c, d) := y.magnitude
    ofRatio negative (a * c) (b * d)

/-- The order. An infinity is beyond all finite values, and what is no number has no place in it. -/
def le (x y : Binary64) : Bool := !x.isNaN && !y.isNaN && decide (x.inLeastUnits ≤ y.inLeastUnits)

/-- A zero is nothing in any units. -/
theorem inLeastUnits_of_isZero {x : Binary64} (h : x.isZero = true) : x.inLeastUnits = 0 := by
  have hfields : x.exponentField = 0 ∧ x.fraction = 0 := by simpa [isZero] using h
  simp [inLeastUnits, significand, hfields]

end LockAudit.Binary64
