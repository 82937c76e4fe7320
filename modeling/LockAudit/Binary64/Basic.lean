import LockAudit.Decimal

/-!
# `LockAudit.Binary64.Basic` — binary64 values as words

A floating-point value is its 64-bit word, so two values are equal exactly when their words are, and
zero has two signs. No runtime floating-point operation is involved: every value is computed in
exact arithmetic on `Nat` and rounded once, to nearest with ties to even.

## Contents
- **The word.** `isNegative`, `exponentField`, `fraction`, and the finite magnitude
  `significand * 2 ^ power`.
- **Rounding.** `ofRatio` for a quotient, `ofDecimal` for digits and a power of ten, `ofInt?` for an
  integer, which fails beyond the finite values.
- **Integers.** `toInt?`, defined on the finite values without a fractional part.
-/

namespace LockAudit

/-- A binary64 value, given by its word: sign, eleven bits of exponent, fifty-two of fraction. -/
structure Binary64 where
  word : UInt64
  deriving DecidableEq, Repr

namespace Binary64

/-- The word's sign bit. -/
def isNegative (x : Binary64) : Bool := twoTo 63 ≤ x.word.toNat

/-- The word's eleven bits of exponent. -/
def exponentField (x : Binary64) : Nat := x.word.toNat / twoTo 52 % twoTo 11

/-- The word's fifty-two bits of fraction. -/
def fraction (x : Binary64) : Nat := x.word.toNat % twoTo 52

/-- All exponent bits set: an infinity or no number. -/
def isSpecial (x : Binary64) : Bool := x.exponentField == 2047

/-- No number at all. -/
def isNaN (x : Binary64) : Bool := x.isSpecial && x.fraction != 0

/-- One of the two zeros. -/
def isZero (x : Binary64) : Bool := x.exponentField == 0 && x.fraction == 0

/-- The integer significand of a finite value. -/
def significand (x : Binary64) : Nat :=
  if x.exponentField = 0 then x.fraction else twoTo 52 + x.fraction

/-- The power of two that goes with `significand`. -/
def power (x : Binary64) : Int := (if x.exponentField = 0 then 1 else x.exponentField : Nat) - 1075

/-- The magnitude of a finite value as an exact quotient. -/
def magnitude (x : Binary64) : Nat × Nat :=
  (x.significand * twoTo x.power.toNat, twoTo (-x.power).toNat)

/-- The value with the given sign whose word is `word` apart from the sign bit. -/
def ofWord (negative : Bool) (word : Nat) : Binary64 :=
  ⟨UInt64.ofNat (word + if negative then twoTo 63 else 0)⟩

/-- The word of infinity, sign aside. -/
def infinityWord : Nat := 2047 * twoTo 52

/-- The infinity of the given sign. -/
def infinity (negative : Bool) : Binary64 := ofWord negative infinityWord

/-- The value that is no number. -/
def nan : Binary64 := ofWord false (infinityWord + twoTo 51)

/-- The zero of the given sign. -/
def zero (negative : Bool) : Binary64 := ofWord negative 0

/-- The power of two at which `num / den` has a significand of fifty-three bits, or the least power
    of the format if that is greater. -/
def powerFor (num den : Nat) : Int :=
  let guess : Int := (Nat.log2 num : Int) - Nat.log2 den - 53
  let fits := num * twoTo (-guess).toNat < twoTo 53 * (den * twoTo guess.toNat)
  max (if fits then guess else guess + 1) (-1074)

/-- The word of the finite value nearest to `num / den`, sign aside, or at least `infinityWord` if
    that is out of range. The exponent field counts powers above the least one, and a significand
    that rounds up to fifty-four bits carries into it. -/
def wordOfRatio (num den : Nat) : Nat :=
  if num = 0 then 0
  else
    let e := powerFor num den
    (e + 1074).toNat * twoTo 52 + Decimal.roundDiv (num * twoTo (-e).toNat) (den * twoTo e.toNat)

/-- The value nearest to `num / den`, ties to even; too great a quotient gives an infinity. -/
def ofRatio (negative : Bool) (num den : Nat) : Binary64 :=
  ofWord negative (min (wordOfRatio num den) infinityWord)

/-- The value nearest to `digits * 10 ^ exponent`. The two bounds on the decimal magnitude lie
    outside the format's range and keep the powers of ten small. -/
def ofDecimal (negative : Bool) (digits : Nat) (exponent : Int) : Binary64 :=
  let leading : Int := (Nat.toDigits 10 digits).length + exponent
  if digits = 0 || leading < -400 then zero negative
  else if 400 < leading then infinity negative
  else ofRatio negative (digits * tenTo exponent.toNat) (tenTo (-exponent).toNat)

/-- The value nearest to an integer, if it is finite. -/
def ofInt? (n : Int) : Option Binary64 :=
  let w := wordOfRatio n.natAbs 1
  if w < infinityWord then some (ofWord (n < 0) w) else none

/-- The integer that a value is, if it is one. -/
def toInt? (x : Binary64) : Option Int :=
  let (num, den) := x.magnitude
  if x.isSpecial || num % den != 0 then none
  else some (if x.isNegative then -(num / den : Nat) else (num / den : Nat))

end Binary64

end LockAudit
