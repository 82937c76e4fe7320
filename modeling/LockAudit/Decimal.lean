/-!
# `LockAudit.Decimal` — powers, rounding and the fewest digits

The two families of numbers by which values are scaled (`twoTo`, `tenTo`): digits shift by a power of
ten, bits by a power of two. `roundDiv` rounds an exact quotient to the nearest natural number, a tie
to the even neighbour. The binary64 values, their fixed-place texts and their three-place roundings
all come from it.

A decimal grid of `n` digits puts its points at the multiples of one power of ten. `shortest` walks
the grids from coarse to fine and takes the first one that has a point inside a given interval
around the value; of two such points the one nearer to the value, and of two equally near the one
with an even last digit.

All quantities are natural numbers over one common denominator, so every comparison is exact.
-/

namespace LockAudit

/-! ## Powers -/

/-- Two, multiplied with itself a number of times. -/
def twoTo (n : Nat) : Nat := Nat.pow 2 n

/-- Ten, multiplied with itself a number of times. -/
def tenTo (n : Nat) : Nat := Nat.pow 10 n

@[simp] theorem twoTo_zero : twoTo 0 = 1 := rfl

theorem twoTo_succ (n : Nat) : twoTo (n + 1) = twoTo n * 2 := rfl

theorem twoTo_pos (n : Nat) : 0 < twoTo n := by
  induction n with
  | zero => decide
  | succ n ih => rw [twoTo_succ]; omega

@[simp] theorem tenTo_zero : tenTo 0 = 1 := rfl

theorem tenTo_succ (n : Nat) : tenTo (n + 1) = tenTo n * 10 := rfl

theorem tenTo_pos (n : Nat) : 0 < tenTo n := by
  induction n with
  | zero => decide
  | succ n ih => rw [tenTo_succ]; omega

namespace Decimal

/-! ## Rounding -/

/-- The natural number nearest to `num / den`; of two equally near ones, the even one. -/
def roundDiv (num den : Nat) : Nat :=
  let q := num / den
  let r := num % den
  if 2 * r < den then q
  else if den < 2 * r then q + 1
  else if q % 2 = 0 then q else q + 1

/-! ## The fewest digits inside an interval -/

/-- Digits and a power of ten: the number `digits * 10 ^ exponent`. -/
structure Scientific where
  digits : Nat
  exponent : Int
  deriving DecidableEq, Repr

/-- An interval around a value: `low`, `mid` and `high` are its ends and the value, as multiples of
    `2 ^ power`; `closed` says whether the ends belong to it. -/
structure Around where
  low : Nat
  mid : Nat
  high : Nat
  power : Int
  closed : Bool

namespace Around

/-- Whether `point / scale` lies in the interval, where `mid` is written `m * unit / scale`. -/
def contains (a : Around) (unit scale point : Nat) : Bool :=
  if a.closed then a.low * unit ≤ point * scale && point * scale ≤ a.high * unit
  else a.low * unit < point * scale && point * scale < a.high * unit

/-- The point of the grid of multiples of `10 ^ e` that lies in the interval, nearest to `mid`. -/
def onGrid (a : Around) (e : Int) : Option Scientific :=
  let unit := twoTo a.power.toNat * tenTo (-e).toNat
  let scale := twoTo (-a.power).toNat * tenTo e.toNat
  let below := a.mid * unit / scale
  let toBelow := a.mid * unit - below * scale
  let toAbove := (below + 1) * scale - a.mid * unit
  let preferBelow := toBelow < toAbove || (toBelow == toAbove && below % 2 == 0)
  match a.contains unit scale below, a.contains unit scale (below + 1) with
  | true, true => some ⟨if preferBelow then below else below + 1, e⟩
  | true, false => some ⟨below, e⟩
  | false, true => some ⟨below + 1, e⟩
  | false, false => none

/-- The number of decimal digits before the point of `mid`, counted below zero for a value with
    zeros after the point. -/
def leading (a : Around) : Int :=
  let num := a.mid * twoTo a.power.toNat
  let den := twoTo (-a.power).toNat
  let count (n : Nat) : Nat := if n = 0 then 0 else (Nat.toDigits 10 n).length
  if den ≤ num then count (num / den) else 1 - count ((den - 1) / num)

/-- The first grid with a hit, from `done + 1` digits on, `more` grids at most. -/
def search (a : Around) (top : Int) (done : Nat) : Nat → Scientific
  | 0 => ⟨0, 0⟩
  | more + 1 => (a.onGrid (top - (done + 1))).getD (search a top (done + 1) more)

end Around

/-- The same number without zeros at the end of the digits. -/
def Scientific.trimmed (d : Scientific) : Nat → Scientific
  | 0 => d
  | n + 1 =>
    if d.digits ≠ 0 ∧ d.digits % 10 = 0 then Scientific.trimmed ⟨d.digits / 10, d.exponent + 1⟩ n
    else d

/-- The shortest decimal in the interval. Seventeen digits always suffice for a binary64 interval;
    the bound leaves room. -/
def shortest (a : Around) : Scientific :=
  (a.search a.leading 0 20).trimmed 20

end Decimal

end LockAudit
