import LockAudit.Binary64.Text

/-!
# `LockAudit.Proofs.Binary64.Text` — numerals and values

Facts on the way between decimal numerals and binary64 values.

* `shortest_around` — the shortest decimal of a value that is not zero is not zero. It is looked for in an
  interval around the value, and the interval ends above zero.
* `isNaN_ofDecimal` — the value of a numeral may be infinite, but it is a number.
* `eq_infinity_of_isSpecial` — what is neither finite nor no number is an infinity.
-/

namespace LockAudit

/-! ## Digits -/

namespace Decimal

variable {a : Around} {e : Int} {d : Scientific}

theorem Around.pos_of_contains {unit scale point : Nat} (hlow : 0 < a.low) (hunit : 0 < unit)
    (h : a.contains unit scale point = true) : 0 < point := by
  have hpos : 0 < a.low * unit := Nat.mul_pos hlow hunit
  have hproduct : 0 < point * scale := by
    unfold Around.contains at h
    split at h
    · simp only [Bool.and_eq_true, decide_eq_true_eq] at h
      omega
    · simp only [Bool.and_eq_true, decide_eq_true_eq] at h
      omega
  exact Nat.pos_of_mul_pos_right hproduct

/-- A point of a grid in an interval above zero is not zero. -/
theorem Around.pos_of_onGrid (hlow : 0 < a.low) (h : a.onGrid e = some d) : 0 < d.digits := by
  have hunit : 0 < twoTo a.power.toNat * tenTo (-e).toNat := Nat.mul_pos (twoTo_pos _) (tenTo_pos _)
  unfold Around.onGrid at h
  dsimp only at h
  split at h
  · next hbelow habove =>
    rw [← Option.some.inj h]
    dsimp only
    split
    · exact pos_of_contains hlow hunit hbelow
    · exact Nat.succ_pos _
  · next hbelow _ =>
    rw [← Option.some.inj h]
    exact pos_of_contains hlow hunit hbelow
  · rw [← Option.some.inj h]
    exact Nat.succ_pos _
  · cases h

/-- Digits that are not zero, or the number zero with no power of ten. -/
def Scientific.IsNormal (d : Scientific) : Prop := 0 < d.digits ∨ d = ⟨0, 0⟩

theorem Around.isNormal_search (hlow : 0 < a.low) (top : Int) (done more : Nat) :
    (a.search top done more).IsNormal := by
  induction more generalizing done with
  | zero => exact .inr rfl
  | succ more ih =>
    rw [Around.search]
    cases hgrid : a.onGrid (top - (done + 1)) with
    | none => exact ih (done + 1)
    | some d => exact .inl (pos_of_onGrid hlow hgrid)

theorem Scientific.isNormal_trimmed (h : d.IsNormal) (n : Nat) : (d.trimmed n).IsNormal := by
  induction n generalizing d with
  | zero => exact h
  | succ n ih =>
    rw [Scientific.trimmed]
    split
    · next hzero => exact ih (.inl (show 0 < d.digits / 10 by omega))
    · exact h

theorem isNormal_shortest (hlow : 0 < a.low) : (shortest a).IsNormal :=
  Scientific.isNormal_trimmed (a.isNormal_search hlow _ 0 20) 20

end Decimal

namespace Binary64

variable {x : Binary64}

theorem significand_pos (h : x.isZero = false) : 0 < x.significand := by
  have hpow := twoTo_pos 52
  unfold significand
  split
  · next hfield =>
    simp only [isZero, hfield, beq_self_eq_true, Bool.true_and, beq_eq_false_iff_ne] at h
    omega
  · omega

/-- The shortest decimal of a value that is not zero has digits. -/
theorem shortest_around (h : x.isZero = false) : (Decimal.shortest x.around).IsNormal := by
  have hpos := significand_pos h
  refine Decimal.isNormal_shortest ?_
  unfold around
  dsimp only
  split <;> omega

/-! ## Values -/

theorem infinityWord_eq : infinityWord = 9218868437227405312 := by decide

theorem twoTo_63 : twoTo 63 = 9223372036854775808 := by decide

theorem twoTo_52 : twoTo 52 = 4503599627370496 := by decide

theorem twoTo_11 : twoTo 11 = 2048 := by decide

/-- A word and its sign do not overlap. -/
theorem toNat_ofWord (negative : Bool) {w : Nat} (h : w < twoTo 63) :
    (ofWord negative w).word.toNat = w + if negative then twoTo 63 else 0 := by
  rw [twoTo_63] at h
  refine UInt64.toNat_ofNat_of_lt' ?_
  rw [UInt64.size, twoTo_63]
  split <;> omega

/-- A word below that of an infinity belongs to a finite value, whatever the sign. -/
theorem isSpecial_ofWord (negative : Bool) {w : Nat} (h : w < infinityWord) :
    (ofWord negative w).isSpecial = false := by
  rw [infinityWord_eq] at h
  have hword := toNat_ofWord negative (w := w) (by rw [twoTo_63]; omega)
  rw [twoTo_63] at hword
  rw [isSpecial, exponentField, hword, twoTo_52, twoTo_11, beq_eq_false_iff_ne]
  split <;> omega

theorem isNaN_infinity (negative : Bool) : (infinity negative).isNaN = false := by
  cases negative <;> decide

/-- A word that is at most that of an infinity belongs to a number. -/
theorem isNaN_ofWord (negative : Bool) {w : Nat} (h : w ≤ infinityWord) :
    (ofWord negative w).isNaN = false := by
  rcases Nat.lt_or_eq_of_le h with hlt | rfl
  · rw [isNaN, isSpecial_ofWord negative hlt, Bool.false_and]
  · exact isNaN_infinity negative

/-- The special values are the infinities and the value that is no number. -/
theorem eq_infinity_of_isSpecial (h : x.isSpecial = true) (hnan : x.isNaN = false) :
    ∃ negative, x = infinity negative := by
  rw [isNaN, h, Bool.true_and, bne_eq_false_iff_eq, fraction, twoTo_52] at hnan
  rw [isSpecial, exponentField, twoTo_52, twoTo_11, beq_iff_eq] at h
  have hlt := x.word.toNat_lt
  have hword : x.word.toNat = infinityWord ∨ x.word.toNat = infinityWord + twoTo 63 := by
    rw [infinityWord_eq, twoTo_63]
    omega
  have hinfinity : ∀ negative, (infinity negative).word.toNat =
      infinityWord + if negative then twoTo 63 else 0 := fun negative =>
    toNat_ofWord negative (by decide)
  rcases hword with hword | hword
  · exact ⟨false, congrArg Binary64.mk (UInt64.toNat_inj.mp (hword.trans (hinfinity false).symm))⟩
  · exact ⟨true, congrArg Binary64.mk (UInt64.toNat_inj.mp (hword.trans (hinfinity true).symm))⟩

/-- **A numeral denotes a number**, if perhaps an infinite one. -/
theorem isNaN_ofDecimal (negative : Bool) (digits : Nat) (exponent : Int) :
    (ofDecimal negative digits exponent).isNaN = false := by
  unfold ofDecimal
  dsimp only
  split
  · exact isNaN_ofWord negative (Nat.zero_le _)
  · split
    · exact isNaN_infinity negative
    · exact isNaN_ofWord negative (Nat.min_le_right _ _)

end Binary64

end LockAudit
