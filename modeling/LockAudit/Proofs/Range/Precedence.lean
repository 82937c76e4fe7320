import LockAudit.Proofs.Range.Comparison
import LockAudit.Proofs.Version.Numbered

/-!
# `LockAudit.Proofs.Range.Precedence` — numeric prereleases keep their precedence

A prerelease of numbers alone is respelled as an alpha with a revision, and versions are then compared by
rows in which a missing part has a place of its own. Among releases and such prereleases this is the
precedence of semantic versions (`Numeric.precedence`): numbers first, a prerelease before its release, its
first number, and of prereleases with the same first number the one without a second before all others.

* `compare_stageKey` — the rows behind the numbers are compared as the prereleases are.
* `lower_stage` — such a version as the bound of a range.
* `satisfies_precedence` — so a comparator holds exactly if the precedence says so.
-/

namespace LockAudit.Range

open LockAudit.Text Version Spelled

/-! ## Versions -/

/-- A release, or a prerelease of it with one number or two. -/
structure Numeric where
  release : Triple
  prerelease : Option (Row × Option Row)

namespace Numeric

/-- The prerelease as a stage. -/
def stage (v : Numeric) : Option Stage := v.prerelease.map fun p => .numbers p.1 p.2

/-- How the version is written: `X.Y.Z`, `X.Y.Z-N` or `X.Y.Z-N.M`. -/
def text (v : Numeric) : List Char := points v.release.rows ++ stageText v.stage

/-- The precedence of the second numbers: a missing one is less than any. -/
def secondPrecedence : Option Row → Option Row → Ordering
  | none, none => .eq
  | none, some _ => .lt
  | some _, none => .gt
  | some m, some k => compare m.value k.value

/-- The precedence of the prereleases: a missing one is greater than any. -/
def prereleasePrecedence : Option (Row × Option Row) → Option (Row × Option Row) → Ordering
  | none, none => .eq
  | none, some _ => .gt
  | some _, none => .lt
  | some (n, m), some (k, l) => (compare n.value k.value).then (secondPrecedence m l)

/-- The precedence of two versions. -/
def precedence (v w : Numeric) : Ordering :=
  (compare v.release.numbers w.release.numbers).then (prereleasePrecedence v.prerelease w.prerelease)

/-- The row of a second number in the key of a version. -/
def secondRow (m : Option Row) : List Nat := m.elim [0] fun m => [1, m.value]

theorem compare_secondRow (m k : Option Row) : compare (secondRow m) (secondRow k) = secondPrecedence m k := by
  match m, k with
  | none, none => rfl
  | none, some k => rfl
  | some m, none => rfl
  | some m, some k => simp [secondRow, secondPrecedence, List.compare_cons_cons]

/-- **The rows behind the numbers** have the precedence of the prereleases. -/
theorem compare_stageKey (v w : Numeric) :
    compare (stageKey v.stage) (stageKey w.stage) = prereleasePrecedence v.prerelease w.prerelease := by
  have hkey : ∀ n m, stageKey (some (.numbers n m)) = [[1, n.value], secondRow m, [1]] := by
    intro n m
    cases m <;> rfl
  unfold stage
  match v.prerelease, w.prerelease with
  | none, none => rfl
  | none, some (k, l) => rfl
  | some (n, m), none => rfl
  | some (n, m), some (k, l) =>
    have hfirst : compare [1, n.value] [1, k.value] = compare n.value k.value := by
      simp [List.compare_cons_cons]
    have hlast : compare [[1]] [[1]] = .eq := rfl
    rw [Option.map_some, Option.map_some, hkey, hkey, List.compare_cons_cons, hfirst,
      List.compare_cons_cons (x := secondRow m), compare_secondRow, hlast, Ordering.then_eq]
    rfl

/-! ## Bounds -/

/-- A row can be written anew. -/
theorem writable_value (d : Row) : Numeral.writable d.value = true :=
  Numeral.writable_of_lt (Numeral.value_lt_tenTo d.1) (List.length_pos_iff.mpr d.2.1.1) d.2.2

/-- **As a bound** such a version is the same one, though its numbers are written anew. -/
theorem lower_stage (t : Triple) (s : Option Stage) :
    Partial.lower ⟨t.numbers, stageText s⟩ = .ok (staged t.numbers s) := by
  have hwritable : t.numbers.all Numeral.writable = true := by
    simp [Triple.numbers, writable_value]
  have hdigits := isNumeral_of_mem_digits (List.all_eq_true.mp hwritable)
  have hpadded : padded t.numbers = t.numbers := rfl
  rw [Partial.lower, hpadded, ofSemantic, if_pos hwritable, parse_stage (by simp [Triple.numbers]) hdigits,
    Numeral.map_value_digits]

theorem parse_stageText (t : Triple) (s : Option Stage) :
    Partial.parse (points t.rows ++ stageText s) = .ok ⟨t.numbers, stageText s⟩ :=
  parse_rows t.rows_ne_nil (Nat.le_refl 3) t.isNumeral (fun _ hc => sign_of_head_stageText s hc)
    (not_blank_stageText s)

/-! ## Answers -/

theorem exists_head (v : Numeric) : ∃ c s, v.text = c :: s ∧ isAsciiDigit c = true := by
  obtain ⟨c, s, hcs, hc⟩ := exists_head_points v.release.digits_of_mem v.release.rows_ne_nil
  exact ⟨c, _, by rw [text, hcs]; rfl, hc⟩

theorem isWord (v : Numeric) : IsWord v.text := by
  obtain ⟨c, s, hcs, -⟩ := v.exists_head
  exact ⟨by simp [hcs], fun c hc => Semantic.isBlank_of_isVersionChar (isVersionChar_staged hc)⟩

theorem not_bar (v : Numeric) : ∀ c ∈ v.text, c ≠ '|' := by
  rintro c hc rfl
  exact absurd (isVersionChar_staged hc) (by decide)

variable {sign : Sign} {r : Relation}

/-- **Releases and numeric prereleases are compared by their precedence.** -/
theorem satisfies_precedence (hr : sign.relation? = some r) (v w : Numeric) :
    satisfies (String.ofList v.text) (some (String.ofList (sign.text ++ w.text))) =
      .ok (r.holds (v.precedence w)) := by
  have hinstalled : parseInstalled v.text = .ok (staged v.release.numbers v.stage) :=
    parseInstalled_stage v.release v.stage
  have hconstraints : constraints (sign.text ++ w.text) = .ok [⟨r, staged w.release.numbers w.stage⟩] := by
    rw [constraints_of_isWord (isWord_sign w.isWord sign),
      comparator_of_parse (exists_head_of_digit w.exists_head) (parse_stageText w.release w.stage),
      expand_relation hr rfl, lower_stage]
    rfl
  have halternatives := alternatives_of_isWord (isWord_sign w.isWord sign) (not_bar_sign w.not_bar sign)
  have hlen : v.release.numbers.length = w.release.numbers.length := rfl
  have horder : (staged v.release.numbers v.stage).order (staged w.release.numbers w.stage) = v.precedence w :=
    (order_staged hlen v.stage w.stage).trans (congrArg _ (compare_stageKey v w))
  rw [satisfies_singleton hinstalled halternatives, hconstraints, ← horder]
  exact congrArg Except.ok (Bool.and_true _)

/-- A second number does not outweigh a greater first one. -/
theorem satisfies_precedence_sample :
    Sign.less.relation? = some .lt ∧ satisfies "1.0.0-1.5" (some "<1.0.0-2") = .ok true := by
  let row (c : Char) (h : IsNumeral [c]) : Row := ⟨[c], h⟩
  let release : Triple := ⟨row '1' (by decide), row '0' (by decide), row '0' (by decide)⟩
  let v : Numeric := ⟨release, some (row '1' (by decide), some (row '5' (by decide)))⟩
  let w : Numeric := ⟨release, some (row '2' (by decide), none)⟩
  have hv : String.ofList v.text = "1.0.0-1.5" := by decide
  have hw : String.ofList (Sign.less.text ++ w.text) = "<1.0.0-2" := by decide
  have hprecedence : Relation.lt.holds (v.precedence w) = true := by decide
  have hless : Sign.less.relation? = some .lt := rfl
  have hanswer := satisfies_precedence hless v w
  rw [hv, hw, hprecedence] at hanswer
  exact ⟨hless, hanswer⟩

end Numeric

end LockAudit.Range
