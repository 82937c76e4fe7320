import LockAudit.Proofs.Range.Refusals

/-!
# `LockAudit.Proofs.Range.Union` — a range of ranges

Two ranges with `||` between them are one range, and a version is in it if it is in one of the two. No
grammar is asked for: the texts may be anything, also such that cannot be read.

* `alternatives_barred` — the alternatives of any number of ranges with signs between them.
* `lies_append`, `lies_of_invalid` — a version is in one of two ranges, and not in one that cannot be read.
* `satisfies_barred_perm` — the order of ranges does not matter.
* `satisfies_union` — the law for two ranges, for an order of ranges, and beside a range that cannot be read.
-/

namespace LockAudit.Range

open LockAudit.Text Version

variable {v r s : String}

/-- A text that can stand before a sign: it has no long digits and does not end with a bar. -/
structure Joinable (r : String) : Prop where
  short : ¬ HasLongDigits r.toList
  open_end : r.toList.getLast? ≠ some '|'

/-! ## Texts with signs between them -/

theorem toList_bars (r s : String) : (r ++ "||" ++ s).toList = r.toList ++ '|' :: '|' :: s.toList := by
  simp

theorem not_hasLongDigits_bars (hr : ¬ HasLongDigits r.toList) (hs : ¬ HasLongDigits s.toList) :
    ¬ HasLongDigits (r ++ "||" ++ s).toList := by
  intro h
  rw [toList_bars] at h
  rcases h.of_append_cons (by decide) with h | h
  · exact hr h
  · rcases h.of_append_cons (s := []) (by decide) with h | h
    · exact absurd h (not_hasLongDigits_of_length (by decide))
    · exact hs h

/-- A range and further ones, with signs between them. -/
def barred (r : String) : List String → String
  | [] => r
  | s :: ss => r ++ "||" ++ barred s ss

theorem not_hasLongDigits_barred {ss : List String} (hr : Joinable r) (hss : ∀ s ∈ ss, Joinable s) :
    ¬ HasLongDigits (barred r ss).toList := by
  induction ss generalizing r with
  | nil => exact hr.short
  | cons s ss ih =>
    have hrest := ih (hss s List.mem_cons_self) fun t ht => hss t (List.mem_cons_of_mem s ht)
    exact not_hasLongDigits_bars hr.short hrest

/-- The alternatives of ranges with signs between them are those of each. -/
theorem alternatives_barred {ss : List String} (hr : Joinable r) (hss : ∀ s ∈ ss, Joinable s) :
    alternatives (barred r ss).toList = (r :: ss).flatMap fun s => alternatives s.toList := by
  induction ss generalizing r with
  | nil => simp [barred]
  | cons s ss ih =>
    have hrest := ih (hss s List.mem_cons_self) fun t ht => hss t (List.mem_cons_of_mem s ht)
    rw [barred, toList_bars, alternatives_append hr.open_end, hrest]
    rfl

/-! ## Answers -/

/-- Whether a version is in a range. A text that is no version is in none. -/
def lies (v : String) (r : List Char) : Bool :=
  (parseInstalled v.toList).toOption.any fun x => (alternatives r).any (meets x)

theorem satisfies_eq_lies (hv : ¬ HasLongDigits v.toList) (hr : ¬ HasLongDigits r.toList) :
    satisfies v (some r) = .ok (lies v r.toList) := satisfies_eq_any hv hr

theorem lies_append {r : List Char} (hr : r.getLast? ≠ some '|') (s : List Char) :
    lies v (r ++ '|' :: '|' :: s) = (lies v r || lies v s) := by
  unfold lies
  rw [alternatives_append hr]
  cases (parseInstalled v.toList).toOption with
  | none => rfl
  | some x => exact List.any_append

/-- A range of which no alternative can be read holds no version. -/
theorem lies_of_invalid {r : List Char} (h : ∀ a ∈ alternatives r, constraints a = .error .invalid) :
    lies v r = false := by
  have hmeets : ∀ x, (alternatives r).any (meets x) = false := by
    intro x
    rw [List.any_eq_false]
    intro a ha
    rw [meets, h a ha]
    exact Bool.false_ne_true
  unfold lies
  cases (parseInstalled v.toList).toOption with
  | none => rfl
  | some x => exact hmeets x

/-- The order of ranges with signs between them does not matter. -/
theorem satisfies_barred_perm {rs ss : List String} (hperm : (r :: rs).Perm (s :: ss))
    (hv : ¬ HasLongDigits v.toList) (h : ∀ t ∈ r :: rs, Joinable t) :
    satisfies v (some (barred r rs)) = satisfies v (some (barred s ss)) := by
  have h' : ∀ t ∈ s :: ss, Joinable t := fun t ht => h t (hperm.mem_iff.mpr ht)
  obtain ⟨hr, hrs⟩ := List.forall_mem_cons.mp h
  obtain ⟨hs, hss⟩ := List.forall_mem_cons.mp h'
  rw [satisfies_eq_lies hv (not_hasLongDigits_barred hr hrs),
    satisfies_eq_lies hv (not_hasLongDigits_barred hs hss)]
  unfold lies
  rw [alternatives_barred hr hrs, alternatives_barred hs hss]
  have hany : ∀ x, ((r :: rs).flatMap fun s => alternatives s.toList).any (meets x) =
      ((s :: ss).flatMap fun s => alternatives s.toList).any (meets x) :=
    fun x => (hperm.flatMap_right _).any_eq
  simp only [hany]

/-- **A version is in a union exactly if it is in one of its ranges.** Without long digits the question is
    answered, whatever the two texts are. So the order of ranges does not matter, and a range that cannot be
    read neither hides a match of another one nor adds one. -/
theorem satisfies_union (hv : ¬ HasLongDigits v.toList) :
    (∀ r s, Joinable r → ¬ HasLongDigits s.toList →
      ∃ a b, satisfies v (some r) = .ok a ∧ satisfies v (some s) = .ok b ∧
        satisfies v (some (r ++ "||" ++ s)) = .ok (a || b)) ∧
    (∀ r rs s ss, (r :: rs).Perm (s :: ss) → (∀ t ∈ r :: rs, Joinable t) →
      satisfies v (some (barred r rs)) = satisfies v (some (barred s ss))) ∧
    (∀ r s, Joinable r → Joinable s → (∀ a ∈ alternatives r.toList, constraints a = .error .invalid) →
      satisfies v (some (r ++ "||" ++ s)) = satisfies v (some s) ∧
      satisfies v (some (s ++ "||" ++ r)) = satisfies v (some s)) := by
  have hunion : ∀ r s, Joinable r → ¬ HasLongDigits s.toList →
      satisfies v (some (r ++ "||" ++ s)) = .ok (lies v r.toList || lies v s.toList) := by
    intro r s hr hs
    rw [satisfies_eq_lies hv (not_hasLongDigits_bars hr.short hs), toList_bars, lies_append hr.open_end]
  refine ⟨fun r s hr hs => ?_, fun r rs s ss hperm h => ?_, fun r s hr hs hinvalid => ?_⟩
  · exact ⟨_, _, satisfies_eq_lies hv hr.short, satisfies_eq_lies hv hs, hunion r s hr hs⟩
  · exact satisfies_barred_perm hperm hv h
  · have hnone : lies v r.toList = false := lies_of_invalid hinvalid
    rw [hunion r s hr hs.short, hunion s r hs hr.short, satisfies_eq_lies hv hs.short, hnone]
    simp

/-- Behind an alternative that cannot be read, the next one decides. -/
theorem satisfies_union_sample :
    (¬ HasLongDigits "1.0.0".toList ∧ Joinable "<banana" ∧ Joinable "<2.0.0") ∧
    satisfies "1.0.0" (some ("<banana" ++ "||" ++ "<2.0.0")) = .ok true := by
  have hv : ¬ HasLongDigits "1.0.0".toList := not_hasLongDigits_of_length (by decide)
  have hr : Joinable "<banana" := ⟨not_hasLongDigits_of_length (by decide), by decide⟩
  have hs : Joinable "<2.0.0" := ⟨not_hasLongDigits_of_length (by decide), by decide⟩
  have htrue : satisfies "1.0.0" (some "<2.0.0") = .ok true := eq_ok_of_toOption (by decide +kernel)
  obtain ⟨a, b, -, hb, hab⟩ := (satisfies_union hv).1 _ _ hr hs.short
  obtain rfl : b = true := Except.ok.inj (hb.symm.trans htrue)
  rw [Bool.or_true] at hab
  exact ⟨⟨hv, hr, hs⟩, hab⟩

end LockAudit.Range
