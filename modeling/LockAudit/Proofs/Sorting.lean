/-!
# `LockAudit.Proofs.Sorting` — what sorting does to a row

Rows are sorted by merging, which is stable. Three laws follow for every order that is total and transitive:
entries that the order does not tell apart keep their order (`filter_mergeSort`), a row without repetition is
sorted into strict order (`pairwise_mergeSort_of_nodup`), of which there is one for given entries
(`eq_of_mem_iff`), and a part of a row is sorted into a part of the sorted row (`mergeSort_sublist`).

The second part is about orders that compare a number that each entry has, its key: a row in strict order of
keys is what sorting makes of all rows of the same entries (`mergeSort_eq_of_perm`).
-/

namespace LockAudit.Sorting

variable {α : Type} {le : α → α → Bool} {xs ys : List α}

/-- **Sorting is stable**: entries of which each may stand before each other keep their order. -/
theorem filter_mergeSort (trans : ∀ a b c, le a b = true → le b c = true → le a c = true)
    (total : ∀ a b, (le a b || le b a) = true) {p : α → Bool}
    (hp : ∀ a b, p a = true → p b = true → le a b = true) (xs : List α) :
    (xs.mergeSort le).filter p = xs.filter p := by
  have hpair : (xs.filter p).Pairwise fun a b => le a b = true := by
    refine List.pairwise_of_forall_mem_list ?_
    intro a ha b hb
    exact hp a b (List.mem_filter.mp ha).2 (List.mem_filter.mp hb).2
  -- They are in order already, so sorting leaves them as they stand, and adds none.
  have hsub : (xs.filter p).Sublist (xs.mergeSort le) :=
    List.sublist_mergeSort trans total hpair List.filter_sublist
  have hsub := hsub.filter p
  rw [List.filter_filter] at hsub
  simp only [Bool.and_self] at hsub
  have hlen := ((List.mergeSort_perm xs le).filter p).length_eq
  exact (hsub.eq_of_length hlen.symm).symm

/-- A row without repetition is sorted into strict order. -/
theorem pairwise_mergeSort_of_nodup (trans : ∀ a b c, le a b = true → le b c = true → le a c = true)
    (total : ∀ a b, (le a b || le b a) = true) (h : xs.Nodup) :
    (xs.mergeSort le).Pairwise fun a b => le a b = true ∧ a ≠ b :=
  (List.pairwise_mergeSort trans total xs).and ((List.mergeSort_perm xs le).nodup_iff.mpr h)

/-- **A part is sorted into a part of what the whole is sorted into**, if the order tells all entries apart. -/
theorem mergeSort_sublist (trans : ∀ a b c, le a b = true → le b c = true → le a c = true)
    (total : ∀ a b, (le a b || le b a) = true) (antisymm : ∀ a b, le a b = true → le b a = true → a = b)
    (h : xs.Sublist ys) : (xs.mergeSort le).Sublist (ys.mergeSort le) := by
  -- The entries of the part stand somewhere in the sorted whole, and they stand there in order.
  obtain ⟨zs, hperm, hsub⟩ := List.exists_perm_sublist h (List.mergeSort_perm ys le).symm
  have hzs : zs.Pairwise fun a b => le a b = true := (List.pairwise_mergeSort trans total ys).sublist hsub
  have heq : zs = xs.mergeSort le := by
    refine (hperm.trans (List.mergeSort_perm xs le).symm).eq_of_pairwise ?_ hzs
      (List.pairwise_mergeSort trans total xs)
    intro a b _ _ hab hba
    exact antisymm a b hab hba
  exact heq ▸ hsub

/-- **Two rows in strict order that have the same entries are one row.** -/
theorem eq_of_mem_iff {lt : α → α → Prop} (asymm : ∀ a b, lt a b → ¬ lt b a) (hxs : xs.Pairwise lt)
    (hys : ys.Pairwise lt) (h : ∀ a, a ∈ xs ↔ a ∈ ys) : xs = ys := by
  have hne : ∀ a b, lt a b → a ≠ b := by
    rintro a b hab rfl
    exact asymm a a hab hab
  have hperm : xs.Perm ys :=
    (List.perm_ext_iff_of_nodup (hxs.imp (hne _ _)) (hys.imp (hne _ _))).mpr h
  exact hperm.eq_of_pairwise (fun a b _ _ hab hba => absurd hba (asymm a b hab)) hxs hys

/-! ## Sorting by a key -/

section
variable (key : α → Nat)

theorem byKey_trans (a b c : α) (hab : decide (key a ≤ key b) = true) (hbc : decide (key b ≤ key c) = true) :
    decide (key a ≤ key c) = true := by
  rw [decide_eq_true_eq] at *
  omega

theorem byKey_total (a b : α) : (decide (key a ≤ key b) || decide (key b ≤ key a)) = true := by
  rw [Bool.or_eq_true, decide_eq_true_eq, decide_eq_true_eq]
  exact Nat.le_total (key a) (key b)

theorem pairwise_byKey (xs : List α) :
    (xs.mergeSort fun a b => key a ≤ key b).Pairwise fun a b => key a ≤ key b :=
  (List.pairwise_mergeSort (byKey_trans key) (byKey_total key) xs).imp of_decide_eq_true

/-- Entries of one key keep their order. -/
theorem filter_byKey (p : α → Bool) {k : Nat} (hp : ∀ a, p a = true → key a = k) (xs : List α) :
    (xs.mergeSort fun a b => key a ≤ key b).filter p = xs.filter p := by
  refine filter_mergeSort (byKey_trans key) (byKey_total key) ?_ xs
  intro a b ha hb
  exact decide_eq_true (Nat.le_of_eq ((hp a ha).trans (hp b hb).symm))

/-- In a row in strict order, a key belongs to one entry. -/
theorem eq_of_key_eq (h : ys.Pairwise fun a b => key a < key b) {a b : α} (ha : a ∈ ys) (hb : b ∈ ys)
    (heq : key a = key b) : a = b := by
  induction ys with
  | nil => cases ha
  | cons y ys ih =>
    obtain ⟨hy, h⟩ := List.pairwise_cons.mp h
    rcases List.mem_cons.mp ha with rfl | ha' <;> rcases List.mem_cons.mp hb with rfl | hb'
    · rfl
    · exact absurd heq (Nat.ne_of_lt (hy b hb'))
    · exact absurd heq.symm (Nat.ne_of_lt (hy a ha'))
    · exact ih h ha' hb'

/-- **All orders of entries with distinct keys are sorted into one row.** -/
theorem mergeSort_eq_of_perm (h : xs.Perm ys) (hys : ys.Pairwise fun a b => key a < key b) :
    xs.mergeSort (fun a b => key a ≤ key b) = ys := by
  have hperm : (xs.mergeSort fun a b => key a ≤ key b).Perm ys := (List.mergeSort_perm xs _).trans h
  refine List.Perm.eq_of_pairwise ?_ (pairwise_byKey key xs) (hys.imp Nat.le_of_lt) hperm
  intro a b ha hb hab hba
  exact eq_of_key_eq key hys (hperm.mem_iff.mp ha) hb (Nat.le_antisymm hab hba)

end

end LockAudit.Sorting
