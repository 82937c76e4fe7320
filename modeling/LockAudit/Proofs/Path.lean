import LockAudit.Path
import LockAudit.Proofs.Text.Pieces

/-!
# `LockAudit.Proofs.Path` — the order of paths, and their texts

Paths are compared name by name. This is the dictionary order of their rows of names, which `Before` says
without a computation (`le_iff`). It is not the order of their texts.

A text of names between slashes gives the names back (`split_intercalate`), so among names without a slash two
rows have two texts (`intercalate_injective`).
-/

namespace LockAudit.Path

variable {p q : Path} {ms ns : List String}

/-! ## Order -/

/-- A path comes before another: the first names that differ decide, and if there are none, the shorter path
    comes first. -/
def Before (p q : Path) : Prop := List.Lex (· < ·) (p.root :: p.names) (q.root :: q.names)

theorem Before.asymm (h : p.Before q) : ¬ q.Before p := List.lex_asymm String.lt_asymm h

theorem namesLe_iff : namesLe ms ns = true ↔ ms = ns ∨ List.Lex (· < ·) ms ns := by
  induction ms generalizing ns with
  | nil =>
    cases ns with
    | nil => simp [namesLe]
    | cons n ns => exact iff_of_true rfl (.inr .nil)
  | cons m ms ih =>
    cases ns with
    | nil => simp [namesLe, List.not_lex_nil]
    | cons n ns =>
      rw [List.cons_lex_cons_iff]
      by_cases h : m = n
      · subst h
        rw [namesLe, if_pos rfl, ih]
        simp only [List.cons.injEq, true_and, String.lt_irrefl, false_or]
      · have hle : m ≤ n ↔ m < n := by
          rw [← String.not_le]
          constructor
          · exact fun hmn hnm => h (String.le_antisymm hmn hnm)
          · exact fun hnm => (String.le_total m n).resolve_right hnm
        simp [namesLe, h, hle]

/-- **The order by which paths are sorted.** -/
theorem le_iff : p.le q = true ↔ p = q ∨ p.Before q := by
  obtain ⟨r, ms⟩ := p
  obtain ⟨s, ns⟩ := q
  rw [le, namesLe_iff, Before, List.cons.injEq, mk.injEq]

/-- A hyphen comes before a slash, but not before the end of a name. -/
example : le ⟨"", ["a", "b"]⟩ ⟨"", ["a-b"]⟩ = true ∧ "a-b" < "a/b" := by decide

theorem le_trans (p q r : Path) (hpq : p.le q = true) (hqr : q.le r = true) : p.le r = true := by
  rcases le_iff.mp hpq with rfl | hpq
  · exact hqr
  · rcases le_iff.mp hqr with rfl | hqr
    · exact le_iff.mpr (.inr hpq)
    · exact le_iff.mpr (.inr (List.lex_trans String.lt_trans hpq hqr))

theorem le_antisymm (p q : Path) (hpq : p.le q = true) (hqp : q.le p = true) : p = q := by
  rcases le_iff.mp hpq with rfl | hpq
  · rfl
  · rcases le_iff.mp hqp with rfl | hqp
    · rfl
    · exact absurd hqp hpq.asymm

theorem namesLe_total (ms ns : List String) : namesLe ms ns = true ∨ namesLe ns ms = true := by
  induction ms generalizing ns with
  | nil => exact .inl rfl
  | cons m ms ih =>
    cases ns with
    | nil => exact .inr rfl
    | cons n ns =>
      by_cases h : m = n
      · subst h
        simpa [namesLe] using ih ns
      · simpa [namesLe, h, Ne.symm h] using String.le_total m n

theorem le_total (p q : Path) : (p.le q || q.le p) = true := by
  rw [Bool.or_eq_true]
  exact namesLe_total _ _

/-! ## Texts -/

/-- What was put below a path is what lies below it. -/
theorem below?_append (p : Path) (ns : List String) : below? ⟨p.root, p.names ++ ns⟩ p = some ns := by
  unfold below?
  rw [if_pos ⟨rfl, List.prefix_append p.names ns⟩, List.drop_left]

theorem toString_relative (h : ns ≠ []) : toString ⟨"", ns⟩ = "/".intercalate ns := by
  unfold toString
  rw [if_neg fun hnil => h hnil.2, String.empty_append]

/-- A text of names between slashes gives the names back. -/
theorem split_intercalate (hne : ns ≠ []) (h : ∀ n ∈ ns, '/' ∉ n.toList) :
    Text.split (· == '/') ("/".intercalate ns).toList = ns.map String.toList := by
  have hplain : ∀ n ∈ ns, ∀ c ∈ n.toList, (c == '/') = false := by
    intro n hn c hc
    rw [beq_eq_false_iff_ne]
    rintro rfl
    exact h n hn hc
  clear h
  induction ns with
  | nil => exact absurd rfl hne
  | cons n ns ih =>
    obtain ⟨hn, hplain⟩ := List.forall_mem_cons.mp hplain
    by_cases hns : ns = []
    · subst hns
      rw [String.intercalate_singleton]
      exact Text.split_of_all hn
    · have htext : ("/".intercalate (n :: ns)).toList = n.toList ++ '/' :: ("/".intercalate ns).toList := by
        rw [String.intercalate_cons_of_ne_nil hns, String.toList_append, String.toList_append, List.append_assoc]
        rfl
      rw [htext, Text.split_append_cons hn rfl, ih hns hplain, List.map_cons]

/-- **Two rows of names have two texts**, if no name has a slash. -/
theorem intercalate_injective (hms : ms ≠ []) (hns : ns ≠ []) (hm : ∀ n ∈ ms, '/' ∉ n.toList)
    (hn : ∀ n ∈ ns, '/' ∉ n.toList) (h : "/".intercalate ms = "/".intercalate ns) : ms = ns := by
  have hsplit := split_intercalate hms hm
  rw [h, split_intercalate hns hn] at hsplit
  exact (List.map_inj_right fun _ _ => String.toList_inj.mp).mp hsplit.symm

end LockAudit.Path
