import LockAudit.Proofs.Version.Refusals
import LockAudit.Range

/-!
# `LockAudit.Proofs.Range.Alternatives` — cutting a range

A range is cut at the signs `||`, from the left. Two signs may overlap, so a bar at the end of a text goes
with the next one; behind any other text a sign is found where it was put (`cut_append`), and what stands on
its two sides is cut as it would be alone.

* `cut_append`, `alternatives_append` — the alternatives of two ranges with a sign between them.
* `infix_of_mem_alternatives` — every alternative stands in the range.
-/

namespace LockAudit.Range

open LockAudit.Text

variable {s w a : List Char}

theorem getLast?_tail_ne {c b : Char} (h : (c :: s).getLast? ≠ some b) : s.getLast? ≠ some b := by
  intro hs
  rw [List.getLast?_cons, hs] at h
  exact h rfl

/-- The first piece stands at the front, where the next character is put before it. -/
theorem exists_cut (s : List Char) :
    ∃ u us, cut s = u :: us ∧ u <+: s ∧ ∀ w ∈ us, w <:+: s := by
  fun_induction cut s with
  | case1 => exact ⟨[], [], rfl, List.prefix_refl _, List.forall_mem_nil _⟩
  | case2 r ih =>
    obtain ⟨u, us, hus, hu, hmem⟩ := ih
    refine ⟨[], cut r, rfl, List.nil_prefix, fun w hw => ?_⟩
    rw [hus] at hw
    refine List.infix_cons (List.infix_cons ?_)
    rcases List.mem_cons.mp hw with rfl | hw
    · exact hu.isInfix
    · exact hmem w hw
  | case3 c r _ hcut ih =>
    -- A cut has at least one piece, so there is no such case.
    obtain ⟨u, us, hus, -⟩ := ih
    rw [hcut] at hus
    cases hus
  | case4 c r _ u us hcut ih =>
    obtain ⟨u', us', hus, hu, hmem⟩ := ih
    rw [hcut] at hus
    cases hus
    exact ⟨c :: u, us, rfl, List.cons_prefix_cons.mpr ⟨rfl, hu⟩, fun w hw => List.infix_cons (hmem w hw)⟩

/-- A character that does not begin a sign goes to the front of the first piece. -/
theorem cut_cons {c : Char} (h : ∀ r, c :: s ≠ '|' :: '|' :: r) :
    ∃ u us, cut s = u :: us ∧ cut (c :: s) = (c :: u) :: us := by
  obtain ⟨u, us, hus, -⟩ := exists_cut s
  refine ⟨u, us, hus, ?_⟩
  rw [cut, hus]
  intro r hc hs
  exact h r (by rw [hc, hs])

/-- **A sign cuts a range** behind any text that does not end with a bar. -/
theorem cut_append (hs : s.getLast? ≠ some '|') (r : List Char) :
    cut (s ++ '|' :: '|' :: r) = cut s ++ cut r := by
  fun_induction cut s with
  | case1 => rw [List.nil_append, cut]; rfl
  | case2 t ih =>
    rw [List.cons_append, List.cons_append, cut, ih (getLast?_tail_ne (getLast?_tail_ne hs))]
    rfl
  | case3 c t _ hnil _ =>
    obtain ⟨u, us, hcut, -⟩ := exists_cut t
    rw [hnil] at hcut
    cases hcut
  | case4 c t hbars u us hcut ih =>
    have ih := ih (getLast?_tail_ne hs)
    rw [hcut] at ih
    -- The bar that the sign begins with does not follow another one.
    have hlong : ∀ x, c :: (t ++ '|' :: '|' :: r) ≠ '|' :: '|' :: x := by
      intro x hx
      obtain ⟨hc, htail⟩ := List.cons.inj hx
      cases t with
      | nil => exact hs (by rw [hc]; rfl)
      | cons d t => exact hbars t hc (by rw [(List.cons.inj htail).1])
    obtain ⟨u', us', hcut', hlong'⟩ := cut_cons hlong
    rw [List.cons_append, hlong']
    rw [ih] at hcut'
    cases hcut'
    rfl

theorem cut_of_all (hw : ∀ c ∈ w, c ≠ '|') : cut w = [w] := by
  induction w with
  | nil => simp [cut]
  | cons c w ih =>
    have hc := hw c List.mem_cons_self
    have ih := ih fun x hx => hw x (List.mem_cons_of_mem c hx)
    simp [cut, hc, ih]

/-- A text without bars, and without blanks at its ends, is the one alternative. -/
theorem alternatives_of_tight (hs : Tight s) (hbar : ∀ c ∈ s, c ≠ '|') : alternatives s = [s] := by
  rw [alternatives, cut_of_all hbar, List.map_singleton, hs.trim]

/-- The alternatives of two ranges with a sign between them. -/
theorem alternatives_append (hs : s.getLast? ≠ some '|') (r : List Char) :
    alternatives (s ++ '|' :: '|' :: r) = alternatives s ++ alternatives r := by
  rw [alternatives, cut_append hs, List.map_append]
  rfl

theorem infix_of_mem_cut (h : w ∈ cut s) : w <:+: s := by
  obtain ⟨u, us, hus, hu, hmem⟩ := exists_cut s
  rw [hus] at h
  rcases List.mem_cons.mp h with rfl | h
  · exact hu.isInfix
  · exact hmem w h

/-- Every alternative stands in the range. -/
theorem infix_of_mem_alternatives (h : a ∈ alternatives s) : a <:+: s := by
  obtain ⟨w, hw, rfl⟩ := List.mem_map.mp h
  exact (Version.infix_trim w).trans (infix_of_mem_cut hw)

end LockAudit.Range
