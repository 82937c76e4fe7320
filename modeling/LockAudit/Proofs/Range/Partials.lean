import LockAudit.Proofs.Range.Bounds
import LockAudit.Proofs.Steps

/-!
# `LockAudit.Proofs.Range.Partials` — what a text is taken apart into

Any text may stand where a range has a comparator. This module says what becomes of it, whether it was
written as one or not: a sign is taken off its front, and the rest is no partial, or it has a layout
(`Layout`) of up to three components with points between them and a suffix; then its numbers decide.

* `component?_cases`, `components_cases` — what the scanners of components take, and what they leave.
* `Partial.parse_cases` — the three answers to a text.
* `leadingNumbers_ok`, `leadingNumbers_error` — the numbers of a layout and those that are refused.
* `exists_sign` — the sign of a token.
-/

namespace LockAudit.Range

open LockAudit.Text Version

variable {s r w suffix : List Char} {ws : List (List Char)}

/-! ## Layouts -/

/-- The sign for an open component. -/
def IsOpen (w : List Char) : Prop := w ∈ [['x'], ['X'], ['*']]

instance (w : List Char) : Decidable (IsOpen w) := inferInstanceAs (Decidable (_ ∈ _))

/-- A row of decimal digits of any script. -/
def IsRow (w : List Char) : Prop := w ≠ [] ∧ ∀ c ∈ w, isDigit c = true

instance (w : List Char) : Decidable (IsRow w) := inferInstanceAs (Decidable (_ ∧ _))

/-- A component as it is written. -/
def IsComponent (w : List Char) : Prop := IsOpen w ∨ IsRow w

instance (w : List Char) : Decidable (IsComponent w) := inferInstanceAs (Decidable (_ ∨ _))

/-- What a written component is read as. -/
def componentOf (w : List Char) : Component := if IsOpen w then .wild else .digits w

/-- A text made of components with points between them, perhaps with a `v` in front, and a suffix. -/
structure Layout (s : List Char) (ws : List (List Char)) (suffix : List Char) : Prop where
  text : s = points ws ++ suffix ∨ s = 'v' :: (points ws ++ suffix)
  ne_nil : ws ≠ []
  length_le : ws.length ≤ 3
  component : ∀ w ∈ ws, IsComponent w
  suffix : isSuffix suffix = true

theorem not_isOpen_of_isRow (h : IsRow w) : ¬ IsOpen w := by
  intro hopen
  obtain ⟨-, hdigit⟩ := h
  rcases List.mem_cons.mp hopen with rfl | hopen
  · exact absurd (hdigit 'x' List.mem_cons_self) (by decide)
  rcases List.mem_cons.mp hopen with rfl | hopen
  · exact absurd (hdigit 'X' List.mem_cons_self) (by decide)
  · rw [List.mem_singleton.mp hopen] at hdigit
    exact absurd (hdigit '*' List.mem_cons_self) (by decide)

/-- A suffix begins with a sign, or not at all. -/
theorem sign_of_isSuffix (h : isSuffix suffix = true) : ∀ c, suffix.head? = some c → c = '-' ∨ c = '+' := by
  intro c hc
  cases suffix with
  | nil => cases hc
  | cons d r =>
    cases hc
    simp only [isSuffix, Bool.and_eq_true, Bool.or_eq_true, beq_iff_eq] at h
    exact h.1

/-! ## Scanners -/

/-- A component is taken off the front of a text. -/
theorem component?_cases {c : Component} (h : component? s = some (c, r)) :
    ∃ w, s = w ++ r ∧ IsComponent w ∧ c = componentOf w := by
  cases s with
  | nil => cases h
  | cons a t =>
    rw [component?] at h
    split at h
    · next hopen =>
      have hw : IsOpen [a] := by
        rcases hopen with rfl | rfl | rfl <;> decide
      cases h
      exact ⟨[a], rfl, .inl hw, (if_pos hw).symm⟩
    · split at h
      · next hdigit =>
        have hrow : IsRow ((a :: t).takeWhile isDigit) := by
          refine ⟨?_, List.all_eq_true.mp List.all_takeWhile⟩
          rw [List.takeWhile_cons_of_pos hdigit]
          exact List.cons_ne_nil _ _
        cases h
        exact ⟨_, List.takeWhile_append_dropWhile.symm, .inr hrow,
          (if_neg (not_isOpen_of_isRow hrow)).symm⟩
      · cases h

/-- Further components are taken off the front of what is left, each with the point before it. -/
theorem components_cases (n : Nat) (s : List Char) :
    ∃ ws : List (List Char), (components n s).1 = ws.map componentOf ∧ ws.length ≤ n ∧
      (∀ w ∈ ws, IsComponent w) ∧ s = ws.flatMap (fun w => '.' :: w) ++ (components n s).2 := by
  have hnone : ∀ (m : Nat) (t : List Char), ∃ ws : List (List Char), [] = ws.map componentOf ∧
      ws.length ≤ m ∧ (∀ w ∈ ws, IsComponent w) ∧ t = ws.flatMap (fun w => '.' :: w) ++ t :=
    fun m t => ⟨[], rfl, Nat.zero_le m, List.forall_mem_nil _, rfl⟩
  induction n generalizing s with
  | zero => exact hnone 0 s
  | succ n ih =>
    unfold components
    split
    · next t =>
      split
      · -- No component follows the point, and both are left.
        exact hnone (n + 1) _
      · next c u hc =>
        obtain ⟨w, rfl, hw, rfl⟩ := component?_cases hc
        obtain ⟨ws, hws, hlen, hall, htext⟩ := ih u
        refine ⟨w :: ws, ?_, Nat.succ_le_succ hlen, List.forall_mem_cons.mpr ⟨hw, hall⟩, ?_⟩
        · rw [List.map_cons, ← hws]
        · rw [List.flatMap_cons, List.cons_append, List.cons_append, List.append_assoc]
          exact congrArg (fun x => '.' :: (w ++ x)) htext
    · exact hnone (n + 1) s

/-- **The answers to a text** where a partial may stand: no text leaves everything open, and any other is
    no partial or has a layout, whose numbers then decide. -/
theorem Partial.parse_cases (s : List Char) :
    (trim s = [] ∧ Partial.parse s = .ok ⟨[], []⟩) ∨ Partial.parse s = .error .invalid ∨
      ∃ ws suffix, Layout (trim s) ws suffix ∧ Partial.parse s = (do
        let ns ← leadingNumbers (ws.map componentOf)
        pure ⟨ns, if ns.length = 3 then suffix else []⟩) := by
  by_cases hnil : trim s = []
  · refine .inl ⟨hnil, ?_⟩
    simp only [Partial.parse, if_pos hnil]
  right
  unfold Partial.parse
  extract_lets t u
  rw [if_neg (show ¬ t = [] from hnil)]
  -- From here on only this is used of `u`: the letter is gone, or there was none.
  have hv : t = u ∨ t = 'v' :: u := by
    simp only [u]
    clear_value t
    split
    · exact .inr rfl
    · exact .inl rfl
  clear_value u
  rw [show trim s = t from rfl]
  split
  · exact .inl rfl
  next c r hc =>
  obtain ⟨w, rfl, hw, rfl⟩ := component?_cases hc
  obtain ⟨ws, hws, hlen, hall, htext⟩ := components_cases 2 r
  generalize components 2 r = more at hws htext ⊢
  obtain ⟨cs, suffix⟩ := more
  obtain rfl : cs = ws.map componentOf := hws
  dsimp only at htext ⊢
  split
  · next hsuffix =>
    refine .inr ⟨w :: ws, suffix, ?_, rfl⟩
    have hpoints : w ++ r = points (w :: ws) ++ suffix := by
      rw [points_cons, List.append_assoc]
      exact congrArg (w ++ ·) htext
    rw [hpoints] at hv
    exact {
      text := hv
      ne_nil := List.cons_ne_nil w ws
      length_le := Nat.succ_le_succ hlen
      component := List.forall_mem_cons.mpr ⟨hw, hall⟩
      suffix := hsuffix }
  · exact .inl rfl

/-! ## Numbers -/

theorem componentOf_of_isOpen (h : IsOpen w) : componentOf w = .wild := if_pos h

theorem componentOf_of_isRow (h : IsRow w) : componentOf w = .digits w := if_neg (not_isOpen_of_isRow h)

/-- The leading numbers are those of the rows of digits in front. -/
theorem leadingNumbers_ok {ns : List Nat} (hws : ∀ w ∈ ws, IsComponent w)
    (h : leadingNumbers (ws.map componentOf) = .ok ns) :
    ∃ rows rest, ws = rows ++ rest ∧ (∀ w ∈ rows, IsRow w) ∧ (∀ w, rest.head? = some w → IsOpen w) ∧
      ns = rows.map Numeral.value := by
  induction ws generalizing ns with
  | nil =>
    cases h
    exact ⟨[], [], rfl, List.forall_mem_nil _, by simp, rfl⟩
  | cons w ws ih =>
    rcases hws w List.mem_cons_self with hopen | hrow
    · rw [List.map_cons, componentOf_of_isOpen hopen] at h
      cases h
      exact ⟨[], w :: ws, rfl, List.forall_mem_nil _, by simpa using hopen, rfl⟩
    · rw [List.map_cons, componentOf_of_isRow hrow, leadingNumbers] at h
      obtain ⟨n, hn, h⟩ := exists_of_bind_ok h
      obtain ⟨ms, hms, h⟩ := exists_of_bind_ok h
      cases h
      obtain ⟨rows, rest, rfl, hrows, hrest, rfl⟩ :=
        ih (fun x hx => hws x (List.mem_cons_of_mem w hx)) hms
      have hvalue : n = Numeral.value w := by
        unfold number at hn
        split at hn
        · next m hm =>
          cases hn
          exact (Numeral.read_ok_iff.mp hm).2.symm
        · cases hn
      exact ⟨w :: rows, rest, rfl, List.forall_mem_cons.mpr ⟨hrow, hrows⟩, hrest, by rw [hvalue]; rfl⟩

/-- A number that is refused is one of the components. -/
theorem leadingNumbers_error {e : Fault} (hws : ∀ w ∈ ws, IsComponent w)
    (h : leadingNumbers (ws.map componentOf) = .error e) : ∃ w ∈ ws, IsRow w ∧ number w = .error e := by
  induction ws with
  | nil => cases h
  | cons w ws ih =>
    rcases hws w List.mem_cons_self with hopen | hrow
    · rw [List.map_cons, componentOf_of_isOpen hopen] at h
      cases h
    · rw [List.map_cons, componentOf_of_isRow hrow, leadingNumbers] at h
      rcases bind_error h with h | ⟨n, -, h⟩
      · exact ⟨w, List.mem_cons_self, hrow, h⟩
      rcases bind_error h with h | ⟨ms, -, h⟩
      · obtain ⟨x, hx, hfound⟩ := ih (fun x hx => hws x (List.mem_cons_of_mem w hx)) h
        exact ⟨x, List.mem_cons_of_mem w hx, hfound⟩
      · cases h

/-! ## Signs -/

/-- A token is a sign and what follows it. -/
theorem exists_sign (t : List Char) : ∃ sign : Spelled.Sign,
    sign.operator = (operator t).1 ∧ t = sign.text ++ (operator t).2 := by
  unfold operator
  split
  · exact ⟨.lessEqual, rfl, rfl⟩
  · exact ⟨.greaterEqual, rfl, rfl⟩
  · exact ⟨.less, rfl, rfl⟩
  · exact ⟨.greater, rfl, rfl⟩
  · exact ⟨.equal, rfl, rfl⟩
  · exact ⟨.caret, rfl, rfl⟩
  · exact ⟨.tildeGreater, rfl, rfl⟩
  · exact ⟨.tilde, rfl, rfl⟩
  · exact ⟨.none, rfl, rfl⟩

end LockAudit.Range
