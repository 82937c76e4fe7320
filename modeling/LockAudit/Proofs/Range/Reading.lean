import LockAudit.Proofs.Range.Bounds

/-!
# `LockAudit.Proofs.Range.Reading` — a written comparator is read as what it means

The text of a comparator is taken apart from the outside in, as it was put together: sign, bound,
components, numbers. Each layer has one lemma that says how its text is read:

* `component?_text`, `components_text` — the components of a bound, up to what ends them;
* `Bound.parse_text` — a bound is read as its leading numbers;
* `comparator_token`, `comparators_tokens` — comparators give constraints that mean what they mean.
-/

namespace LockAudit.Range

open LockAudit.Text

namespace Spelled

/-! ## Numbers and components -/

theorem Digits.countable (d : Digits) : Countable d.value := countable_value d.row_short

theorem Digits.number (d : Digits) : Version.number d.row = .ok d.value :=
  Version.number_of_length_le (Nat.le_of_lt d.row_short)

/-- What a piece is read as. -/
def Piece.component : Piece → Component
  | .number d => .digits d.row
  | .wild _ => .wild

theorem leadingNumbers_component (ps : List Piece) :
    leadingNumbers (ps.map Piece.component) = .ok (leading ps) := by
  induction ps with
  | nil => rfl
  | cons p ps ih =>
    cases p with
    | wild w => rfl
    | number d =>
      show leadingNumbers (.digits d.row :: ps.map Piece.component) = _
      rw [leadingNumbers, d.number, ih]
      rfl

theorem leading_length_le (ps : List Piece) : (leading ps).length ≤ ps.length := by
  induction ps with
  | nil => exact Nat.le_refl _
  | cons p ps ih =>
    cases p with
    | wild w => exact Nat.zero_le _
    | number d => exact Nat.succ_le_succ ih

/-- With an open component there are fewer leading numbers than components. -/
theorem leading_length_lt {ps : List Piece} {w : Wildcard} (h : Piece.wild w ∈ ps) :
    (leading ps).length < ps.length := by
  induction ps with
  | nil => exact absurd h List.not_mem_nil
  | cons p ps ih =>
    cases p with
    | wild x => exact Nat.succ_pos _
    | number d =>
      have hmem : Piece.wild w ∈ ps := by simpa using h
      exact Nat.succ_lt_succ (ih hmem)

theorem countable_of_mem_leading {ps : List Piece} : ∀ n ∈ leading ps, Countable n := by
  induction ps with
  | nil => intro n hn; cases hn
  | cons p ps ih =>
    cases p with
    | wild w => intro n hn; cases hn
    | number d =>
      intro n hn
      rcases List.mem_cons.mp hn with rfl | hn
      · exact d.countable
      · exact ih n hn

/-- A row of digits is a component, up to what is no digit. -/
theorem component?_digits {d r : List Char} (hne : d ≠ []) (hd : ∀ c ∈ d, isAsciiDigit c = true)
    (hr : Stops isDigit r) : component? (d ++ r) = some (.digits d, r) := by
  obtain ⟨c, s, rfl⟩ := List.exists_cons_of_ne_nil hne
  have hascii : isAsciiDigit c = true := hd c List.mem_cons_self
  have hopen : ¬ (c = 'x' ∨ c = 'X' ∨ c = '*') := by
    have hno := of_isAsciiDigit hascii (fun c => !decide (c = 'x' ∨ c = 'X' ∨ c = '*')) (by decide)
    rw [Bool.not_eq_true', decide_eq_false_iff_not] at hno
    exact hno
  have hrow : ∀ x ∈ c :: s, isDigit x = true := fun x hx => isDigit_of_isAsciiDigit (hd x hx)
  have htake := takeWhile_append_stop hrow hr
  have hdrop := dropWhile_append_stop hrow hr
  rw [List.cons_append] at htake hdrop ⊢
  rw [component?, if_neg hopen, if_pos (isDigit_of_isAsciiDigit hascii), htake, hdrop]

theorem component?_text (p : Piece) {r : List Char} (hr : Stops isDigit r) :
    component? (p.text ++ r) = some (p.component, r) := by
  cases p with
  | wild w => cases w <;> rfl
  | number d => exact component?_digits d.row_ne d.row_ascii hr

/-- Components that are read one by one are read in a row. -/
theorem components_flatMap {α : Type} {text : α → List Char} {component : α → Component} {xs : List α}
    (hxs : ∀ x ∈ xs, ∀ {r}, Stops isDigit r → component? (text x ++ r) = some (component x, r))
    {n : Nat} (hn : xs.length ≤ n) {r : List Char} (hr : Version.EndsNumbers isDigit r) :
    components n (xs.flatMap (fun x => '.' :: text x) ++ r) = (xs.map component, r) := by
  induction xs generalizing n with
  | nil =>
    rw [List.flatMap_nil, List.nil_append]
    cases n with
    | zero => rfl
    | succ n =>
      cases r with
      | nil => rfl
      | cons c r =>
        have hc : c ≠ '.' := by simpa using hr.2 c rfl
        rw [components, List.map_nil]
        intro s h
        exact hc (List.cons.inj h).1
  | cons x xs ih =>
    cases n with
    | zero => exact absurd hn (Nat.not_succ_le_zero _)
    | succ n =>
      have ih := ih (fun y hy => hxs y (List.mem_cons_of_mem x hy)) (Nat.le_of_succ_le_succ hn)
      have hstop : Stops isDigit (xs.flatMap (fun x => '.' :: text x) ++ r) :=
        Version.stops_pointed (by decide) text xs hr.1
      rw [List.flatMap_cons, List.cons_append, List.cons_append, List.append_assoc]
      simp only [components, hxs x List.mem_cons_self hstop, ih, List.map_cons]

theorem components_text {ps : List Piece} {n : Nat} (hn : ps.length ≤ n) {r : List Char}
    (hr : Version.EndsNumbers isDigit r) :
    components n (ps.flatMap (fun p => '.' :: p.text) ++ r) = (ps.map Piece.component, r) :=
  components_flatMap (fun p _ _ hr => component?_text p hr) hn hr

/-! ## Bounds -/

/-- What may follow three components: a sign and more, on one line. -/
theorem isSuffix_of_sign {s : List Char} (h : ∀ c, s.head? = some c → c = '-' ∨ c = '+')
    (hline : '\n' ∉ s) : isSuffix s = true := by
  cases s with
  | nil => rfl
  | cons c r =>
    have hc : (c == '-' || c == '+') = true := by simpa using h c rfl
    have hr : r.contains '\n' = false := by
      rw [← Bool.not_eq_true, List.contains_iff_mem]
      exact fun hmem => hline (List.mem_cons_of_mem c hmem)
    rw [isSuffix, hc, hr]
    rfl

theorem isPlain_of_isAsciiDigit {c : Char} (h : isAsciiDigit c = true) : isPlain c = true :=
  of_isAsciiDigit h isPlain (by decide)

theorem Piece.isPlain_of_mem {p : Piece} {c : Char} (h : c ∈ p.text) : isPlain c = true := by
  cases p with
  | wild w =>
    rw [List.mem_singleton.mp h]
    cases w <;> decide
  | number d => exact isPlain_of_isAsciiDigit (d.row_ascii c h)

/-- The first character of a component is neither `v` nor a hyphen. -/
theorem Piece.exists_head (p : Piece) : ∃ c r, p.text = c :: r ∧ c ≠ 'v' ∧ c ≠ '-' := by
  cases p with
  | wild w => exact ⟨w.sign, [], rfl, by cases w <;> decide, by cases w <;> decide⟩
  | number d =>
    obtain ⟨c, r, hcr⟩ := List.exists_cons_of_ne_nil d.row_ne
    have hascii : isAsciiDigit c = true := d.row_ascii c (by rw [hcr]; exact List.mem_cons_self)
    have hne := of_isAsciiDigit hascii (fun c => c != 'v' && c != '-') (by decide)
    rw [Bool.and_eq_true, bne_iff_ne, bne_iff_ne] at hne
    exact ⟨c, r, hcr, hne.1, hne.2⟩

namespace Bound

variable (b : Bound)

/-- A bound without the `v` in front. -/
def core : List Char := b.first.text ++ (b.more.flatMap (fun p => '.' :: p.text) ++ b.suffix)

theorem text_eq : b.text = (if b.v then ['v'] else []) ++ b.core := by
  have hmap : (b.more.map Piece.text).flatMap (fun x => '.' :: x)
      = b.more.flatMap (fun p => '.' :: p.text) := List.flatMap_map ..
  rw [text, pieces, List.map_cons, Version.points_cons, hmap, core]
  simp only [List.append_assoc]

theorem isPlain_of_mem {c : Char} (h : c ∈ b.text) : isPlain c = true := by
  rw [text_eq, core, List.mem_append, List.mem_append, List.mem_append, List.mem_flatMap] at h
  rcases h with h | h | ⟨p, -, h⟩ | h
  · cases hv : b.v with
    | false => simp [hv] at h
    | true =>
      rw [hv] at h
      rw [List.mem_singleton.mp h]
      decide
  · exact Piece.isPlain_of_mem h
  · rcases List.mem_cons.mp h with rfl | h
    · decide
    · exact Piece.isPlain_of_mem h
  · exact b.suffix_plain c h

/-- A bound is not empty, and it does not begin with a hyphen. -/
theorem exists_head : ∃ c r, b.text = c :: r ∧ c ≠ '-' := by
  obtain ⟨c, r, hcr, -, hne⟩ := b.first.exists_head
  rw [text_eq, core, hcr]
  cases b.v with
  | false => exact ⟨c, _, rfl, hne⟩
  | true => exact ⟨'v', _, rfl, by decide⟩

theorem not_blank : ∀ c ∈ b.text, isBlank c = false := by
  intro c h
  have hp := b.isPlain_of_mem h
  simp only [isPlain, Bool.and_eq_true, Bool.not_eq_true'] at hp
  exact hp.1.1

theorem not_operator : ∀ c ∈ b.text, isOperatorChar c = false := by
  intro c h
  have hp := b.isPlain_of_mem h
  simp only [isPlain, Bool.and_eq_true, Bool.not_eq_true'] at hp
  exact hp.1.2

theorem tight : Tight b.text := tight_of_all b.not_blank

theorem isWord : IsWord b.text := by
  obtain ⟨c, r, hcr, -⟩ := b.exists_head
  exact ⟨by simp [hcr], b.not_blank⟩

theorem numbers_length_le : b.numbers.length ≤ 3 := by
  have hle := leading_length_le b.pieces
  have hmore := b.more_le
  rw [pieces, List.length_cons] at hle
  rw [numbers, pieces]
  omega

theorem countable : ∀ n ∈ b.numbers, Countable n := countable_of_mem_leading

theorem sign_of_head_suffix {c : Char} (hc : b.suffix.head? = some c) : c = '-' ∨ c = '+' := by
  rcases b.suffix_sign with h | h | h
  · rw [h] at hc
    cases hc
  · exact .inl (Option.some.inj (hc.symm.trans h))
  · exact .inr (Option.some.inj (hc.symm.trans h))

/-- What follows the components ends them. -/
theorem endsNumbers_suffix : Version.EndsNumbers isDigit b.suffix :=
  Version.endsNumbers_of_sign fun _ hc => b.sign_of_head_suffix hc

theorem isSuffix_suffix : isSuffix b.suffix = true := by
  refine isSuffix_of_sign (fun _ hc => b.sign_of_head_suffix hc) fun h => ?_
  exact absurd (b.suffix_plain _ h) (by decide)

/-- A suffix stands only behind an open component, so it is never kept. -/
theorem suffix_dropped : (if b.numbers.length = 3 then b.suffix else []) = [] := by
  split
  · next h3 =>
    by_cases hs : b.suffix = []
    · exact hs
    · -- Three numbers leave no place for an open component.
      obtain ⟨w, hw⟩ := b.suffix_open hs
      have hlt := leading_length_lt hw
      have hmore := b.more_le
      rw [List.length_cons] at hlt
      rw [numbers, pieces] at h3
      omega
  · rfl

/-- A bound is read from behind its `v`, and no other bound begins with one. -/
theorem text_cases : b.text = 'v' :: b.core ∨ b.text = b.core ∧ ∀ r, b.core ≠ 'v' :: r := by
  cases hv : b.v with
  | true => exact .inl (by rw [text_eq, hv]; rfl)
  | false =>
    refine .inr ⟨by rw [text_eq, hv]; rfl, ?_⟩
    intro r h
    obtain ⟨c, s, hcs, hne, -⟩ := b.first.exists_head
    rw [core, hcs] at h
    exact hne (List.cons.inj h).1

/-- **A bound is read as its leading numbers.** -/
theorem parse_text : Partial.parse b.text = .ok ⟨b.numbers, []⟩ := by
  have htrim : trim b.text = b.text := b.tight.trim
  have hne : b.text ≠ [] := b.isWord.1
  have hstop : Stops isDigit (b.more.flatMap (fun p => '.' :: p.text) ++ b.suffix) :=
    Version.stops_pointed (by decide) Piece.text b.more b.endsNumbers_suffix.1
  have hfirst : component? b.core
      = some (b.first.component, b.more.flatMap (fun p => '.' :: p.text) ++ b.suffix) :=
    component?_text b.first hstop
  have hmore := components_text b.more_le b.endsNumbers_suffix
  have hnumbers : leadingNumbers (b.first.component :: b.more.map Piece.component)
      = .ok b.numbers := leadingNumbers_component b.pieces
  have hread : (Except.ok b.numbers >>= fun ns =>
      pure (Partial.mk ns (if ns.length = 3 then b.suffix else []))) =
        (.ok ⟨b.numbers, []⟩ : Except Version.Fault Partial) := by
    show Except.ok (Partial.mk b.numbers _) = _
    rw [b.suffix_dropped]
  unfold Partial.parse
  simp only [htrim, if_neg hne]
  -- The letter `v` is taken away, and without it there is none to take away.
  rcases b.text_cases with ht | ⟨ht, hv⟩
  · simp only [ht, hfirst, hmore, if_pos b.isSuffix_suffix, hnumbers, hread]
  · simp only [ht, hfirst, hmore, if_pos b.isSuffix_suffix, hnumbers, hread]

end Bound

/-! ## Comparators -/

/-- A comparator without the spaces behind its sign. -/
def Comparator.token (c : Comparator) : List Char := c.sign.text ++ c.bound.text

/-- A sign is told from what follows it. -/
theorem operator_sign (sign : Sign) {x : Char} (hx : isOperatorChar x = false) (r : List Char) :
    operator (sign.text ++ x :: r) = (sign.operator, x :: r) := by
  simp only [isOperatorChar, Bool.or_eq_false_iff, beq_eq_false_iff_ne] at hx
  obtain ⟨⟨⟨⟨hlt, hgt⟩, heq⟩, hcaret⟩, htilde⟩ := hx
  cases sign <;> simp [Sign.text, Sign.operator, operator, *]

theorem operator_token (c : Comparator) : operator c.token = (c.sign.operator, c.bound.text) := by
  obtain ⟨x, r, hxr, -⟩ := c.bound.exists_head
  have hop : isOperatorChar x = false :=
    c.bound.not_operator x (by rw [hxr]; exact List.mem_cons_self)
  rw [Comparator.token, hxr]
  exact operator_sign c.sign hop r

/-- A comparator's constraints exist and mean what the comparator means. -/
theorem comparator_token (c : Comparator) :
    ∃ cs, comparator c.token = .ok cs ∧ Says cs (c.sign.Meets c.bound.numbers) := by
  obtain ⟨cs, hcs, hmeans⟩ := expand_says c.bound.numbers_length_le c.bound.countable c.sign
  refine ⟨cs, ?_, hmeans⟩
  rw [comparator, operator_token, c.bound.parse_text]
  exact hcs

/-- And so do those of several comparators, all of which must hold. -/
theorem comparators_tokens (cs : List Comparator) :
    ∃ ds, comparators (cs.map Comparator.token) = .ok ds ∧
      Says ds (fun v => ∀ c ∈ cs, c.sign.Meets c.bound.numbers v) := by
  induction cs with
  | nil => exact ⟨[], rfl, says_nil.congr fun v _ => by simp⟩
  | cons c cs ih =>
    obtain ⟨ds, hds, hmeans⟩ := comparator_token c
    obtain ⟨es, hes, hrest⟩ := ih
    refine ⟨ds ++ es, ?_, (hmeans.append hrest).congr fun v _ => by rw [List.forall_mem_cons]⟩
    rw [List.map_cons, comparators, hds, hes]
    rfl

end Spelled

end LockAudit.Range
