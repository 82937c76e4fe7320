import LockAudit.Proofs.Range.Precedence
import LockAudit.Proofs.Range.Refusals

/-!
# `LockAudit.Proofs.Range.Ends` — where a comparator ends, and the prereleases of that release

A caret, a tilde, and a bound with open components admit the releases from the bound up to an end that is not
written. The end is counted up from the numbers that are held fixed (`ends_iff`), and it is a release.
The prereleases of that release come before it and behind everything that the comparator should admit, and
nothing keeps them out: they are in the range (`holds_prereleases_of_end`).

## Contents
- **Ends.** `Sign.Derives`, `Sign.Ends`; `meets_iff_lt`, `ends_iff`.
- **Constraints.** `expand_derives`: a lower end that is written and an upper one that is counted up;
  `all_admits_edges`: both admit the prereleases of the end.
- **Texts.** `constraints_spaced`, `satisfies_spaced`; `constraints_hyphenText`, `satisfies_hyphenText`.
- **Answers.** `holds_prereleases_of_end`.
-/

namespace LockAudit.Range

open LockAudit.Text Version Spelled

variable {sign : Sign} {p b v : List Nat}

/-! ## Ends -/

namespace Spelled

/-- A sign and the numbers of a bound of which a caret, a tilde, or an open component makes an end. -/
def Sign.Derives (sign : Sign) (p : List Nat) : Prop :=
  sign ∈ [Sign.caret, .tilde, .tildeGreater] ∨ sign ∈ [Sign.none, .equal, .lessEqual] ∧ p.length < 3

instance (sign : Sign) (p : List Nat) : Decidable (sign.Derives p) := inferInstanceAs (Decidable (_ ∨ _))

/-- How many numbers of a bound a sign holds fixed. -/
def Sign.fixed : Sign → List Nat → Nat
  | .caret, p => caretFixed p
  | .tilde, p => tildeFixed p
  | .tildeGreater, p => tildeFixed p
  | _, p => p.length

/-- The release at which a comparator ends: the first one that it does not admit, of those that do not lie
    before its bound. -/
structure Sign.Ends (sign : Sign) (p b : List Nat) : Prop where
  length : b.length = 3
  not_before : ¬ b < padded p
  not_meets : ¬ sign.Meets p b
  meets : ∀ v, v.length = 3 → ¬ v < padded p → v < b → sign.Meets p v

/-- The end that is counted up. -/
def Sign.derived (sign : Sign) (p : List Nat) : List Nat := padded (succLast (p.take (sign.fixed p)))

end Spelled

theorem fixed_pos (hne : p ≠ []) (sign : Sign) : 0 < sign.fixed p := by
  have hpos : 0 < p.length := List.length_pos_iff.mpr hne
  cases sign <;> simp only [Sign.fixed, caretFixed, tildeFixed] <;> omega

theorem fixed_le (sign : Sign) (p : List Nat) : sign.fixed p ≤ p.length := by
  cases sign <;> simp only [Sign.fixed, caretFixed, tildeFixed] <;> omega

section
variable (hlen : p.length ≤ 3)
include hlen

theorem derived_length (sign : Sign) : (sign.derived p).length = 3 := by
  refine padded_length ?_
  rw [succLast_length, List.length_take]
  omega

variable (hne : p ≠ [])
include hne

/-- The end lies behind the bound. -/
theorem lt_derived (sign : Sign) : padded p < sign.derived p := by
  have hcut : (padded p).take (sign.fixed p) = p.take (sign.fixed p) := by
    rw [padded, List.take_append_of_le_length (fixed_le sign p)]
  rw [Sign.derived, lt_upper_iff hlen (padded_length hlen) (fixed_pos hne sign) (fixed_le sign p), hcut]
  exact List.lt_irrefl _

/-- **From its bound on a comparator admits what lies before its end.** -/
theorem meets_iff_lt (hderives : sign.Derives p) (hv : v.length = 3) (hlow : ¬ v < padded p) :
    sign.Meets p v ↔ v < sign.derived p := by
  have hfixed : v < sign.derived p ↔ v.take (sign.fixed p) = p.take (sign.fixed p) := by
    have hbetween := between_iff hlen hv (fixed_pos hne sign) (fixed_le sign p)
    rw [and_congr_right_iff] at hbetween
    exact hbetween hlow
  have hlessEqual : v < padded (succLast (p.take p.length)) ↔ ¬ p < v.take p.length := by
    have hupper := lt_upper_iff hlen hv (List.length_pos_iff.mpr hne) (Nat.le_refl _)
    rwa [List.take_length] at hupper ⊢
  -- A caret and a tilde ask for both ends themselves; the other signs compare the numbers that they have.
  cases sign with
  | caret | tilde | tildeGreater => exact (and_iff_right hlow).trans hfixed.symm
  | none | equal =>
    rw [hfixed]
    show v.take p.length = p ↔ v.take p.length = p.take p.length
    rw [List.take_length]
  | lessEqual => exact hlessEqual.symm
  | less | greater | greaterEqual => exact absurd hderives (by simp [Sign.Derives])

/-- **A comparator ends where its fixed numbers, counted up, lead to**, and nowhere else. -/
theorem ends_iff (hderives : sign.Derives p) : sign.Ends p b ↔ b = sign.derived p := by
  have hmeets := fun {v} hv hlow => meets_iff_lt (v := v) hlen hne hderives hv hlow
  have hbehind : ¬ sign.derived p < padded p := List.lt_asymm (lt_derived hlen hne sign)
  constructor
  · intro h
    -- An end before the derived one would be admitted, and one behind it would admit the derived one.
    refine eq_of_not_lt (fun hlt => ?_) fun hlt => ?_
    · exact h.not_meets ((hmeets h.length h.not_before).mpr hlt)
    · have hadmitted := h.meets _ (derived_length hlen sign) hbehind hlt
      exact List.lt_irrefl _ ((hmeets (derived_length hlen sign) hbehind).mp hadmitted)
  · rintro rfl
    refine ⟨derived_length hlen sign, hbehind, fun hadmitted => ?_, fun v hv hlow hlt => ?_⟩
    · exact List.lt_irrefl _ ((hmeets (derived_length hlen sign) hbehind).mp hadmitted)
    · exact (hmeets hv hlow).mpr hlt

end

/-- With everything open there is no end. -/
theorem not_ends_nil (hderives : sign.Derives []) : ¬ sign.Ends [] b := by
  intro h
  refine h.not_meets ?_
  have hlow : ¬ b < padded [] := not_lt_zeros h.length
  cases sign with
  | none | equal => exact List.take_zero
  | lessEqual => exact List.not_lt_nil _
  | caret | tilde | tildeGreater => exact ⟨hlow, rfl⟩
  | less | greater | greaterEqual => exact absurd hderives (by simp [Sign.Derives])

/-! ## Constraints -/

/-- The constraints of such a comparator, with its lower end. -/
def edges (sign : Sign) (lower : Version) (b : List Nat) : List Constraint :=
  if sign = .lessEqual then [⟨.lt, ofRelease b⟩] else [⟨.ge, lower⟩, ⟨.lt, ofRelease b⟩]

/-- **A comparator with a derived end** is read as its lower end, which may have a suffix, and a release. -/
theorem expand_derives (hlen : p.length ≤ 3) (hne : p ≠ []) (hcount : ∀ n ∈ p, Countable n)
    (hderives : sign.Derives p) (suffix : List Char) :
    expand sign.operator ⟨p, suffix⟩ =
      (fun lower => edges sign lower (sign.derived p)) <$> Partial.lower ⟨p, suffix⟩ := by
  have hupper : ∀ k, Partial.upper ⟨p, suffix⟩ k = .ok (behind (p.take k)) := upper_eq hcount
  have hcaret : caretWidth ⟨p, suffix⟩ = Sign.caret.fixed p := caretWidth_eq hne hlen
  have htilde : tildeWidth ⟨p, suffix⟩ = Sign.tilde.fixed p := Nat.min_comm ..
  obtain ⟨n, ns, rfl⟩ := List.exists_cons_of_ne_nil hne
  -- With three numbers these signs would set one constraint, without an end.
  have hshort : sign ∈ [Sign.none, .equal, .lessEqual] → (n :: ns).length ≠ 3 := by
    intro hsign h3
    rcases hderives with h | ⟨-, hlt⟩
    · simp only [List.mem_cons, List.not_mem_nil, or_false] at h hsign
      rcases h with rfl | rfl | rfl <;> simp at hsign
    · omega
  cases hlower : Partial.lower ⟨n :: ns, suffix⟩ with
  | error e => cases sign <;> simp only [expand, Sign.operator, hlower] <;> rfl
  | ok lower =>
    cases sign with
    | caret =>
      simp only [expand, Sign.operator, hlower, hupper, hcaret]
      rfl
    | tilde | tildeGreater =>
      simp only [expand, Sign.operator, hlower, hupper, htilde]
      rfl
    | none | equal | lessEqual =>
      simp only [expand, Sign.operator, hlower, hupper, if_neg (hshort (by decide))]
      rfl
    | less | greater | greaterEqual => exact absurd hderives (by simp [Sign.Derives])

/-- A version comes behind all whose numbers are less, whatever their markers are. -/
theorem order_of_release_lt {x y : Version} (hepoch : x.epoch = y.epoch)
    (hlen : x.release.length = y.release.length) (h : y.release < x.release) : x.order y = .gt := by
  have hfirst : compare [x.epoch] [y.epoch] = .eq := by
    rw [hepoch]
    exact Std.ReflCmp.compare_self
  show compare ([x.epoch] :: significant x.release :: x.key.drop 2)
    ([y.epoch] :: significant y.release :: y.key.drop 2) = .gt
  rw [List.compare_cons_cons, hfirst, Ordering.eq_then, List.compare_cons_cons (x := significant x.release),
    compare_significant hlen, compare_eq_gt_iff.mpr h]
  rfl

variable {t : Triple} {lower : Version}

/-- The prereleases of a release lie before it. -/
theorem upper_admits (t : Triple) (s : Stage) :
    (Constraint.mk .lt (ofRelease t.numbers)).admits (staged t.numbers (some s)) = true := by
  have hself : compare t.numbers t.numbers = .eq := Std.ReflCmp.compare_self
  have horder := order_staged (rfl : t.numbers.length = t.numbers.length) (some s) none
  rw [hself, Ordering.eq_then, compare_stageKey_none] at horder
  exact congrArg Ordering.isLT horder

/-- **The prereleases of an end lie before it and behind the lower end.** -/
theorem all_admits_edges (sign : Sign) (s : Stage) (hepoch : lower.epoch = 0) (hlen : lower.release.length = 3)
    (hlt : lower.release < t.numbers) :
    (edges sign lower t.numbers).all (·.admits (staged t.numbers (some s))) = true := by
  have hbehind : (staged t.numbers (some s)).order lower = .gt :=
    order_of_release_lt hepoch.symm hlen.symm hlt
  have hlower : (Constraint.mk .ge lower).admits (staged t.numbers (some s)) = true :=
    congrArg Ordering.isGE hbehind
  unfold edges
  split <;> simp only [List.all_cons, List.all_nil, upper_admits, hlower, Bool.and_true]

/-! ## Texts -/

/-- How a prerelease is written. -/
def prereleaseText (t : Triple) (s : Stage) : List Char := points t.rows ++ s.text

theorem parseInstalled_prereleaseText (t : Triple) (s : Stage) :
    parseInstalled (prereleaseText t s) = .ok (staged t.numbers (some s)) := parseInstalled_stage t (some s)

/-- A sign, some spaces if there is one, and a word. -/
def spaced (sign : Sign) (gap : Nat) (w : List Char) : List Char :=
  sign.text ++ (if sign = .none then [] else spaces gap) ++ w

section
variable {w : List Char} (hw : IsWord w) (hop : ∀ c ∈ w, isOperatorChar c = false) (gap : Nat)
include hw

/-- Such a text has one word or two. -/
theorem words_spaced (sign : Sign) :
    words (spaced sign gap w) = [sign.text ++ w] ∨ words (spaced sign gap w) = [sign.text, w] := by
  by_cases hsign : sign = .none
  · subst hsign
    exact .inl (words_of_isWord hw)
  rw [spaced, if_neg hsign]
  cases gap with
  | zero => exact .inl (by rw [spaces, List.replicate_zero, List.append_nil, words_of_isWord (isWord_sign hw sign)])
  | succ n =>
    have hword : IsWord sign.text := ⟨Sign.text_ne_nil hsign, sign.not_blank⟩
    rw [List.append_assoc, spaces_succ_append, words_append_cons hword (by decide),
      words_blanks_append blank_spaces, words_of_isWord hw]
    exact .inr rfl

theorem tight_spaced (sign : Sign) : Tight (spaced sign gap w) := by
  by_cases hsign : sign = .none
  · subst hsign
    exact tight_of_all hw.2
  · rw [spaced, if_neg hsign]
    exact (tight_of_all sign.not_blank).append (tight_of_all hw.2) (Sign.text_ne_nil hsign) hw.1 _

theorem alternatives_spaced (hbar : ∀ c ∈ w, c ≠ '|') (sign : Sign) :
    alternatives (spaced sign gap w) = [spaced sign gap w] := by
  have hgap : ∀ c ∈ (if sign = .none then [] else spaces gap), c ≠ '|' := by
    split
    · exact List.forall_mem_nil _
    · exact not_bar_spaces
  have hall : ∀ c ∈ spaced sign gap w, c ≠ '|' := by
    exact List.forall_mem_append.mpr ⟨not_bar_sign hgap sign, hbar⟩
  exact alternatives_of_tight (tight_spaced hw gap sign) hall

include hop

/-- **The spaces behind a sign do not count.** -/
theorem constraints_spaced (sign : Sign) : constraints (spaced sign gap w) = comparator (sign.text ++ w) := by
  have hjoin : joinOperators (spaced sign gap w) = sign.text ++ w := by
    have hrest : joinOperators w = w := joinOperators_of_all hop
    by_cases hsign : sign = .none
    · subst hsign
      exact hrest
    · obtain ⟨c, r, rfl⟩ := List.exists_cons_of_ne_nil hw.1
      have hstop : Stops isBlank (c :: r) := stops_cons (hw.2 c List.mem_cons_self) r
      rw [spaced, if_neg hsign, List.append_assoc, joinOperators_sign hsign,
        dropWhile_append_stop blank_spaces hstop, hrest]
  unfold constraints
  split
  · next low high hwords =>
    -- A hyphen range has three words.
    rcases words_spaced hw gap sign with h | h <;> (rw [h] at hwords; cases hwords)
  · rw [hjoin, words_of_isWord (isWord_sign hw sign), comparators_singleton]

/-- **Whether a range of one comparator with a derived end holds the prereleases of that end**: it does, unless
    the bound is no version. -/
theorem satisfies_spaced (hbar : ∀ c ∈ w, c ≠ '|') {suffix : List Char}
    (hparse : Partial.parse w = .ok ⟨p, suffix⟩) (hlen : p.length ≤ 3) (hcount : ∀ n ∈ p, Countable n)
    (hderives : sign.Derives p) (hends : sign.Ends p t.numbers) (s : Stage) :
    (∀ lower, Partial.lower ⟨p, suffix⟩ = .ok lower → lower.epoch = 0 → lower.release = padded p →
      satisfies (String.ofList (prereleaseText t s)) (some (String.ofList (spaced sign gap w))) = .ok true) ∧
    (Partial.lower ⟨p, suffix⟩ = .error .invalid →
      satisfies (String.ofList (prereleaseText t s)) (some (String.ofList (spaced sign gap w))) = .ok false) := by
  have hne : p ≠ [] := by
    rintro rfl
    exact not_ends_nil hderives hends
  have hend : t.numbers = sign.derived p := (ends_iff hlen hne hderives).mp hends
  have hinstalled := parseInstalled_prereleaseText t s
  have halternatives := alternatives_spaced hw gap hbar sign
  have hhead : ∃ c r, w = c :: r ∧ isOperatorChar c = false := by
    obtain ⟨c, r, rfl⟩ := List.exists_cons_of_ne_nil hw.1
    exact ⟨c, r, rfl, hop c List.mem_cons_self⟩
  have hconstraints : constraints (spaced sign gap w) =
      (fun lower => edges sign lower t.numbers) <$> Partial.lower ⟨p, suffix⟩ := by
    rw [constraints_spaced hw hop gap sign, comparator_of_parse hhead hparse,
      expand_derives hlen hne hcount hderives, hend]
  constructor
  · intro lower hlower hepoch hrelease
    rw [satisfies_singleton hinstalled halternatives, hconstraints, hlower]
    refine congrArg Except.ok (all_admits_edges sign s hepoch ?_ ?_)
    · rw [hrelease, padded_length hlen]
    · rw [hrelease, hend]
      exact lt_derived hlen hne sign
  · intro hlower
    rw [satisfies_singleton hinstalled halternatives, hconstraints, hlower]
    rfl

end

/-! ## Bounds with a suffix -/

namespace Spelled

/-- A bound with three numbers, perhaps with a `v` in front, and a suffix, which then counts. -/
structure Exact where
  v : Bool
  release : Release
  suffix : List Char
  sign_of_head : ∀ c, suffix.head? = some c → c = '-' ∨ c = '+'
  suffix_plain : ∀ c ∈ suffix, isPlain c = true
  suffix_short : ¬ HasLongRun suffix

/-- How such a bound is written. -/
def Exact.text (e : Exact) : List Char := (if e.v then ['v'] else []) ++ (e.release.text ++ e.suffix)

/-- The numbers of a release as they are written. -/
def Release.rows (r : Release) : List (List Char) := [r.major.row, r.minor.row, r.patch.row]

theorem Release.rows_ne_nil (r : Release) : r.rows ≠ [] := List.cons_ne_nil _ _

theorem Release.isNumeral (r : Release) : ∀ d ∈ r.rows, IsNumeral d := by
  simp only [rows, List.mem_cons, List.not_mem_nil, or_false]
  rintro d (rfl | rfl | rfl)
  · exact r.major.isNumeral
  · exact r.minor.isNumeral
  · exact r.patch.isNumeral

theorem Release.digits_of_mem (r : Release) : ∀ d ∈ r.rows, d ≠ [] ∧ ∀ c ∈ d, isAsciiDigit c = true :=
  fun d hd => (r.isNumeral d hd).1

/-- A release begins with a digit. -/
theorem Release.exists_head (r : Release) : ∃ c s, r.text = c :: s ∧ isAsciiDigit c = true :=
  exists_head_points r.digits_of_mem r.rows_ne_nil

theorem Release.countable (r : Release) : ∀ n ∈ r.numbers, Countable n := by
  simp only [Release.numbers, List.mem_cons, List.not_mem_nil, or_false]
  rintro n (rfl | rfl | rfl)
  · exact r.major.countable
  · exact r.minor.countable
  · exact r.patch.countable

namespace Exact

variable (e : Exact)

theorem isPlain_of_mem {c : Char} (hc : c ∈ e.text) : isPlain c = true := by
  rcases List.mem_append.mp hc with hc | hc
  · split at hc
    · rw [List.mem_singleton.mp hc]
      decide
    · cases hc
  rcases List.mem_append.mp hc with hc | hc
  · rcases mem_points e.release.digits_of_mem hc with hc | rfl
    · exact isPlain_of_isAsciiDigit hc
    · decide
  · exact e.suffix_plain c hc

theorem plain : ∀ c ∈ e.text, isBlank c = false ∧ isOperatorChar c = false ∧ c ≠ '|' := by
  intro c hc
  have h := e.isPlain_of_mem hc
  simp only [isPlain, Bool.and_eq_true, Bool.not_eq_true', bne_iff_ne] at h
  exact ⟨h.1.1, h.1.2, h.2⟩

theorem suffix_not_blank : ∀ c ∈ e.suffix, isBlank c = false := fun c hc =>
  (e.plain c (List.mem_append_right _ (List.mem_append_right _ hc))).1

/-- **Such a bound is read as its numbers and its suffix.** -/
theorem parse_text : Partial.parse e.text = .ok ⟨e.release.numbers, e.suffix⟩ := by
  have hparse : Partial.parse (e.release.text ++ e.suffix) = .ok ⟨e.release.numbers, e.suffix⟩ :=
    parse_rows e.release.rows_ne_nil (Nat.le_refl 3) e.release.isNumeral e.sign_of_head e.suffix_not_blank
  obtain ⟨c, r, hcr, hc⟩ := e.release.exists_head
  have htext : e.release.text ++ e.suffix = c :: (r ++ e.suffix) := congrArg (· ++ e.suffix) hcr
  have htight : Tight (e.release.text ++ e.suffix) :=
    tight_of_all fun c hc => (e.plain c (List.mem_append_right _ hc)).1
  unfold text
  split
  · refine (parse_v htight (by simp [htext]) fun s hs => ?_).trans hparse
    rw [htext] at hs
    rw [(List.cons.inj hs).1] at hc
    exact absurd hc (by decide)
  · exact hparse

theorem isWord : IsWord e.text := by
  obtain ⟨c, r, hcr, -⟩ := e.release.exists_head
  have hne : e.release.text ++ e.suffix ≠ [] := by simp [hcr]
  exact ⟨List.append_ne_nil_of_right_ne_nil _ hne, fun c hc => (e.plain c hc).1⟩

/-- The version of such a bound, if it is one. -/
def version : Except Fault Version := Partial.lower ⟨e.release.numbers, e.suffix⟩

theorem version_notRefused : NotRefused e.version := by
  refine lower_notRefused ⟨e.release.countable, ?_, e.suffix_short⟩
  intro c hc
  rcases e.sign_of_head c hc with rfl | rfl <;> rfl

end Exact

end Spelled

/-! ## Answers -/

/-- How a hyphen range is written, with a word as its lower end. -/
def hyphenText (low : List Char) (left right : Nat) (high : Bound) : List Char :=
  low ++ spaces (left + 1) ++ ['-'] ++ spaces (right + 1) ++ high.text

/-- **The constraints of a hyphen range** are those of its lower end, and one for its upper end. -/
theorem constraints_hyphenText {low : List Char} (hlow : IsWord low) (left right : Nat) {high : Bound}
    (hhigh : high.numbers.length < 3) (hne : high.numbers ≠ []) :
    constraints (hyphenText low left right high) =
      (fun cs => cs ++ [⟨.lt, ofRelease (Sign.lessEqual.derived high.numbers)⟩]) <$>
        constraints ('>' :: '=' :: low) := by
  have hderives : Sign.lessEqual.Derives high.numbers := .inr ⟨by decide, hhigh⟩
  have hgreatest : hyphenEnd ⟨high.numbers, []⟩ =
      .ok [⟨.lt, ofRelease (Sign.lessEqual.derived high.numbers)⟩] := by
    have hexpand := expand_derives high.numbers_length_le hne high.countable hderives []
    rw [lower_eq high.countable] at hexpand
    exact (hyphenEnd_eq_expand high.numbers_length_le high.countable).trans hexpand
  have hword : IsWord ('>' :: '=' :: low) := isWord_sign hlow .greaterEqual
  have hleast : constraints ('>' :: '=' :: low) = Partial.parse low >>= expand .ge := constraints_of_isWord hword
  have htext : constraints (hyphenText low left right high) = hyphen low high.text := by
    rw [constraints, hyphenText, words_hyphen hlow high.isWord]
    rfl
  rw [htext, hleast, hyphen, high.parse_text]
  show (Partial.parse low >>= fun p => expand .ge p >>= fun least =>
    hyphenEnd ⟨high.numbers, []⟩ >>= fun greatest => pure (least ++ greatest)) = _
  rw [hgreatest]
  -- The upper end is read first, but nothing can go wrong there.
  cases Partial.parse low with
  | error e => rfl
  | ok p => cases h : expand .ge p <;> (simp only [bind, Except.bind, h]; rfl)

theorem alternatives_hyphenText {low : List Char} (hlow : IsWord low) (hbar : ∀ c ∈ low, c ≠ '|')
    (left right : Nat) (high : Bound) :
    alternatives (hyphenText low left right high) = [hyphenText low left right high] := by
  have hall : ∀ c ∈ hyphenText low left right high, c ≠ '|' := by
    simp only [hyphenText, List.forall_mem_append]
    exact ⟨⟨⟨⟨hbar, not_bar_spaces⟩, by decide⟩, not_bar_spaces⟩, high.not_bar⟩
  have htight : Tight (hyphenText low left right high) := by
    have h := (tight_of_all hlow.2).append high.tight hlow.1 high.isWord.1
      (spaces (left + 1) ++ ['-'] ++ spaces (right + 1))
    simpa only [hyphenText, List.append_assoc] using h
  exact alternatives_of_tight htight hall

/-- Before the prereleases of its upper end a hyphen range is as open as its lower end alone. -/
theorem satisfies_hyphenText {low : List Char} (hlow : IsWord low) (hbar : ∀ c ∈ low, c ≠ '|')
    (left right : Nat) {high : Bound} (hhigh : high.numbers.length < 3)
    (hends : Sign.lessEqual.Ends high.numbers t.numbers) (s : Stage) :
    satisfies (String.ofList (prereleaseText t s)) (some (String.ofList (hyphenText low left right high))) =
      satisfies (String.ofList (prereleaseText t s)) (some (String.ofList ('>' :: '=' :: low))) := by
  have hderives : Sign.lessEqual.Derives high.numbers := .inr ⟨by decide, hhigh⟩
  have hne : high.numbers ≠ [] := by
    intro hnil
    rw [hnil] at hderives hends
    exact not_ends_nil hderives hends
  have hend : t.numbers = Sign.lessEqual.derived high.numbers :=
    (ends_iff high.numbers_length_le hne hderives).mp hends
  have hinstalled := parseInstalled_prereleaseText t s
  have hleast : alternatives ('>' :: '=' :: low) = ['>' :: '=' :: low] :=
    alternatives_of_isWord (isWord_sign hlow .greaterEqual) (not_bar_sign hbar .greaterEqual)
  have hconstraints := constraints_hyphenText hlow left right hhigh hne
  rw [← hend] at hconstraints
  have halternatives := alternatives_hyphenText hlow hbar left right high
  rw [satisfies_singleton hinstalled halternatives, satisfies_singleton hinstalled hleast, hconstraints]
  cases constraints ('>' :: '=' :: low) with
  | error e => cases e <;> rfl
  | ok cs =>
    show Except.ok ((cs ++ [Constraint.mk .lt (ofRelease t.numbers)]).all _) = _
    rw [List.all_append, List.all_cons, List.all_nil, upper_admits, Bool.and_true, Bool.and_true]

/-- **Nothing keeps the prereleases of an end out.** Each of them is in the range of a comparator with that
    end, if the bound is a version; and it is in a hyphen range with that end exactly if it is not before the
    lower end. -/
theorem holds_prereleases_of_end (t : Triple) (s : Stage) :
    (∀ c : Comparator, c.sign.Derives c.bound.numbers → c.sign.Ends c.bound.numbers t.numbers →
      satisfies (String.ofList (prereleaseText t s)) (some (String.ofList c.text)) = .ok true) ∧
    (∀ (sign : Sign) (gap : Nat) (e : Exact), sign.Derives e.release.numbers →
      sign.Ends e.release.numbers t.numbers →
      satisfies (String.ofList (prereleaseText t s)) (some (String.ofList (spaced sign gap e.text))) =
        .ok e.version.toOption.isSome) ∧
    (∀ (low : List Char) (left right : Nat) (high : Bound), IsWord low → (∀ c ∈ low, c ≠ '|') →
      high.numbers.length < 3 → Sign.lessEqual.Ends high.numbers t.numbers →
      satisfies (String.ofList (prereleaseText t s)) (some (String.ofList (hyphenText low left right high))) =
        satisfies (String.ofList (prereleaseText t s)) (some (String.ofList ('>' :: '=' :: low)))) := by
  refine ⟨fun c hderives hends => ?_, fun sign gap e hderives hends => ?_,
    fun low left right high hlow hbar hhigh hends => ?_⟩
  · have hanswer := (satisfies_spaced c.bound.isWord c.bound.not_operator c.gap c.bound.not_bar
      c.bound.parse_text c.bound.numbers_length_le c.bound.countable hderives hends s).1
    exact hanswer _ (lower_eq c.bound.countable) rfl rfl
  · obtain ⟨hread, hinvalid⟩ := satisfies_spaced e.isWord (fun c hc => (e.plain c hc).2.1) gap
      (fun c hc => (e.plain c hc).2.2) e.parse_text (Nat.le_refl 3) e.release.countable hderives hends s
    cases hversion : e.version with
    | ok lower =>
      obtain ⟨hepoch, hrelease, -⟩ := ofSemantic_ok padded_ne_nil e.sign_of_head e.suffix_not_blank hversion
      exact hread lower hversion hepoch hrelease
    | error fault =>
      cases fault with
      | invalid => exact hinvalid hversion
      | numeral refusal => exact absurd hversion (e.version_notRefused refusal)
  · exact satisfies_hyphenText hlow hbar left right hhigh hends s

/-- A number of one digit. -/
def digit (c : Char) (h : isAsciiDigit c = true) : Digits :=
  ⟨[c], List.cons_ne_nil _ _, List.forall_mem_singleton.mpr h, (by decide : 1 < Numeral.maxDigits)⟩

theorem ends_caret : Sign.caret.Derives [1, 2, 3] ∧ Sign.caret.Ends [1, 2, 3] [2, 0, 0] := by
  have hderives : Sign.caret.Derives [1, 2, 3] := by decide
  exact ⟨hderives, (ends_iff (by decide) (by decide) hderives).mpr (by decide)⟩

theorem ends_lessEqual : Sign.lessEqual.Ends [1] [2, 0, 0] :=
  (ends_iff (by decide) (by decide) (by decide)).mpr (by decide)

/-- The first prerelease of the next major release, in three ranges that end at that release. -/
theorem holds_prereleases_of_end_sample :
    (Sign.caret.Derives [1, 2, 3] ∧ Sign.caret.Ends [1, 2, 3] [2, 0, 0] ∧ Sign.lessEqual.Ends [1] [2, 0, 0]) ∧
    satisfies "2.0.0-0" (some "^1.2.3") = .ok true ∧
    satisfies "2.0.0-0" (some "^ v1.2.3-rc.1") = .ok true ∧
    satisfies "2.0.0-0" (some "1.2.3 - 1") = satisfies "2.0.0-0" (some ">=1.2.3") := by
  let zero : Row := ⟨['0'], by decide⟩
  let t : Triple := ⟨⟨['2'], by decide⟩, zero, zero⟩
  let s : Stage := .numbers zero none
  let one := digit '1' rfl
  let release : Release := ⟨one, digit '2' rfl, digit '3' rfl⟩
  let bound (more : List Spelled.Piece) (h : more.length ≤ 2) : Bound :=
    ⟨false, .number one, more, [], h, .inl rfl, List.forall_mem_nil _, fun h => absurd rfl h⟩
  let comparator : Comparator := ⟨.caret, 0, bound [.number release.minor, .number release.patch] (by decide)⟩
  let exact : Exact := ⟨true, release, "-rc.1".toList, fun c hc => .inl (Option.some.inj hc).symm, by decide,
    not_hasLongRun_of_length (by decide)⟩
  have hprerelease : String.ofList (prereleaseText t s) = "2.0.0-0" := by decide
  obtain ⟨hcomparator, hexact, hhyphen⟩ := holds_prereleases_of_end t s
  refine ⟨⟨ends_caret.1, ends_caret.2, ends_lessEqual⟩, ?_, ?_, ?_⟩
  · have hanswer := hcomparator comparator ends_caret.1 ends_caret.2
    rwa [hprerelease] at hanswer
  · have hanswer := hexact .caret 1 exact ends_caret.1 ends_caret.2
    have hversion : exact.version.toOption.isSome = true := by decide +kernel
    rwa [hprerelease, hversion] at hanswer
  · have hlow : IsWord "1.2.3".toList := ⟨by decide, by decide⟩
    have hanswer := hhyphen "1.2.3".toList 0 0 (bound [] (by decide)) hlow (by decide) (by decide) ends_lessEqual
    rwa [hprerelease] at hanswer

/-- The end that a caret derives does not keep the prereleases of that release out. Written as a comparator of
    its own, with the least prerelease as its bound, it does. The other derived ends let them in as well. -/
theorem prerelease_of_end_not_kept_out :
    (Sign.caret.Derives [1, 2, 3] ∧ Sign.caret.Ends [1, 2, 3] [2, 0, 0]) ∧
    satisfies "2.0.0-0" (some "^1.2.3") = .ok true ∧
    satisfies "2.0.0-0" (some ">=1.2.3 <2.0.0-0") = .ok false ∧
    ∀ p ∈ [("1.3.0-rc.1", "~1.2.3"), ("1.3.0-1.5", "~>1.2"), ("1.3.0-alpha.1", "1.2.x"), ("2.0.0-beta.2", "=1"),
      ("1.3.0-0", "<=1.2"), ("2.4.0-alpha.1", "1.2.3 - 2.3")], satisfies p.1 (some p.2) = .ok true := by
  have hothers : ∀ p ∈ [("1.3.0-rc.1", "~1.2.3"), ("1.3.0-1.5", "~>1.2"), ("1.3.0-alpha.1", "1.2.x"),
      ("2.0.0-beta.2", "=1"), ("1.3.0-0", "<=1.2"), ("2.4.0-alpha.1", "1.2.3 - 2.3")],
      (satisfies p.1 (some p.2)).toOption = some true := by decide +kernel
  refine ⟨ends_caret, ?_, ?_, fun p hp => eq_ok_of_toOption (hothers p hp)⟩
  · exact eq_ok_of_toOption (by decide +kernel)
  · exact eq_ok_of_toOption (by decide +kernel)

end LockAudit.Range
