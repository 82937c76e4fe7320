import LockAudit.Proofs.Range.Alternatives
import LockAudit.Proofs.Range.Partials
import LockAudit.Proofs.Version.Semantic

/-!
# `LockAudit.Proofs.Range.Refusals` — ranges that are refused

A range that cannot be read matches nothing, but one with a number that is too long is refused: the
question has no answer then. This happens only where anybody can see it. A number is taken from the text as
it stands, it is counted up at most once, and it is written anew, so without a run of digits as long as the
longest numeral no range is refused (`NotRefused`).

## Contents
- **Steps.** `NotRefused.bind`.
- **Partials and comparators.** `Partial.IsShort`, `parse_isShort`, `expand_notRefused`.
- **Alternatives.** `infix_of_joinOperators`: blanks that are dropped put no two numbers together;
  `constraints_notRefused`.
- **Answers.** `satisfies_eq_any`: whether some alternative is met, tried in whatever order.
-/

namespace LockAudit.Range

open LockAudit.Text Version

variable {α β : Type} {s a w suffix : List Char} {ws : List (List Char)} {p : Partial}

/-! ## Steps -/

/-- A step that is not refused: it may succeed, and it may find a text that is not in the grammar. -/
def NotRefused (x : Except Fault α) : Prop := ∀ e, x ≠ .error (.numeral e)

theorem notRefused_ok (a : α) : NotRefused (.ok a) := nofun

theorem notRefused_invalid : NotRefused (.error .invalid : Except Fault α) := nofun

/-- A row of steps is not refused if none of them is. -/
theorem NotRefused.bind {x : Except Fault α} {f : α → Except Fault β} (hx : NotRefused x)
    (hf : ∀ a, x = .ok a → NotRefused (f a)) : NotRefused (x >>= f) := by
  intro e h
  rcases bind_error h with h | ⟨a, ha, h⟩
  · exact hx e h
  · exact hf a ha e h

/-! ## Partials -/

theorem Layout.infix_rest (h : Layout s ws suffix) : points ws ++ suffix <:+: s := by
  rcases h.text with rfl | rfl
  · exact List.infix_refl _
  · exact (List.suffix_cons _ _).isInfix

theorem Layout.infix_component (h : Layout s ws suffix) (hw : w ∈ ws) : w <:+: s :=
  (Semantic.infix_points hw).trans ((List.prefix_append _ _).isInfix.trans h.infix_rest)

theorem Layout.infix_suffix (h : Layout s ws suffix) : suffix <:+: s :=
  (List.suffix_append _ _).isInfix.trans h.infix_rest

/-- No digit stands at the front of a suffix. -/
theorem stops_of_isSuffix (h : isSuffix suffix = true) : Stops isAsciiDigit suffix := by
  intro c hc
  rcases sign_of_isSuffix h c hc with rfl | rfl <;> decide

/-- A partial whose bounds can be written and read: its numbers leave room to count up, and its suffix has
    no long run. -/
structure Partial.IsShort (p : Partial) : Prop where
  countable : ∀ n ∈ p.numbers, Countable n
  stops : Stops isAsciiDigit p.suffix
  suffix : ¬ HasLongRun p.suffix

/-- What is read of a text without long digits is short. -/
theorem parse_isShort (hs : ¬ HasLongDigits s) (h : Partial.parse s = .ok p) : p.IsShort := by
  rcases Partial.parse_cases s with ⟨-, hparse⟩ | hparse | ⟨ws, suffix, hlayout, hparse⟩
  · rw [hparse] at h
    cases h
    exact ⟨List.forall_mem_nil _, stops_nil _, not_hasLongRun_of_length (by decide)⟩
  · rw [hparse] at h
    cases h
  · rw [hparse] at h
    obtain ⟨ns, hns, h⟩ := exists_of_bind_ok h
    cases h
    obtain ⟨rows, rest, rfl, hrows, -, rfl⟩ := leadingNumbers_ok hlayout.component hns
    refine ⟨fun n hn => ?_, ?_, ?_⟩
    · obtain ⟨row, hrow, rfl⟩ := List.mem_map.mp hn
      have hinfix : row <:+: s :=
        (hlayout.infix_component (List.mem_append_left _ hrow)).trans (infix_trim s)
      have hshort := length_lt_of_infix hs hinfix (hrows row hrow).2
      exact countable_value hshort
    · show Stops isAsciiDigit (if _ then suffix else [])
      split
      · exact stops_of_isSuffix hlayout.suffix
      · exact stops_nil _
    · show ¬ HasLongRun (if _ then suffix else [])
      split
      · exact fun hrun => hs (hrun.hasLongDigits.mono (hlayout.infix_suffix.trans (infix_trim s)))
      · exact not_hasLongRun_of_length (by decide)

theorem parse_notRefused (hs : ¬ HasLongDigits s) : NotRefused (Partial.parse s) := by
  rcases Partial.parse_cases s with ⟨-, hparse⟩ | hparse | ⟨ws, suffix, hlayout, hparse⟩
  · rw [hparse]
    exact notRefused_ok _
  · rw [hparse]
    exact notRefused_invalid
  · rw [hparse]
    refine NotRefused.bind (fun e he => ?_) fun ns _ => notRefused_ok _
    obtain ⟨w, hw, hrow, hnumber⟩ := leadingNumbers_error hlayout.component he
    have hinfix : w <:+: s := (hlayout.infix_component hw).trans (infix_trim s)
    have hshort := length_lt_of_infix hs hinfix hrow.2
    rw [number_of_length_le (Nat.le_of_lt hshort)] at hnumber
    cases hnumber

/-! ## Bounds -/

/-- Numbers with points between them have no run that is longer than theirs. -/
theorem not_hasLongRun_points {ds : List (List Char)} (h : ∀ d ∈ ds, IsNumeral d) :
    ¬ HasLongRun (points ds) := by
  induction ds with
  | nil => exact not_hasLongRun_of_length (by decide)
  | cons d ds ih =>
    have hd : ¬ HasLongRun d := not_hasLongRun_of_length (h d List.mem_cons_self).2
    have hds := ih fun x hx => h x (List.mem_cons_of_mem d hx)
    intro hrun
    cases ds with
    | nil =>
      rw [points_cons, List.flatMap_nil, List.append_nil] at hrun
      exact hd hrun
    | cons x ds =>
      rw [points_cons, List.flatMap_cons, List.cons_append, ← points_cons] at hrun
      rcases hrun.of_append_cons (by decide) with hrun | hrun
      · exact hd hrun
      · exact hds hrun

section
variable (hp : p.IsShort)
include hp

theorem lower_notRefused : NotRefused p.lower := by
  have hwritable := writable_padded fun n hn => (hp.countable n hn).1
  intro e h
  rw [Partial.lower, ofSemantic, if_pos (List.all_eq_true.mpr hwritable)] at h
  have hrun := hasLongRun_of_markers (hasLongRun_of_parse h)
  have hpoints : ¬ HasLongRun (points ((padded p.numbers).map Numeral.digits)) := by
    refine not_hasLongRun_points fun d hd => ?_
    obtain ⟨n, hn, rfl⟩ := List.mem_map.mp hd
    exact isNumeral_digits (hwritable n hn)
  -- A run does not reach from the numbers into the suffix, which begins with a sign.
  cases hsuffix : p.suffix with
  | nil =>
    rw [hsuffix, List.append_nil] at hrun
    exact hpoints hrun
  | cons c r =>
    have hc : isAsciiDigit c = false := hp.stops c (by rw [hsuffix]; rfl)
    have hr : r <:+: p.suffix := by
      rw [hsuffix]
      exact (List.suffix_cons c r).isInfix
    rw [hsuffix] at hrun
    rcases hrun.of_append_cons hc with hrun | hrun
    · exact hpoints hrun
    · exact hp.suffix (hrun.mono hr)

theorem upper_notRefused (k : Nat) : NotRefused (p.upper k) := by
  have hupper : p.upper k = .ok (behind (p.numbers.take k)) := upper_eq hp.countable k
  rw [hupper]
  exact notRefused_ok _

theorem expand_notRefused (op : Operator) : NotRefused (expand op p) := by
  unfold expand
  split
  · cases op <;> exact notRefused_ok _
  · -- Whatever the operator is, nothing else than these bounds is computed.
    refine (lower_notRefused hp).bind fun lower _ => ?_
    split
    · exact (upper_notRefused hp _).bind fun _ _ => notRefused_ok _
    · exact (upper_notRefused hp _).bind fun _ _ => notRefused_ok _
    · split
      · cases op <;> exact notRefused_ok _
      · refine (upper_notRefused hp _).bind fun _ _ => ?_
        cases op <;> exact notRefused_ok _

theorem hyphenEnd_notRefused : NotRefused (hyphenEnd p) := by
  unfold hyphenEnd
  split
  · exact notRefused_ok _
  · split
    · exact (lower_notRefused hp).bind fun _ _ => notRefused_ok _
    · exact (upper_notRefused hp _).bind fun _ _ => notRefused_ok _

end

/-! ## Alternatives -/

theorem comparator_notRefused (hs : ¬ HasLongDigits s) : NotRefused (comparator s) := by
  obtain ⟨sign, -, hsign⟩ := exists_sign s
  have hrest : ¬ HasLongDigits (operator s).2 := by
    intro hrun
    have hsuffix : (operator s).2 <:+ s := ⟨sign.text, hsign.symm⟩
    exact hs (hrun.mono hsuffix.isInfix)
  exact (parse_notRefused hrest).bind fun p hp => expand_notRefused (parse_isShort hrest hp) _

theorem comparators_notRefused {ts : List (List Char)} (h : ∀ t ∈ ts, ¬ HasLongDigits t) :
    NotRefused (comparators ts) := by
  induction ts with
  | nil => exact notRefused_ok _
  | cons t ts ih =>
    refine (comparator_notRefused (h t List.mem_cons_self)).bind fun c _ => ?_
    refine (ih fun x hx => h x (List.mem_cons_of_mem t hx)).bind fun cs _ => ?_
    exact notRefused_ok _

theorem hyphen_notRefused {low high : List Char} (hlow : ¬ HasLongDigits low)
    (hhigh : ¬ HasLongDigits high) : NotRefused (hyphen low high) := by
  refine (parse_notRefused hhigh).bind fun q hq => ?_
  refine (parse_notRefused hlow).bind fun p hp => ?_
  refine (expand_notRefused (parse_isShort hlow hp) _).bind fun _ _ => ?_
  exact (hyphenEnd_notRefused (parse_isShort hhigh hq)).bind fun _ _ => notRefused_ok _

theorem not_isOperatorChar_of_isDigit {c : Char} (h : isDigit c = true) : isOperatorChar c = false := by
  rw [← Bool.not_eq_true]
  intro hop
  simp only [isOperatorChar, Bool.or_eq_true, beq_iff_eq] at hop
  rcases hop with (((rfl | rfl) | rfl) | rfl) | rfl <;> exact absurd h (by decide)

/-- Digits at the front of a joined text stand at the front of the text. -/
theorem prefix_of_joinOperators {ds : List Char} (hds : ∀ c ∈ ds, isDigit c = true)
    (h : ds <+: joinOperators s) : ds <+: s := by
  induction ds generalizing s with
  | nil => exact List.nil_prefix
  | cons d ds ih =>
    cases s with
    | nil =>
      rw [joinOperators] at h
      exact absurd (List.prefix_nil.mp h) (List.cons_ne_nil d ds)
    | cons c s =>
      have hd := not_isOperatorChar_of_isDigit (hds d List.mem_cons_self)
      rw [joinOperators] at h
      split at h
      · next hc =>
        rw [(List.cons_prefix_cons.mp h).1, hc] at hd
        cases hd
      · obtain ⟨hdc, htail⟩ := List.cons_prefix_cons.mp h
        have ih := ih (fun x hx => hds x (List.mem_cons_of_mem d hx)) htail
        exact List.cons_prefix_cons.mpr ⟨hdc, ih⟩

/-- **Joining puts no two rows of digits together**: behind an operator another row begins. -/
theorem infix_of_joinOperators {ds : List Char} (hds : ∀ c ∈ ds, isDigit c = true)
    (h : ds <:+: joinOperators s) : ds <:+: s := by
  fun_induction joinOperators s with
  | case1 => exact h
  | case2 c r hc ih =>
    rcases List.infix_cons_iff.mp h with h | h
    · have hjoin : ds <+: joinOperators (c :: r) := by rw [joinOperators, if_pos hc]; exact h
      exact (prefix_of_joinOperators hds hjoin).isInfix
    · have hdrop : r.dropWhile isBlank <:+: c :: r :=
        ((List.dropWhile_suffix _).trans (List.suffix_cons c r)).isInfix
      exact (ih h).trans hdrop
  | case3 c r hc ih =>
    rcases List.infix_cons_iff.mp h with h | h
    · have hjoin : ds <+: joinOperators (c :: r) := by rw [joinOperators, if_neg hc]; exact h
      exact (prefix_of_joinOperators hds hjoin).isInfix
    · exact (ih h).trans (List.suffix_cons c r).isInfix

theorem infix_of_mem_words (h : w ∈ words s) : w <:+: s := infix_of_mem_split (List.mem_filter.mp h).1

/-- **An alternative is refused for long digits only.** -/
theorem constraints_notRefused (ha : ¬ HasLongDigits a) : NotRefused (constraints a) := by
  unfold constraints
  split
  · next low high hwords =>
    have hword : ∀ w ∈ words a, ¬ HasLongDigits w := fun w hw hrun => ha (hrun.mono (infix_of_mem_words hw))
    rw [hwords] at hword
    exact hyphen_notRefused (hword low (by simp)) (hword high (by simp))
  · -- The words are those of the joined text, so their digits are followed back through both steps.
    refine comparators_notRefused fun w hw hrun => ha ?_
    obtain ⟨ds, hds, hdigits, hlong⟩ := hrun
    exact ⟨ds, infix_of_joinOperators hdigits (hds.trans (infix_of_mem_words hw)), hdigits, hlong⟩

/-! ## Answers -/

/-- Whether a version meets an alternative. One that cannot be read is not met. -/
def meets (v : Version) (a : List Char) : Bool :=
  match constraints a with
  | .ok cs => cs.all (·.admits v)
  | .error _ => false

/-- Unless one is refused, some of the alternatives is met or none is. -/
theorem admits_eq_any {v : Version} {as : List (List Char)} (h : ∀ a ∈ as, NotRefused (constraints a)) :
    admits v as = .ok (as.any (meets v)) := by
  induction as with
  | nil => rfl
  | cons a as ih =>
    have ih := ih fun x hx => h x (List.mem_cons_of_mem a hx)
    have ha := h a List.mem_cons_self
    rw [admits, List.any_cons, meets]
    cases hconstraints : constraints a with
    | ok cs => cases hall : cs.all (·.admits v) <;> simp [ih, hall]
    | error e =>
      cases e with
      | invalid => exact ih
      | numeral e => exact absurd hconstraints (ha e)

/-- **A question without long digits is answered**: an installed version lies in a range exactly if it
    meets one of the alternatives. -/
theorem satisfies_eq_any {v r : String} (hv : ¬ HasLongDigits v.toList) (hr : ¬ HasLongDigits r.toList) :
    satisfies v (some r) = .ok ((parseInstalled v.toList).toOption.any fun x =>
      (alternatives r.toList).any (meets x)) := by
  unfold satisfies
  cases hparse : parseInstalled v.toList with
  | ok x =>
    refine admits_eq_any fun a ha => constraints_notRefused fun hrun => hr ?_
    exact hrun.mono (infix_of_mem_alternatives ha)
  | error e =>
    cases e with
    | invalid => rfl
    | numeral e => exact absurd (hasLongRun_of_parseInstalled hparse).hasLongDigits hv

end LockAudit.Range
