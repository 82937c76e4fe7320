import LockAudit.Proofs.Range.Containment
import LockAudit.Proofs.Version.Semantic

/-!
# `LockAudit.Proofs.Range.Comparison` — semantic versions are totally ordered

An installed version and the bound of a range are read in two ways: the one takes the release off the
front of a text, the other takes it apart into components and writes it anew. For semantic versions
both give the same version (`lower_semantic`), so a comparator compares two versions of one total order.

## Contents
- **Bounds.** `parse_semantic`, `lower_semantic`: a semantic version as the bound of a range.
- **Comparators.** `constraints_semantic`: a sign and a bound are one constraint.
- **One comparator as a range.** `constraints_of_isWord`, `alternatives_of_isWord`.
- **Answers.** `holds` asks whether a comparator holds; `holds_of_reading` and `holds_of_not_accepted`
  answer.
- **The order.** `holds_total_order`.
-/

namespace LockAudit.Range

open LockAudit.Text Version Spelled

variable {v w : Semantic}

/-! ## Bounds -/

theorem leadingNumbers_digits {ds : List (List Char)} (h : ∀ d ∈ ds, d.length ≤ Numeral.maxDigits) :
    leadingNumbers (ds.map .digits) = .ok (ds.map Numeral.value) := by
  induction ds with
  | nil => rfl
  | cons d ds ih =>
    have hd := number_of_length_le (h d List.mem_cons_self)
    have ih := ih fun x hx => h x (List.mem_cons_of_mem d hx)
    rw [List.map_cons, leadingNumbers, hd, ih]
    rfl

/-- **Numbers and a suffix are read as a bound.** The suffix counts only behind three numbers. -/
theorem parse_rows {ds : List (List Char)} (hne : ds ≠ []) (hlen : ds.length ≤ 3)
    (hds : ∀ d ∈ ds, IsNumeral d) {m : List Char} (hsign : ∀ c, m.head? = some c → c = '-' ∨ c = '+')
    (hblank : ∀ c ∈ m, isBlank c = false) :
    Partial.parse (points ds ++ m) = .ok ⟨ds.map Numeral.value, if ds.length = 3 then m else []⟩ := by
  have hdigits : ∀ d ∈ ds, d ≠ [] ∧ ∀ c ∈ d, isAsciiDigit c = true := fun d hd => (hds d hd).1
  have htrim := trim_points_append hdigits hblank
  obtain ⟨c, r, hcr, hc⟩ := exists_head_points hdigits hne
  have hnil : points ds ++ m ≠ [] := by simp [hcr]
  have hv : ∀ t, points ds ++ m ≠ 'v' :: t := by
    intro t ht
    rw [hcr] at ht
    rw [(List.cons.inj ht).1] at hc
    exact absurd hc (by decide)
  obtain ⟨d, ds, rfl⟩ := List.exists_cons_of_ne_nil hne
  have hcomponent : ∀ x ∈ d :: ds, ∀ {r}, Stops isDigit r → component? (x ++ r) = some (.digits x, r) :=
    fun x hx _ hr => component?_digits (hdigits x hx).1 (hdigits x hx).2 hr
  have hends : EndsNumbers isDigit m := endsNumbers_of_sign hsign
  have hstop : Stops isDigit (ds.flatMap (fun x => '.' :: x) ++ m) := stops_pointed (by decide) id ds hends.1
  have hfirst : component? (points (d :: ds) ++ m) = some (.digits d, ds.flatMap (fun x => '.' :: x) ++ m) := by
    rw [points_cons, List.append_assoc]
    exact hcomponent d List.mem_cons_self hstop
  have hmore : components 2 (ds.flatMap (fun x => '.' :: x) ++ m) = (ds.map .digits, m) :=
    components_flatMap (fun x hx => hcomponent x (List.mem_cons_of_mem d hx)) (Nat.le_of_succ_le_succ hlen) hends
  have hsuffix : isSuffix m = true :=
    isSuffix_of_sign hsign fun hline => absurd (hblank _ hline) (by decide)
  have hnumbers : leadingNumbers (.digits d :: ds.map .digits) = .ok ((d :: ds).map Numeral.value) :=
    leadingNumbers_digits fun x hx => (hds x hx).2
  unfold Partial.parse
  simp only [htrim, if_neg hnil, hfirst, hmore, if_pos hsuffix, hnumbers]
  show Except.ok (Partial.mk _ (if ((d :: ds).map Numeral.value).length = 3 then m else [])) = _
  rw [List.length_map]

/-- The letter in front of a partial is not read. -/
theorem parse_v {t : List Char} (ht : Tight t) (hne : t ≠ []) (hv : ∀ r, t ≠ 'v' :: r) :
    Partial.parse ('v' :: t) = Partial.parse t := by
  have htight : Tight (['v'] ++ [] ++ t) := (tight_of_all (by decide)).append ht (by decide) hne []
  have htrim : trim ('v' :: t) = 'v' :: t := htight.trim
  unfold Partial.parse
  simp only [htrim, ht.trim, if_neg hne, if_neg (List.cons_ne_nil 'v' t)]

/-- **A semantic version is read as a bound** with three numbers and what is written behind them. -/
theorem parse_semantic (h : ¬ HasLongRun v.text) :
    Partial.parse v.text = .ok ⟨v.numbers.map Numeral.value, v.suffix⟩ := by
  have hblank : ∀ c ∈ v.suffix, isBlank c = false := fun c hc => v.not_blank c (List.mem_append_right _ hc)
  exact parse_rows v.numbers_ne_nil (Nat.le_refl 3) (fun _ hd => Semantic.isNumeral_of_mem h hd)
    (fun _ hc => v.sign_of_head_suffix hc) hblank

/-- Both readings of a semantic version give the same version. -/
theorem lower_semantic (h : ¬ HasLongRun v.text) :
    Partial.lower ⟨v.numbers.map Numeral.value, v.suffix⟩ = v.reading :=
  Semantic.ofSemantic_numbers h

/-! ## Comparators -/

/-- The relation that a sign stands for, if it is one. -/
def Spelled.Sign.relation? : Sign → Option Relation
  | .none | .equal => some .eq
  | .less => some .lt
  | .lessEqual => some .le
  | .greater => some .gt
  | .greaterEqual => some .ge
  | .caret | .tilde | .tildeGreater => Option.none

variable {sign : Sign} {r : Relation}

/-- Before three numbers, such a sign sets one constraint. -/
theorem expand_relation (hr : sign.relation? = some r) {ns : List Nat} (hlen : ns.length = 3)
    (suffix : List Char) :
    expand sign.operator ⟨ns, suffix⟩ = (fun x => [⟨r, x⟩]) <$> Partial.lower ⟨ns, suffix⟩ := by
  have hne : ns ≠ [] := List.ne_nil_of_length_pos (by omega)
  obtain ⟨n, ns, rfl⟩ := List.exists_cons_of_ne_nil hne
  cases hlower : Partial.lower ⟨n :: ns, suffix⟩ with
  | error e => cases sign <;> cases hr <;> simp only [expand, Sign.operator, hlower] <;> rfl
  | ok x =>
    cases sign <;> cases hr <;> simp only [expand, Sign.operator, hlower, if_pos hlen] <;> rfl

/-- A comparator is read as its sign and what follows it, if that does not go on with an operator. -/
theorem comparator_of_parse {t : List Char} {p : Partial} (hhead : ∃ c s, t = c :: s ∧ isOperatorChar c = false)
    (hp : Partial.parse t = .ok p) (sign : Sign) : comparator (sign.text ++ t) = expand sign.operator p := by
  obtain ⟨c, s, rfl, hc⟩ := hhead
  rw [comparator, operator_sign sign hc, hp]
  rfl

theorem exists_head_of_digit {t : List Char} (h : ∃ c s, t = c :: s ∧ isAsciiDigit c = true) :
    ∃ c s, t = c :: s ∧ isOperatorChar c = false := by
  obtain ⟨c, s, hcs, hc⟩ := h
  exact ⟨c, s, hcs, by simpa using of_isAsciiDigit hc (fun c => !isOperatorChar c) (by decide)⟩

theorem comparator_semantic (hr : sign.relation? = some r) (h : ¬ HasLongRun v.text) :
    comparator (sign.text ++ v.text) = (fun x => [⟨r, x⟩]) <$> v.reading := by
  rw [comparator_of_parse (exists_head_of_digit v.exists_head) (parse_semantic h), ← lower_semantic h]
  exact expand_relation hr rfl v.suffix

/-! ## One comparator as a range -/

theorem joinOperators_of_not_blank {s : List Char} (h : ∀ c ∈ s, isBlank c = false) :
    joinOperators s = s := by
  induction s with
  | nil => rw [joinOperators]
  | cons c s ih =>
    have hs : ∀ x ∈ s, isBlank x = false := fun x hx => h x (List.mem_cons_of_mem c hx)
    have hdrop : s.dropWhile isBlank = s := by
      cases s with
      | nil => rfl
      | cons x s => exact (stops_cons (hs x List.mem_cons_self) s).dropWhile
    rw [joinOperators, hdrop, ih hs, ite_self]

theorem comparators_singleton (t : List Char) : comparators [t] = comparator t := by
  rw [comparators]
  cases comparator t with
  | error e => rfl
  | ok cs =>
    show Except.ok (cs ++ []) = _
    rw [List.append_nil]

/-- The constraints of one word are those of a comparator. -/
theorem constraints_of_isWord {t : List Char} (ht : IsWord t) : constraints t = comparator t := by
  unfold constraints
  rw [words_of_isWord ht]
  show comparators (words (joinOperators t)) = _
  rw [joinOperators_of_not_blank ht.2, words_of_isWord ht, comparators_singleton]

/-- A word without bars is the one alternative. -/
theorem alternatives_of_isWord {t : List Char} (ht : IsWord t) (hbar : ∀ c ∈ t, c ≠ '|') :
    alternatives t = [t] := alternatives_of_tight (tight_of_all ht.2) hbar

theorem isWord_sign {t : List Char} (ht : IsWord t) (sign : Sign) : IsWord (sign.text ++ t) :=
  ⟨by simp [ht.1], List.forall_mem_append.mpr ⟨sign.not_blank, ht.2⟩⟩

theorem not_bar_sign {t : List Char} (ht : ∀ c ∈ t, c ≠ '|') (sign : Sign) : ∀ c ∈ sign.text ++ t, c ≠ '|' := by
  refine List.forall_mem_append.mpr ⟨fun c hc => ?_, ht⟩
  exact bne_iff_ne.mp (sign.forall_mem_text (p := (· != '|')) (by decide) c hc)

theorem isWord_semantic (v : Semantic) : IsWord v.text := by
  obtain ⟨c, t, hct, -⟩ := v.exists_head
  exact ⟨by simp [hct], v.not_blank⟩

theorem not_bar_semantic (v : Semantic) : ∀ c ∈ v.text, c ≠ '|' := by
  rintro c hc rfl
  exact absurd (v.isVersionChar_of_mem hc) (by decide)

theorem constraints_semantic (hr : sign.relation? = some r) (h : ¬ HasLongRun v.text) :
    constraints (sign.text ++ v.text) = (fun x => [⟨r, x⟩]) <$> v.reading := by
  rw [constraints_of_isWord (isWord_sign (isWord_semantic v) sign), comparator_semantic hr h]

/-- There is one alternative. -/
theorem alternatives_semantic (sign : Sign) (v : Semantic) :
    alternatives (sign.text ++ v.text) = [sign.text ++ v.text] :=
  alternatives_of_isWord (isWord_sign (isWord_semantic v) sign) (not_bar_sign (not_bar_semantic v) sign)

/-! ## Answers -/

/-- Whether an installed version is in the range of one comparator: a sign and a semantic version. -/
def holds (v : Semantic) (sign : Sign) (w : Semantic) : Except Numeral.Refusal Bool :=
  satisfies (String.ofList v.text) (some (String.ofList (sign.text ++ w.text)))

/-- The answer of a range of one alternative, to a version, is that of its constraints. -/
theorem satisfies_singleton {s t : List Char} {x : Version} (hx : parseInstalled s = .ok x)
    (ht : alternatives t = [t]) :
    satisfies (String.ofList s) (some (String.ofList t)) = match constraints t with
      | .error .invalid => .ok false
      | .error (.numeral e) => .error e
      | .ok cs => .ok (cs.all (·.admits x)) := by
  unfold satisfies
  rw [String.toList_ofList, hx]
  show admits x (alternatives (String.ofList t).toList) = _
  rw [String.toList_ofList, ht, admits]
  cases constraints t with
  | error e => cases e <;> rfl
  | ok cs =>
    show (if cs.all (·.admits x) = true then _ else admits x []) = Except.ok (cs.all (·.admits x))
    cases cs.all (·.admits x) <;> rfl

theorem holds_of_reading (hr : sign.relation? = some r) (hw : ¬ HasLongRun w.text) {x y : Version}
    (hx : v.reading = .ok x) (hy : w.reading = .ok y) : holds v sign w = .ok (r.holds (x.order y)) := by
  have hconstraints : constraints (sign.text ++ w.text) = .ok [⟨r, y⟩] := by
    rw [constraints_semantic hr hw, hy]
    rfl
  have hv : parseInstalled v.text = .ok x := v.parseInstalled_text.trans hx
  rw [holds, satisfies_singleton hv (alternatives_semantic sign w), hconstraints]
  exact congrArg Except.ok (Bool.and_true _)

theorem holds_of_not_accepted (hr : sign.relation? = some r) (hv : ¬ HasLongRun v.text)
    (hw : ¬ HasLongRun w.text) (h : ¬ v.Accepted ∨ ¬ w.Accepted) : holds v sign w = .ok false := by
  unfold holds satisfies
  rw [String.toList_ofList, v.parseInstalled_text]
  -- An installed version that is none is in no range; a bound that is none is skipped.
  cases hx : v.reading with
  | error e =>
    have hinvalid := Semantic.reading_of_not_accepted hv (fun ⟨x, hok⟩ => by
      rw [v.parseInstalled_text, hx] at hok
      cases hok)
    rw [hx] at hinvalid
    cases hinvalid
    rfl
  | ok x =>
    have haccepted : v.Accepted := Semantic.accepted_iff.mpr ⟨x, hx⟩
    have hinvalid := Semantic.reading_of_not_accepted hw (h.resolve_left (not_not_intro haccepted))
    have hconstraints : constraints (sign.text ++ w.text) = .error .invalid := by
      rw [constraints_semantic hr hw, hinvalid]
      rfl
    show admits x (alternatives (String.ofList (sign.text ++ w.text)).toList) = _
    rw [String.toList_ofList, alternatives_semantic, admits, hconstraints, admits]

/-- The build of the installed version does not count. -/
theorem holds_withoutBuild_left (v : Semantic) (sign : Sign) (w : Semantic) :
    holds v.withoutBuild sign w = holds v sign w := by
  unfold holds satisfies
  rw [String.toList_ofList, String.toList_ofList, v.withoutBuild.parseInstalled_text,
    v.parseInstalled_text, v.withoutBuild_reading]

/-- The build of the bound does not count. -/
theorem holds_withoutBuild_right (hr : sign.relation? = some r) (v : Semantic)
    (hw : ¬ HasLongRun w.text) : holds v sign w.withoutBuild = holds v sign w := by
  have hbuild : ¬ HasLongRun w.withoutBuild.text :=
    fun hrun => hw (hrun.mono w.withoutBuild_text_prefix.isInfix)
  have hadmits : ∀ x, admits x (alternatives (sign.text ++ w.withoutBuild.text))
      = admits x (alternatives (sign.text ++ w.text)) := by
    intro x
    have hsame : constraints (sign.text ++ w.withoutBuild.text) = constraints (sign.text ++ w.text) := by
      rw [constraints_semantic hr hbuild, constraints_semantic hr hw, w.withoutBuild_reading]
    simp only [alternatives_semantic, admits, hsame]
  unfold holds satisfies
  rw [String.toList_ofList, v.parseInstalled_text]
  cases v.reading with
  | error e => cases e <;> rfl
  | ok x =>
    show admits x (alternatives (String.ofList _).toList) = admits x (alternatives (String.ofList _).toList)
    rw [String.toList_ofList, String.toList_ofList, hadmits]

/-! ## The order -/

/-- Versions are ordered as their keys are, which is a total order. -/
instance : Std.TransCmp Version.order := inferInstanceAs (Std.TransCmp (compareOn Version.key))

theorem order_self (x : Version) : x.order x = .eq := Std.ReflCmp.compare_self

/-- The signs that compare, the one that is not written among them. -/
def comparisons : List Sign := [.none, .equal, .less, .lessEqual, .greater, .greaterEqual]

theorem exists_relation_of_mem (h : sign ∈ comparisons) : ∃ r, sign.relation? = some r := by
  simp only [comparisons, List.mem_cons, List.not_mem_nil, or_false] at h
  rcases h with rfl | rfl | rfl | rfl | rfl | rfl <;> exact ⟨_, rfl⟩

/-- An answer that is yes is one for two versions. -/
theorem exists_reading_of_holds (hr : sign.relation? = some r) (hv : ¬ HasLongRun v.text)
    (hw : ¬ HasLongRun w.text) (h : holds v sign w = .ok true) :
    ∃ x y, v.reading = .ok x ∧ w.reading = .ok y ∧ r.holds (x.order y) = true := by
  have haccepted : v.Accepted ∧ w.Accepted := by
    refine Classical.byContradiction fun hno => ?_
    rw [holds_of_not_accepted hr hv hw (Classical.not_and_iff_not_or_not.mp hno)] at h
    cases h
  obtain ⟨x, hx⟩ := Semantic.accepted_iff.mp haccepted.1
  obtain ⟨y, hy⟩ := Semantic.accepted_iff.mp haccepted.2
  rw [holds_of_reading hr hw hx hy] at h
  exact ⟨x, y, hx, hy, Except.ok.inj h⟩

/-- **Installed versions and bounds are in one total order.** -/
theorem holds_total_order {u v w : Semantic} (hu : ¬ HasLongRun u.text) (hv : ¬ HasLongRun v.text)
    (hw : ¬ HasLongRun w.text) :
    (v.Accepted → w.Accepted →
      (∃ a b c, holds v .less w = .ok a ∧ holds v .equal w = .ok b ∧ holds v .greater w = .ok c ∧
        [a, b, c].count true = 1 ∧
        holds v .lessEqual w = .ok (a || b) ∧ holds v .greaterEqual w = .ok (b || c)) ∧
      holds v .none v = .ok true) ∧
    (holds u .less v = .ok true → holds v .less w = .ok true → holds u .less w = .ok true) ∧
    (¬ v.Accepted ∨ ¬ w.Accepted → ∀ sign ∈ comparisons, holds v sign w = .ok false) ∧
    ∀ sign ∈ comparisons,
      holds v.withoutBuild sign w = holds v sign w ∧ holds v sign w.withoutBuild = holds v sign w := by
  refine ⟨fun hva hwa => ⟨?_, ?_⟩, fun huv hvw => ?_, fun hno sign hsign => ?_, fun sign hsign => ?_⟩
  · obtain ⟨x, hx⟩ := Semantic.accepted_iff.mp hva
    obtain ⟨y, hy⟩ := Semantic.accepted_iff.mp hwa
    refine ⟨_, _, _, holds_of_reading rfl hw hx hy, holds_of_reading rfl hw hx hy,
      holds_of_reading rfl hw hx hy, ?_⟩
    -- All five answers are read off one comparison of the two keys.
    rw [holds_of_reading (r := .le) rfl hw hx hy, holds_of_reading (r := .ge) rfl hw hx hy]
    cases x.order y <;> exact ⟨by decide, rfl, rfl⟩
  · obtain ⟨x, hx⟩ := Semantic.accepted_iff.mp hva
    rw [holds_of_reading (r := .eq) rfl hv hx hx, order_self]
    rfl
  · obtain ⟨x, y, hx, hy, hxy⟩ := exists_reading_of_holds (r := .lt) rfl hu hv huv
    obtain ⟨y', z, hy', hz, hyz⟩ := exists_reading_of_holds (r := .lt) rfl hv hw hvw
    obtain rfl : y = y' := Except.ok.inj (hy.symm.trans hy')
    have hxz : x.order z = .lt :=
      Std.TransCmp.lt_trans (Ordering.isLT_iff_eq_lt.mp hxy) (Ordering.isLT_iff_eq_lt.mp hyz)
    rw [holds_of_reading (r := .lt) rfl hw hx hz, hxz]
    rfl
  · obtain ⟨r, hr⟩ := exists_relation_of_mem hsign
    exact holds_of_not_accepted hr hv hw hno
  · obtain ⟨r, hr⟩ := exists_relation_of_mem hsign
    exact ⟨holds_withoutBuild_left v sign w, holds_withoutBuild_right hr v hw⟩

/-- The first alpha of a release. -/
def alpha : Semantic where
  major := ['1']
  minor := ['0']
  patch := ['0']
  prerelease := [['a', 'l', 'p', 'h', 'a'], ['1']]
  build := []
  isNumber := by decide
  prerelease_identifiers := by decide
  build_identifiers := identifiers_nil

/-- A prerelease of the same release with a number alone, and a build. -/
def numbered : Semantic where
  major := ['1']
  minor := ['0']
  patch := ['0']
  prerelease := [['2']]
  build := [['d', '5']]
  isNumber := by decide
  prerelease_identifiers := by decide
  build_identifiers := by decide

/-- The release itself. -/
def release : Semantic where
  major := ['1']
  minor := ['0']
  patch := ['0']
  prerelease := []
  build := []
  isNumber := by decide
  prerelease_identifiers := identifiers_nil
  build_identifiers := identifiers_nil

example : (holds numbered .greater alpha).toOption = some true := by decide +kernel

theorem alpha_less_release :
    (¬ HasLongRun alpha.text ∧ ¬ HasLongRun numbered.text ∧ ¬ HasLongRun release.text) ∧
    holds alpha .less numbered = .ok true ∧ holds numbered .less release = .ok true ∧
    holds alpha .less release = .ok true := by
  have ha : ¬ HasLongRun alpha.text := not_hasLongRun_of_length (by decide)
  have hn : ¬ HasLongRun numbered.text := not_hasLongRun_of_length (by decide)
  have hr : ¬ HasLongRun release.text := not_hasLongRun_of_length (by decide)
  have han : holds alpha .less numbered = .ok true := eq_ok_of_toOption (by decide +kernel)
  have hnr : holds numbered .less release = .ok true := eq_ok_of_toOption (by decide +kernel)
  obtain ⟨-, htrans, -, -⟩ := holds_total_order ha hn hr
  exact ⟨⟨ha, hn, hr⟩, han, hnr, htrans han hnr⟩

end LockAudit.Range
