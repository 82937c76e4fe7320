import LockAudit.Proofs.Json.Grammar
import LockAudit.Proofs.Json.Reading

/-!
# `LockAudit.Proofs.Json.Tokens` — numerals and strings, in both directions

What the reader takes for a number or a string is one by the grammar, and what is one by the grammar the
reader takes, in front of anything that does not extend it. The grammar is that of the JSON standard, except
that an integer may have too many digits.

* `number_isNumeral`, `isNumeral_of_number` — numerals, from `wholeDigits`, `places` and `exponent?`.
* `string_isStringBody`, `isStringBody_of_string` — strings. The reader takes two Unicode escapes in one
  step where they are a pair (`string_unit_cases`).
-/

namespace LockAudit.Json

open LockAudit.Text

variable {s t r : List Char} {v : Json}

/-! ## Numerals -/

/-- A numeral that is read. The digits of an integer are no more than may be read; where places or an
    exponent follow, there may be any number of them. -/
def IsNumeral (s : List Char) : Prop :=
  ∃ sign whole places exponent, (sign = [] ∨ sign = ['-']) ∧ IsWhole whole ∧ IsPlaces places ∧
    IsExponent exponent ∧ s = sign ++ (whole ++ (places ++ exponent)) ∧
    (places = [] → exponent = [] → whole.length ≤ Numeral.maxDigits)

/-- Whether a character may continue the places of a number. -/
def extendsPlaces (c : Char) : Bool := isAsciiDigit c || c == '.'

theorem stops_of_extendsPlaces (h : Stops extendsPlaces r) : Stops isAsciiDigit r := by
  intro c hc
  have hc := h c hc
  simp only [extendsPlaces, Bool.or_eq_false_iff] at hc
  exact hc.1

theorem spanDigits_isDigits {ds : List Char} (h : IsDigits ds) (hr : Stops isAsciiDigit r) :
    Numeral.spanDigits isAsciiDigit (ds ++ r) = (ds, r) := by
  rw [Numeral.spanDigits, takeWhile_append_stop h.2 hr, dropWhile_append_stop h.2 hr]

theorem isDigits_of_spanDigits {ds : List Char} (h : Numeral.spanDigits isAsciiDigit s = (ds, t))
    (hne : ds ≠ []) : IsDigits ds ∧ s = ds ++ t := by
  obtain ⟨rfl, rfl⟩ := Prod.mk.inj h
  exact ⟨⟨hne, fun c hc => List.all_eq_true.mp List.all_takeWhile c hc⟩, by simp⟩

theorem wholeDigits_isWhole {ds : List Char} (h : IsWhole ds) (hr : Stops isAsciiDigit r) :
    wholeDigits (ds ++ r) = (ds, r) := by
  obtain ⟨d, ds, rfl⟩ := List.exists_cons_of_ne_nil h.1.1
  by_cases hd : d = '0'
  · subst hd
    rw [h.2 rfl]
    rfl
  · rw [← spanDigits_isDigits h.1 hr]
    exact wholeDigits.eq_2 _ fun t ht => hd (List.cons.inj ht).1

theorem isWhole_wholeDigits (h : (wholeDigits s).1 ≠ []) : IsWhole (wholeDigits s).1 := by
  refine ⟨⟨h, (wholeDigits_spec s).2⟩, fun hzero => ?_⟩
  unfold wholeDigits at hzero ⊢
  split
  · rfl
  · next hfirst =>
    cases s with
    | nil => cases hzero
    | cons c s =>
      by_cases hc : isAsciiDigit c = true
      · simp only [Numeral.spanDigits, List.takeWhile_cons_of_pos hc, List.head?_cons,
          Option.some.injEq] at hzero
        exact absurd (hzero ▸ rfl) (hfirst s)
      · simp [Numeral.spanDigits, List.takeWhile_cons_of_neg hc] at hzero

theorem places_isPlaces {p : List Char} (h : IsPlaces p) (hr : Stops extendsPlaces r) :
    places (p ++ r) = (p.tail, r) := by
  rcases h with rfl | ⟨ds, hds, rfl⟩
  · rw [List.nil_append]
    unfold places
    split
    · exact absurd (hr '.' rfl) (by decide)
    · rfl
  · have hspan := spanDigits_isDigits hds (stops_of_extendsPlaces hr)
    obtain ⟨d, ds, rfl⟩ := List.exists_cons_of_ne_nil hds.1
    simp only [List.cons_append] at hspan
    simp only [List.cons_append, places, hspan, List.tail_cons]

/-- What is taken for the places of a number is a point with digits, or nothing. -/
theorem exists_isPlaces (s : List Char) :
    ∃ p, IsPlaces p ∧ s = p ++ (places s).2 ∧ (p = [] → (places s).1 = []) := by
  unfold places
  split
  · split
    · exact ⟨[], .inl rfl, rfl, fun _ => rfl⟩
    · next r _ ds t hne hspan =>
      obtain ⟨hds, rfl⟩ := isDigits_of_spanDigits hspan hne
      exact ⟨'.' :: ds, .inr ⟨ds, hds, rfl⟩, rfl, fun h => absurd h (List.cons_ne_nil _ _)⟩
  · exact ⟨[], .inl rfl, rfl, fun _ => rfl⟩

theorem exponent?_isExponent {x : List Char} (h : IsExponent x) (hne : x ≠ [])
    (hr : Stops isAsciiDigit r) : ∃ e, exponent? (x ++ r) = some (e, r) := by
  rcases h with rfl | ⟨e, sign, ds, he, hsign, hds, rfl⟩
  · exact absurd rfl hne
  · have hspan := spanDigits_isDigits hds hr
    have hdigit : ∀ c ∈ ds, c ≠ '+' ∧ c ≠ '-' := by
      intro c hc
      have h := of_isAsciiDigit (hds.2 c hc) (fun c => c != '+' && c != '-') (by decide)
      simpa using h
    obtain ⟨d, ds, rfl⟩ := List.exists_cons_of_ne_nil hds.1
    have hd := hdigit d List.mem_cons_self
    simp only [List.cons_append] at hspan
    rcases hsign with rfl | rfl | rfl <;>
      simp only [List.cons_append, List.nil_append, exponent?, if_pos he]
    · split
      · next heq => exact absurd (List.cons.inj heq).1 hd.2
      · next heq => exact absurd (List.cons.inj heq).1 hd.1
      · simp only [hspan]
        exact ⟨_, rfl⟩
    · simp only [hspan]
      exact ⟨_, rfl⟩
    · simp only [hspan]
      exact ⟨_, rfl⟩

theorem isExponent_of_exponent? {e : Int} (h : exponent? s = some (e, t)) :
    ∃ x, IsExponent x ∧ x ≠ [] ∧ s = x ++ t := by
  unfold exponent? at h
  dsimp only at h
  split at h
  · next letter r =>
    split at h
    · next hletter =>
      have hend : ∀ {sign ds u}, (sign = [] ∨ sign = ['+'] ∨ sign = ['-']) →
          Numeral.spanDigits isAsciiDigit u = (ds, t) → ds ≠ [] →
          ∃ x, IsExponent x ∧ x ≠ [] ∧ letter :: (sign ++ u) = x ++ t := by
        intro sign ds u hsign hspan hne
        obtain ⟨hds, rfl⟩ := isDigits_of_spanDigits hspan hne
        exact ⟨letter :: (sign ++ ds), .inr ⟨letter, sign, ds, hletter, hsign, hds, rfl⟩, nofun, by simp⟩
      split at h
      · split at h
        · cases h
        · next hne hspan =>
          cases h
          exact hend (.inr (.inr rfl)) hspan hne
      · split at h
        · cases h
        · next hne hspan =>
          cases h
          exact hend (.inr (.inl rfl)) hspan hne
      · split at h
        · cases h
        · next hne hspan =>
          cases h
          exact hend (.inl rfl) hspan hne
    · cases h
  · cases h

/-- An exponent does not continue the places before it. -/
theorem stops_isExponent_append {x : List Char} (h : IsExponent x) (hr : Stops extendsNumeral r) :
    Stops extendsPlaces (x ++ r) := by
  rcases h with rfl | ⟨e, sign, ds, rfl | rfl, -, -, rfl⟩
  · intro c hc
    have hc := hr c hc
    simp only [extendsNumeral, Bool.or_eq_false_iff] at hc
    simp only [extendsPlaces, Bool.or_eq_false_iff]
    exact hc.1.1
  · exact stops_cons rfl _
  · exact stops_cons rfl _

/-- Places do not continue the digits before them. -/
theorem stops_isPlaces_append {p : List Char} (h : IsPlaces p) (hr : Stops extendsPlaces r) :
    Stops isAsciiDigit (p ++ r) := by
  rcases h with rfl | ⟨ds, -, rfl⟩
  · exact stops_of_extendsPlaces hr
  · exact stops_cons rfl _

/-- **A numeral is read**, whatever follows that does not extend it. -/
theorem number_isNumeral (h : IsNumeral s) (hr : Stops extendsNumeral r) :
    ∃ v, number (s ++ r) = .ok (v, r) := by
  obtain ⟨sign, whole, p, x, hsign, hwhole, hp, hx, rfl, hlen⟩ := h
  have hx' := stops_isExponent_append hx hr
  have hp' := stops_isPlaces_append hp hx'
  have hdigits := wholeDigits_isWhole hwhole hp'
  unfold number
  split
  next negative t hsplit =>
  -- The sign is taken off in front of the digits, and a digit is no sign.
  obtain rfl : t = whole ++ (p ++ (x ++ r)) := by
    obtain ⟨d, ds, rfl⟩ := List.exists_cons_of_ne_nil hwhole.1.1
    have hd : d ≠ '-' := by
      rintro rfl
      exact absurd (hwhole.1.2 '-' List.mem_cons_self) (by decide)
    simp only [List.append_assoc] at hsplit
    rcases hsign with rfl | rfl
    · split at hsplit
      · next heq => exact absurd (List.cons.inj heq).1 hd
      · exact (Prod.mk.inj hsplit).2.symm
    · exact (Prod.mk.inj hsplit).2.symm
  rw [hdigits]
  obtain ⟨d, ds, rfl⟩ := List.exists_cons_of_ne_nil hwhole.1.1
  dsimp only
  rw [places_isPlaces hp hx']
  dsimp only
  have hstop := stops_isAsciiDigit hr
  by_cases hxnil : x = []
  · subst hxnil
    rw [List.nil_append, exponent?_of_stops hr]
    rcases hp with rfl | ⟨es, hes, rfl⟩
    · have hread := Numeral.read_ok_iff.mpr ⟨hlen rfl rfl, rfl⟩
      simp only [List.tail_nil, hread]
      exact ⟨_, rfl⟩
    · obtain ⟨e, es, rfl⟩ := List.exists_cons_of_ne_nil hes.1
      exact ⟨_, rfl⟩
  · obtain ⟨e, he⟩ := exponent?_isExponent hx hxnil hstop
    rw [he]
    cases p.tail with
    | nil => exact ⟨_, rfl⟩
    | cons c cs => exact ⟨_, rfl⟩

/-- **What is read as a number is a numeral.** -/
theorem isNumeral_of_number (h : number s = .ok (v, t)) : ∃ u, IsNumeral u ∧ s = u ++ t := by
  unfold number at h
  split at h
  next negative r hsplit =>
  obtain ⟨sign, hsign, rfl⟩ : ∃ sign, (sign = [] ∨ sign = ['-']) ∧ s = sign ++ r := by
    split at hsplit
    · rw [← (Prod.mk.inj hsplit).2]
      exact ⟨['-'], .inr rfl, rfl⟩
    · exact ⟨[], .inl rfl, (Prod.mk.inj hsplit).2⟩
  have hwhole := isWhole_wholeDigits (s := r)
  have happend := (wholeDigits_spec r).1
  split at h
  · cases h
  · next whole r' hne hdigits =>
    rw [hdigits] at hwhole happend
    have hwhole := hwhole hne
    obtain ⟨p, hp, hr', hpnil⟩ := exists_isPlaces r'
    have hnumeral : ∀ {p x : List Char}, IsPlaces p → IsExponent x →
        (p = [] → x = [] → whole.length ≤ Numeral.maxDigits) → r' = p ++ (x ++ t) →
        ∃ u, IsNumeral u ∧ sign ++ r = u ++ t := by
      rintro p x hp hx hlen rfl
      refine ⟨_, ⟨sign, whole, p, x, hsign, hwhole, hp, hx, rfl, hlen⟩, ?_⟩
      rw [← happend]
      simp
    split at h
    next ds r'' hds =>
    rw [hds] at hr' hpnil
    split at h
    · split at h
      · next hread =>
        cases h
        exact hnumeral (.inl rfl) (.inl rfl) (fun _ _ => (Numeral.read_ok_iff.mp hread).1) rfl
      · cases h
    · next hno _ =>
      cases h
      exact hnumeral hp (.inl rfl) (fun hnil => absurd (hpnil hnil) hno) hr'
    · next hexp =>
      cases h
      obtain ⟨x, hx, hxne, rfl⟩ := isExponent_of_exponent? hexp
      exact hnumeral hp hx (fun _ hxnil => absurd hxnil hxne) hr'

/-! ## Strings -/

theorem isSome_unit?_iff {a b c d : Char} :
    (unit? a b c d).isSome = true ↔ ∀ x ∈ [a, b, c, d], (hexValue? x).isSome = true := by
  simp only [List.forall_mem_cons, List.not_mem_nil, false_implies, implies_true, and_true]
  unfold unit?
  split
  · next ha hb hc hd => simp [ha, hb, hc, hd]
  · next hno =>
    refine ⟨nofun, ?_⟩
    rintro ⟨ha, hb, hc, hd⟩
    obtain ⟨a', ha⟩ := Option.isSome_iff_exists.mp ha
    obtain ⟨b', hb⟩ := Option.isSome_iff_exists.mp hb
    obtain ⟨c', hc⟩ := Option.isSome_iff_exists.mp hc
    obtain ⟨d', hd⟩ := Option.isSome_iff_exists.mp hd
    exact absurd hd (hno a' b' c' d' ha hb hc)

theorem isSome_escaped?_iff {e : Char} : (escaped? e).isSome = true ↔ e ∈ escapeLetters := by
  unfold escaped?
  split <;> simp_all [escapeLetters]

/-- **What is read as a string is one**, and has an end. -/
theorem isStringBody_of_string {left : Nat} {cs : List Char} (h : string left s = .ok (cs, t)) :
    ∃ body, IsStringBody body ∧ s = body ++ '"' :: t := by
  have hunit : ∀ {a b c d : Char} {k : Nat} {r : List Char}, unit? a b c d = some k →
      (∃ body, IsStringBody body ∧ r = body ++ '"' :: t) →
      ∃ body, IsStringBody body ∧ '\\' :: 'u' :: a :: b :: c :: d :: r = body ++ '"' :: t := by
    rintro a b c d k r hk ⟨body, hbody, rfl⟩
    exact ⟨_, .unit (isSome_unit?_iff.mp (hk ▸ rfl)) hbody, rfl⟩
  -- The cases are the clauses of the definition, of which the faults read nothing.
  fun_induction string left s generalizing cs
  case case2 r =>
    cases h
    exact ⟨[], .nil, rfl⟩
  case case6 hu _ _ _ _ _ _ _ _ hv _ ih =>
    obtain ⟨ds, hx⟩ := exists_of_consChar h
    exact hunit hu (hunit hv (ih hx))
  case case7 hu _ _ _ _ _ _ _ _ _ _ ih =>
    obtain ⟨ds, hx⟩ := exists_of_consChar h
    exact hunit hu (ih hx)
  case case8 hu _ _ _ _ _ _ _ ih =>
    obtain ⟨ds, hx⟩ := exists_of_consChar h
    exact hunit hu (ih hx)
  case case9 hu _ _ _ ih =>
    obtain ⟨ds, hx⟩ := exists_of_consChar h
    exact hunit hu (ih hx)
  case case11 he ih =>
    obtain ⟨ds, hx⟩ := exists_of_consChar h
    obtain ⟨body, hbody, rfl⟩ := ih hx
    exact ⟨_, .letter (isSome_escaped?_iff.mp (he ▸ rfl)) hbody, rfl⟩
  case case14 c r hquote hend _ _ hback hlow ih =>
    obtain ⟨ds, hx⟩ := exists_of_consChar h
    obtain ⟨body, hbody, rfl⟩ := ih hx
    have hne : c ≠ '\\' := by
      intro hc
      cases body with
      | nil => exact hback '"' t hc rfl
      | cons d body => exact hback d (body ++ '"' :: t) hc rfl
    exact ⟨c :: body, .plain (Nat.le_of_not_lt hlow) hquote hne hbody, rfl⟩
  all_goals cases h

/-- A Unicode escape is read alone, or together with the one behind it, or fails with that one. -/
theorem string_unit_cases (left : Nat) {a b c d : Char} {k : Nat} (hk : unit? a b c d = some k)
    (hr : r ≠ []) :
    string left ('\\' :: 'u' :: a :: b :: c :: d :: r) = consChar (unitChar k) (string left r) ∨
    ∃ a' b' c' d' t, r = '\\' :: 'u' :: a' :: b' :: c' :: d' :: t ∧
      (unit? a' b' c' d' = none ∨ ∃ e,
        string left ('\\' :: 'u' :: a :: b :: c :: d :: r) = consChar e (string left t)) := by
  obtain ⟨x, r, rfl⟩ := List.exists_cons_of_ne_nil hr
  rw [string, hk]
  dsimp only
  split
  · next a' b' c' d' y t =>
    split
    · split
      · next hnone => exact .inr ⟨a', b', c', d', y :: t, rfl, .inl hnone⟩
      · split
        · exact .inr ⟨a', b', c', d', y :: t, rfl, .inr ⟨_, rfl⟩⟩
        · exact .inl rfl
    · exact .inl rfl
  · exact .inl rfl

/-- **A string is read**, up to its end. -/
theorem string_isStringBody (left : Nat) {body : List Char} (h : IsStringBody body) (r : List Char) :
    ∃ cs, string left (body ++ '"' :: r) = .ok (cs, r) := by
  have hcons : ∀ {e : Char} {x : Step (List Char)}, (∃ cs, x = .ok (cs, r)) →
      ∃ cs, consChar e x = .ok (cs, r) := by
    rintro e x ⟨cs, rfl⟩
    exact ⟨e :: cs, rfl⟩
  -- Two escapes may be read in one step, so a body that begins with one is read from behind it as well.
  suffices hboth : (∃ cs, string left (body ++ '"' :: r) = .ok (cs, r)) ∧
      ∀ {a b c d s}, body = '\\' :: 'u' :: a :: b :: c :: d :: s →
        (unit? a b c d).isSome = true ∧ ∃ cs, string left (s ++ '"' :: r) = .ok (cs, r) from hboth.1
  induction h with
  | nil => exact ⟨⟨[], string_quote r⟩, nofun⟩
  | plain hlow hquote hback _ ih =>
    refine ⟨?_, fun heq => absurd (List.cons.inj heq).1 hback⟩
    rw [List.cons_append, string_plain hquote hback hlow]
    exact hcons ih.1
  | @letter e s he _ ih =>
    have hu : e ≠ 'u' := by
      rintro rfl
      exact absurd he (by decide)
    obtain ⟨c, hc⟩ := Option.isSome_iff_exists.mp (isSome_escaped?_iff.mpr he)
    refine ⟨?_, fun heq => absurd (List.cons.inj (List.cons.inj heq).2).1 hu⟩
    rw [List.cons_append, List.cons_append, string_escaped hu hc]
    exact hcons ih.1
  | @unit a b c d s hdigits hs ih =>
    have hsome := isSome_unit?_iff.mpr hdigits
    obtain ⟨k, hk⟩ := Option.isSome_iff_exists.mp hsome
    refine ⟨?_, ?_⟩
    · have hcases := string_unit_cases left hk (r := s ++ '"' :: r) (by simp)
      rcases hcases with hone | ⟨a', b', c', d', t, htext, htwo⟩
      · simp only [List.cons_append, hone]
        exact hcons ih.1
      · cases hs with
        | nil => cases htext
        | plain _ _ hback _ => exact absurd (List.cons.inj htext).1 hback
        | letter he _ =>
          have hu := (List.cons.inj (List.cons.inj htext).2).1
          exact absurd (hu ▸ he) (by decide)
        | @unit e f g i s _ _ =>
          cases htext
          obtain ⟨hsecond, hrest⟩ := ih.2 rfl
          rcases htwo with hnone | ⟨ch, htwo⟩
          · rw [hnone] at hsecond
            cases hsecond
          · simp only [List.cons_append] at htwo ⊢
            rw [htwo]
            exact hcons hrest
    · rintro a' b' c' d' s' heq
      cases heq
      exact ⟨hsome, ih.1⟩

end LockAudit.Json
