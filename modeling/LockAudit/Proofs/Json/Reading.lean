import LockAudit.Json.Reader
import LockAudit.Proofs.Json.Reordering
import LockAudit.Proofs.Json.RoundTrip
import LockAudit.Proofs.Text.Runs

/-!
# `LockAudit.Proofs.Json.Reading` — what reading may come to

The reader fails for two reasons: the text is malformed, or a number in it is too long. This module looks
at all its steps at once and says what each may come to (`Sound`): something that was read, with a rest of
the text; a place at which the text is malformed; or a refusal, and then the text has a long run of digits.

* `soundSteps` — every step of the reader is of this kind, by one induction over the bound.
* `hasLongRun_of_parse` — a text is refused only for a run of digits that stands in it.
* `distinct_of_parse` — in every value that is read, the names of each object are distinct.
-/

namespace LockAudit.Json

open LockAudit.Text

variable {α β : Type} {good : α → Prop} {s t : List Char} {x : Step α}

/-- What a step on a text may come to. -/
def Sound (good : α → Prop) (s : List Char) : Step α → Prop
  | .ok (a, t) => good a ∧ t <:+ s
  | .error (.malformed _ _) => True
  | .error (.numeral _) => HasLongRun s

/-- What a step on a rest comes to, where the rest stands at the end of a text: whatever goes on with it
    fails as it fails. -/
theorem Sound.cases (h : Sound good t x) (ht : t <:+ s) :
    (∃ a r, x = .ok (a, r) ∧ good a ∧ r <:+ s) ∨
      ∃ e, x = .error e ∧ ∀ {β : Type} {better : β → Prop}, Sound better s (.error e) := by
  match x with
  | .ok (a, r) => exact .inl ⟨a, r, rfl, h.1, h.2.trans ht⟩
  | .error (.malformed what left) => exact .inr ⟨_, rfl, trivial⟩
  | .error (.numeral r) => exact .inr ⟨_, rfl, HasLongRun.mono h ht.isInfix⟩

theorem suffix_of_drop (n : Nat) (h : t <:+ s.drop n) : t <:+ s := h.trans (List.drop_suffix n s)

theorem suffix_of_blanks (s : List Char) : blanks s <:+ s := List.dropWhile_suffix _

theorem suffix_of_blanks_eq {c : Char} (h : blanks s = c :: t) : t <:+ s :=
  (List.suffix_cons c t).trans (h ▸ suffix_of_blanks s)

/-! ## Tokens -/

/-- Characters that were put in front of a string were taken from the front of the text. -/
theorem consChar_sound {c : Char} {x : Step (List Char)} (n : Nat)
    (h : Sound (fun _ => True) (s.drop n) x) : Sound (fun _ => True) s (consChar c x) := by
  rcases h.cases (List.drop_suffix n s) with ⟨cs, r, rfl, -, hr⟩ | ⟨e, rfl, he⟩
  · exact ⟨trivial, hr⟩
  · exact he

theorem exists_of_consChar {c : Char} {x : Step (List Char)} {cs : List Char}
    (h : consChar c x = .ok (cs, t)) : ∃ ds, x = .ok (ds, t) := by
  cases x with
  | ok p =>
    cases h
    exact ⟨_, rfl⟩
  | error e => cases h

/-- Reading a string takes it from the front, and refuses nothing. -/
theorem string_sound (left : Nat) (s : List Char) : Sound (fun _ => True) s (string left s) := by
  -- The cases are the clauses of the definition; the faults among them are malformed texts.
  fun_induction string left s
  case case2 => exact ⟨trivial, List.suffix_cons _ _⟩
  case case6 ih => exact consChar_sound 12 ih
  case case7 ih => exact consChar_sound 6 ih
  case case8 ih => exact consChar_sound 6 ih
  case case9 ih => exact consChar_sound 6 ih
  case case11 ih => exact consChar_sound 2 ih
  case case14 ih => exact consChar_sound 1 ih
  all_goals trivial

/-- The digits of a number stand at the front of the text. -/
theorem wholeDigits_spec (s : List Char) :
    (wholeDigits s).1 ++ (wholeDigits s).2 = s ∧ ∀ c ∈ (wholeDigits s).1, isAsciiDigit c = true := by
  unfold wholeDigits
  split
  · refine ⟨rfl, fun c hc => ?_⟩
    rw [List.mem_singleton.mp hc]
    rfl
  · refine ⟨Numeral.spanDigits_append _ s, fun c hc => ?_⟩
    exact List.all_eq_true.mp List.all_takeWhile c hc

theorem suffix_of_spanDigits {p : Char → Bool} {ds : List Char} (h : Numeral.spanDigits p s = (ds, t)) :
    t <:+ s := by
  rw [← (Prod.mk.inj h).2]
  exact List.dropWhile_suffix p

theorem suffix_of_places (s : List Char) : (places s).2 <:+ s := by
  unfold places
  split
  · split
    · exact List.suffix_refl _
    · next h => exact suffix_of_drop 1 (suffix_of_spanDigits h)
  · exact List.suffix_refl _

theorem suffix_of_exponent? {e : Int} (h : exponent? s = some (e, t)) : t <:+ s := by
  unfold exponent? at h
  dsimp only at h
  split at h
  · split at h
    · -- Behind the letter stands a sign or none, and then there are digits.
      split at h
      · split at h
        · cases h
        · next hspan =>
          cases h
          exact suffix_of_drop 2 (suffix_of_spanDigits hspan)
      · split at h
        · cases h
        · next hspan =>
          cases h
          exact suffix_of_drop 2 (suffix_of_spanDigits hspan)
      · split at h
        · cases h
        · next hspan =>
          cases h
          exact suffix_of_drop 1 (suffix_of_spanDigits hspan)
    · cases h
  · cases h

/-- A number is read from the front, and refused for its digits. -/
theorem number_sound (s : List Char) : Sound Distinct s (number s) := by
  unfold number
  split
  next negative r hsign =>
  have hr : r <:+ s := by
    split at hsign
    · rw [← (Prod.mk.inj hsign).2]
      exact List.suffix_cons _ _
    · exact (Prod.mk.inj hsign).2 ▸ List.suffix_refl _
  obtain ⟨happend, hdigits⟩ := wholeDigits_spec r
  split
  · trivial
  · next whole r' _ hwhole =>
    rw [hwhole] at happend hdigits
    have hr' : r' <:+ s := (happend ▸ List.suffix_append whole r').trans hr
    have hplaces := suffix_of_places r'
    split
    next ds r'' hds =>
    rw [hds] at hplaces
    split
    · split
      · exact ⟨.num _, hr'⟩
      · next e hread =>
        have hin : whole <:+: r := happend ▸ (List.prefix_append whole r').isInfix
        exact hasLongRun_of_read hread hdigits (hin.trans hr.isInfix)
    · exact ⟨.num _, hplaces.trans hr'⟩
    · next hexp =>
      exact ⟨.num _, ((suffix_of_exponent? hexp).trans hplaces).trans hr'⟩

/-! ## Values -/

/-- What the reader's steps with one bound come to. -/
structure SoundSteps (n : Nat) : Prop where
  value (s : List Char) : Sound Distinct s (value n s)
  members (s : List Char) : Sound (fun ms => ∀ p ∈ ms, Distinct p.2) s (members n s)
  items (s : List Char) : Sound (fun vs => ∀ v ∈ vs, Distinct v) s (items n s)

variable {n : Nat}

theorem value_succ_sound (h : SoundSteps n) (s : List Char) : Sound Distinct s (Json.value (n + 1) s) := by
  unfold Json.value
  split
  · next r =>
    rcases (string_sound _ r).cases (List.suffix_cons '"' r) with ⟨cs, t, hx, -, ht⟩ | ⟨e, hx, he⟩
    · rw [hx]
      exact ⟨.str _, ht⟩
    · rw [hx]
      exact he
  · next r =>
    split
    · next hb => exact ⟨.obj List.nodup_nil (by simp), suffix_of_drop 1 (suffix_of_blanks_eq hb)⟩
    · have hr : blanks r <:+ '{' :: r := (suffix_of_blanks r).trans (List.suffix_cons _ r)
      rcases (h.members _).cases hr with ⟨ms, t, hx, hms, ht⟩ | ⟨e, hx, he⟩
      · rw [hx]
        exact ⟨.obj (Pairs.nodup_ofList _) fun p hp => hms p (Pairs.mem_of_mem_ofList hp), ht⟩
      · rw [hx]
        exact he
  · next r =>
    split
    · next hb => exact ⟨.arr (by simp), suffix_of_drop 1 (suffix_of_blanks_eq hb)⟩
    · have hr : blanks r <:+ '[' :: r := (suffix_of_blanks r).trans (List.suffix_cons _ r)
      rcases (h.items _).cases hr with ⟨vs, t, hx, hvs, ht⟩ | ⟨e, hx, he⟩
      · rw [hx]
        exact ⟨.arr hvs, ht⟩
      · rw [hx]
        exact he
  -- What is left are the words, and numbers.
  · exact ⟨.null, suffix_of_drop 4 (List.suffix_refl _)⟩
  · exact ⟨.bool _, suffix_of_drop 4 (List.suffix_refl _)⟩
  · exact ⟨.bool _, suffix_of_drop 5 (List.suffix_refl _)⟩
  · exact ⟨.num _, suffix_of_drop 3 (List.suffix_refl _)⟩
  · exact ⟨.num _, suffix_of_drop 8 (List.suffix_refl _)⟩
  · exact ⟨.num _, suffix_of_drop 9 (List.suffix_refl _)⟩
  · exact number_sound _

theorem members_succ_sound (h : SoundSteps n) (s : List Char) :
    Sound (fun ms => ∀ p ∈ ms, Distinct p.2) s (Json.members (n + 1) s) := by
  unfold Json.members
  split
  · next r =>
    rcases (string_sound _ r).cases (List.suffix_cons '"' r) with ⟨name, t, hx, -, ht⟩ | ⟨e, hx, he⟩
    · rw [hx]
      dsimp only
      split
      · next t' hb =>
        have ht' := (suffix_of_blanks t').trans ((suffix_of_blanks_eq hb).trans ht)
        rcases (h.value _).cases ht' with ⟨v, u, hx, hv, hu⟩ | ⟨e, hx, he⟩
        · rw [hx]
          dsimp only
          split
          · next hb' =>
            refine ⟨fun p hp => ?_, (suffix_of_blanks_eq hb').trans hu⟩
            rw [List.mem_singleton.mp hp]
            exact hv
          · next u' hb' =>
            have hu' := (suffix_of_blanks u').trans ((suffix_of_blanks_eq hb').trans hu)
            rcases (h.members _).cases hu' with ⟨ms, w, hx, hms, hw⟩ | ⟨e, hx, he⟩
            · rw [hx]
              refine ⟨fun p hp => ?_, hw⟩
              rcases List.mem_cons.mp hp with rfl | hp
              · exact hv
              · exact hms p hp
            · rw [hx]
              exact he
          · trivial
        · rw [hx]
          exact he
      · trivial
    · rw [hx]
      exact he
  · trivial

theorem items_succ_sound (h : SoundSteps n) (s : List Char) :
    Sound (fun vs => ∀ v ∈ vs, Distinct v) s (Json.items (n + 1) s) := by
  unfold Json.items
  rcases (h.value s).cases (List.suffix_refl s) with ⟨v, t, hx, hv, ht⟩ | ⟨e, hx, he⟩
  · rw [hx]
    dsimp only
    split
    · next hb =>
      refine ⟨fun w hw => ?_, (suffix_of_blanks_eq hb).trans ht⟩
      rw [List.mem_singleton.mp hw]
      exact hv
    · next t' hb =>
      have ht' := (suffix_of_blanks t').trans ((suffix_of_blanks_eq hb).trans ht)
      rcases (h.items _).cases ht' with ⟨vs, u, hx, hvs, hu⟩ | ⟨e, hx, he⟩
      · rw [hx]
        refine ⟨fun w hw => ?_, hu⟩
        rcases List.mem_cons.mp hw with rfl | hw
        · exact hv
        · exact hvs w hw
      · rw [hx]
        exact he
    · trivial
  · rw [hx]
    exact he

/-- **Every step of the reader** reads what has distinct names, or finds the text malformed, or refuses a
    run of digits. -/
theorem soundSteps (n : Nat) : SoundSteps n := by
  induction n with
  | zero => exact ⟨fun _ => trivial, fun _ => trivial, fun _ => trivial⟩
  | succ n ih => exact ⟨value_succ_sound ih, members_succ_sound ih, items_succ_sound ih⟩

/-! ## Texts -/

variable {text : String} {v : Json} {r : Numeral.Refusal}

theorem parse_ok (h : parse text = .ok v) : parseChars text.toList = .ok v := by
  unfold parse at h
  split at h
  · cases h
  · exact h

theorem parse_numeral (h : parse text = .error (.numeral r)) :
    whole text.toList = .error (.numeral r) := by
  unfold parse at h
  split at h
  · cases h
  · unfold parseChars at h
    split at h
    · cases h
    · next e he =>
      cases e with
      | malformed what left => cases h
      | numeral r' =>
        rw [he]
        exact congrArg _ (by cases h; rfl)

/-- **In every value that is read, the names of each object are distinct.** -/
theorem distinct_of_parse (h : parse text = .ok v) : v.Distinct := by
  have h := parse_ok h
  unfold parseChars whole at h
  have hv := (soundSteps (2 * text.toList.length + 1)).value (blanks text.toList)
  split at h
  · next hw =>
    split at hw
    · cases hw
    · next hs =>
      rw [hs] at hv
      split at hw
      · cases hw
        cases h
        exact hv.1
      · cases hw
  · cases h

/-- **A text is refused only for a run of digits in it** that is too long. -/
theorem hasLongRun_of_parse (h : parse text = .error (.numeral r)) : HasLongRun text.toList := by
  have h := parse_numeral h
  unfold whole at h
  have hv := (soundSteps (2 * text.toList.length + 1)).value (blanks text.toList)
  split at h
  · next e hs =>
    cases h
    rw [hs] at hv
    exact HasLongRun.mono hv (suffix_of_blanks _).isInfix
  · split at h
    · cases h
    · cases h

/-! ## A number that is too long -/

variable {ds : List Char}

/-- A numeral that is too long is refused, whatever follows that does not extend it. -/
theorem number_refused (hds : ∀ c ∈ ds, isAsciiDigit c = true) (hzero : ds.head? ≠ some '0')
    (hlong : Numeral.maxDigits < ds.length) {r : List Char} (hr : Stops extendsNumeral r) :
    number (ds ++ r) = .error (.numeral (.tooLongToRead ds.length)) := by
  have hread : Numeral.read ds = .error (.tooLongToRead ds.length) := if_neg (Nat.not_le.mpr hlong)
  have hne : ds ≠ [] := List.ne_nil_of_length_pos (Nat.zero_lt_of_lt hlong)
  have hwhole := wholeDigits_append hds hzero hne hr
  obtain ⟨d, ds', rfl⟩ := List.exists_cons_of_ne_nil hne
  have hminus : d ≠ '-' := by
    rintro rfl
    exact absurd (hds '-' List.mem_cons_self) (by decide)
  rw [List.cons_append, number]
  · rw [List.cons_append] at hwhole
    simp only [hwhole, places_of_stops hr, exponent?_of_stops hr, hread]
  · exact fun t ht => hminus (List.cons.inj ht).1

/-- The text of an object whose first member is a number, with anything behind it. -/
def numberFirst (ds rest : List Char) : List Char := '{' :: '"' :: 'n' :: '"' :: ':' :: (ds ++ ',' :: rest)

theorem parse_numberFirst (hds : ∀ c ∈ ds, isAsciiDigit c = true) (hzero : ds.head? ≠ some '0')
    (hlong : Numeral.maxDigits < ds.length) (rest : List Char) :
    parse (String.ofList (numberFirst ds rest)) = .error (.numeral (.tooLongToRead ds.length)) := by
  have hstop : Stops extendsNumeral (',' :: rest) := stops_cons (by decide) rest
  have hnumber := number_refused hds hzero hlong hstop
  obtain ⟨d, ds', hcons⟩ :=
    List.exists_cons_of_ne_nil (List.ne_nil_of_length_pos (Nat.zero_lt_of_lt hlong))
  have hd : isAsciiDigit d = true := hds d (hcons ▸ List.mem_cons_self)
  have hspace : isSpace d = false := by
    simpa using of_isAsciiDigit hd (fun c => !isSpace c) (by decide)
  rw [hcons] at hnumber ⊢
  -- The reader comes to the number by a brace, a name and a colon.
  have hname : ∀ left s, string left ('n' :: '"' :: s) = .ok (['n'], s) := by
    intro left s
    rw [string_plain (by decide) (by decide) (by decide), string_quote]
    rfl
  have hmembers : ∀ n, members (n + 2) ('"' :: 'n' :: '"' :: ':' :: (d :: ds' ++ ',' :: rest)) =
      .error (.numeral (.tooLongToRead (d :: ds').length)) := by
    intro n
    rw [members, hname]
    simp only [blanks_cons (c := ':') rfl, List.cons_append, blanks_cons hspace, value_digit hd]
    rw [← List.cons_append, hnumber]
  have hvalue : ∀ n, value (n + 3) (numberFirst (d :: ds') rest) =
      .error (.numeral (.tooLongToRead (d :: ds').length)) := by
    intro n
    refine (value_brace (by decide) (by decide) _).trans ?_
    rw [hmembers]
    rfl
  have hwhole : whole (numberFirst (d :: ds') rest) =
      .error (.numeral (.tooLongToRead (d :: ds').length)) := by
    have hlen : 1 ≤ (numberFirst (d :: ds') rest).length := by simp [numberFirst]
    obtain ⟨n, hn⟩ : ∃ n, 2 * (numberFirst (d :: ds') rest).length + 1 = n + 3 :=
      Nat.exists_eq_add_of_le' (by omega)
    rw [whole, hn, show blanks (numberFirst (d :: ds') rest) = numberFirst (d :: ds') rest from
      blanks_cons rfl _, hvalue]
  rw [parse, String.toList_ofList]
  split
  · next h => exact absurd (List.cons.inj h).1 (by decide)
  · rw [parseChars, hwhole]
    rfl

end LockAudit.Json
