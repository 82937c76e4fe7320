import LockAudit.Proofs.Json.Reading
import LockAudit.Proofs.Json.Standard

/-!
# `LockAudit.Proofs.Json.Words` — where a value that is no number comes from

A standard text may have a number that is beyond all binary64 values and is read as an infinity. The value
that is no number is different: there is no numeral for it, so it is read from its word alone, and its word
stands outside strings, where a standard text does not have it.

* `Reaches` — what a step of the reader may do: what is bare in the rest was bare in the text, and if the
  step read a value of the kind at hand, then an `N` was.
* `reachSteps` — all steps do that, by one induction over the bound.
* `not_hasNaN_of_standard` — so what is read from a standard text has no other special values than
  infinities.
-/

namespace LockAudit.Json

open LockAudit.Text

/-- The value that is no number stands in a value, at any depth. -/
def HasNaN (v : Json) : Prop := ∃ x : Binary64, v.HasNumber (.float x) ∧ x.isNaN = true

variable {s t u r : List Char} {P Q : Prop} {c : Char}

/-- A step from a text to a rest of it: what is bare in the rest is bare in the text, and where `P` holds of
    what was read, the text has a bare `N`. -/
structure Reaches (P : Prop) (s t : List Char) : Prop where
  word : P → 'N' ∈ bare s
  subset : bare t ⊆ bare s

theorem Reaches.trans (h : Reaches P s t) (h' : Reaches Q t u) : Reaches (P ∨ Q) s u :=
  ⟨fun hPQ => hPQ.elim h.word fun hQ => h.subset (h'.word hQ), List.Subset.trans h'.subset h.subset⟩

theorem Reaches.imp (h : Reaches P s t) (hQ : Q → P) : Reaches Q s t := ⟨fun q => h.word (hQ q), h.subset⟩

/-- A step in front of another that reads nothing itself. -/
theorem Reaches.after (h : Reaches False s t) (h' : Reaches P t u) : Reaches P s u := (h.trans h').imp .inr

/-- A step behind another that reads nothing itself. -/
theorem Reaches.before (h : Reaches P s t) (h' : Reaches False t u) : Reaches P s u := (h.trans h').imp .inl

theorem reaches_refl (s : List Char) : Reaches False s s := ⟨False.elim, List.Subset.refl _⟩

theorem reaches_cons (hc : c ≠ '"') (s : List Char) : Reaches False (c :: s) s := by
  refine ⟨False.elim, ?_⟩
  rw [bare_cons hc]
  exact List.subset_cons_self c (bare s)

theorem reaches_append (h : '"' ∉ s) (t : List Char) : Reaches False (s ++ t) t := by
  refine ⟨False.elim, ?_⟩
  rw [(closed_of_no_quote h).1]
  exact List.subset_append_right _ _

theorem reaches_dropWhile {p : Char → Bool} (hp : p '"' = false) (s : List Char) :
    Reaches False s (s.dropWhile p) := by
  have hquote : '"' ∉ s.takeWhile p := fun h =>
    Bool.false_ne_true (hp ▸ List.all_eq_true.mp List.all_takeWhile _ h)
  simpa using reaches_append hquote (s.dropWhile p)

theorem reaches_blanks (s : List Char) : Reaches False s (blanks s) := reaches_dropWhile rfl s

theorem reaches_blanks_eq (hc : c ≠ '"') (h : blanks s = c :: t) : Reaches False s t :=
  (reaches_blanks s).after (h ▸ reaches_cons hc t)

/-! ## Tokens -/

/-- Hexadecimal digits end no string. -/
theorem bareBehind_unit {a b c d : Char} {k : Nat} (h : unit? a b c d = some k) (r : List Char) :
    bareBehind ('\\' :: 'u' :: a :: b :: c :: d :: r) = bareBehind r := by
  have hplain : ∀ x, (hexValue? x).isSome = true → x ≠ '"' ∧ x ≠ '\\' := by
    intro x hx
    constructor
    · rintro rfl
      cases hx
    · rintro rfl
      cases hx
  unfold unit? at h
  split at h
  · next ha hb hc hd =>
    obtain ⟨ha, ha'⟩ := hplain a (ha ▸ rfl)
    obtain ⟨hb, hb'⟩ := hplain b (hb ▸ rfl)
    obtain ⟨hc, hc'⟩ := hplain c (hc ▸ rfl)
    obtain ⟨hd, hd'⟩ := hplain d (hd ▸ rfl)
    rw [bareBehind_back, bareBehind_cons ha ha', bareBehind_cons hb hb', bareBehind_cons hc hc',
      bareBehind_cons hd hd']
  · cases h

/-- A string is read up to its end. -/
theorem bare_of_string {left : Nat} {cs : List Char} (h : string left s = .ok (cs, t)) :
    bareBehind s = bare t := by
  -- The cases are the clauses of the definition, of which the faults read nothing.
  fun_induction string left s generalizing cs
  case case2 r =>
    cases h
    exact bareBehind_quote _
  case case6 hu _ _ _ _ _ _ _ _ hv _ ih =>
    obtain ⟨ds, hx⟩ := exists_of_consChar h
    rw [bareBehind_unit hu, bareBehind_unit hv, ih hx]
  case case7 hu _ _ _ _ _ _ _ _ _ _ ih =>
    obtain ⟨ds, hx⟩ := exists_of_consChar h
    rw [bareBehind_unit hu, ih hx]
  case case8 hu _ _ _ _ _ _ _ ih =>
    obtain ⟨ds, hx⟩ := exists_of_consChar h
    rw [bareBehind_unit hu, ih hx]
  case case9 hu _ _ _ ih =>
    obtain ⟨ds, hx⟩ := exists_of_consChar h
    rw [bareBehind_unit hu, ih hx]
  case case11 ih =>
    obtain ⟨ds, hx⟩ := exists_of_consChar h
    rw [bareBehind_back, ih hx]
  case case14 c r hquote hend _ _ hback _ ih =>
    obtain ⟨ds, hx⟩ := exists_of_consChar h
    have hne : c ≠ '\\' := by
      intro hc
      cases r with
      | nil => exact hend hc rfl
      | cons d r => exact hback d r hc rfl
    rw [bareBehind_cons hquote hne, ih hx]
  all_goals cases h

theorem reaches_string {left : Nat} {cs : List Char} (h : string left s = .ok (cs, t)) :
    Reaches False ('"' :: s) t := by
  refine ⟨False.elim, ?_⟩
  rw [bare_quote, bare_of_string h]
  exact List.Subset.refl _

/-! ## Numbers -/

theorem reaches_spanDigits {ds : List Char} (h : Numeral.spanDigits isAsciiDigit s = (ds, t)) :
    Reaches False s t := by
  rw [← (Prod.mk.inj h).2]
  exact reaches_dropWhile rfl s

theorem reaches_wholeDigits (s : List Char) : Reaches False s (wholeDigits s).2 := by
  obtain ⟨happend, hdigits⟩ := wholeDigits_spec s
  have hquote : '"' ∉ (wholeDigits s).1 := fun h => absurd (hdigits _ h) (by decide)
  have hreach := reaches_append hquote (wholeDigits s).2
  rwa [happend] at hreach

theorem reaches_places (s : List Char) : Reaches False s (places s).2 := by
  unfold places
  split
  · split
    · exact reaches_refl _
    · next h => exact (reaches_cons (by decide) _).after (reaches_spanDigits h)
  · exact reaches_refl _

theorem reaches_exponent {e : Int} (h : exponent? s = some (e, t)) : Reaches False s t := by
  unfold exponent? at h
  dsimp only at h
  split at h
  · next letter r =>
    split at h
    · next hletter =>
      have hfirst : Reaches False (letter :: r) r := by
        refine reaches_cons ?_ r
        rintro rfl
        exact absurd hletter (by decide)
      refine hfirst.after ?_
      split at h
      · split at h
        · cases h
        · next hspan =>
          cases h
          exact (reaches_cons (by decide) _).after (reaches_spanDigits hspan)
      · split at h
        · cases h
        · next hspan =>
          cases h
          exact (reaches_cons (by decide) _).after (reaches_spanDigits hspan)
      · split at h
        · cases h
        · next hspan =>
          cases h
          exact reaches_spanDigits hspan
    · cases h
  · cases h

theorem hasNaN_int {k : Int} : ¬ HasNaN (.num (.int k)) := by
  rintro ⟨x, hx, -⟩
  cases hasNumber_num_iff.mp hx

theorem hasNaN_float {x : Binary64} (h : x.isNaN = false) : ¬ HasNaN (.num (.float x)) := by
  rintro ⟨y, hy, hnan⟩
  cases hasNumber_num_iff.mp hy
  rw [h] at hnan
  cases hnan

/-- A numeral is read as a number. -/
theorem reaches_number {v : Json} (h : number s = .ok (v, t)) : Reaches v.HasNaN s t := by
  unfold number at h
  split at h
  next negative r hsign =>
  have hr : Reaches False s r := by
    split at hsign
    · rw [← (Prod.mk.inj hsign).2]
      exact reaches_cons (by decide) _
    · exact (Prod.mk.inj hsign).2 ▸ reaches_refl _
  have hwhole := hr.after (reaches_wholeDigits r)
  split at h
  · cases h
  · next whole r' _ hdigits =>
    rw [hdigits] at hwhole
    have hplaces := hwhole.after (reaches_places r')
    split at h
    next ds r'' hds =>
    rw [hds] at hplaces
    split at h
    · split at h
      · cases h
        exact hwhole.imp hasNaN_int
      · cases h
    · cases h
      exact hplaces.imp (hasNaN_float (Binary64.isNaN_ofDecimal ..))
    · next hexponent =>
      cases h
      exact (hplaces.after (reaches_exponent hexponent)).imp
        (hasNaN_float (Binary64.isNaN_ofDecimal ..))

/-! ## Values -/

/-- What the reader's steps with one bound may do. -/
structure ReachSteps (n : Nat) : Prop where
  value {s t : List Char} {v : Json} (h : value n s = .ok (v, t)) : Reaches v.HasNaN s t
  members {s t : List Char} {ms : List (String × Json)} (h : members n s = .ok (ms, t)) :
    Reaches (∃ p ∈ ms, p.2.HasNaN) s t
  items {s t : List Char} {vs : List Json} (h : items n s = .ok (vs, t)) :
    Reaches (∃ v ∈ vs, v.HasNaN) s t

variable {n : Nat} {v : Json} {vs : List Json} {ms : List (String × Json)}

theorem exists_of_hasNaN_arr (h : HasNaN (.arr vs)) : ∃ v ∈ vs, v.HasNaN := by
  obtain ⟨x, hx, hnan⟩ := h
  obtain ⟨v, hv, hx⟩ := hasNumber_arr_iff.mp hx
  exact ⟨v, hv, x, hx, hnan⟩

theorem exists_of_hasNaN_obj (h : HasNaN (.obj (Pairs.ofList ms))) : ∃ p ∈ ms, p.2.HasNaN := by
  obtain ⟨x, hx, hnan⟩ := h
  obtain ⟨p, hp, hx⟩ := hasNumber_obj_iff.mp hx
  exact ⟨p, Pairs.mem_of_mem_ofList hp, x, hx, hnan⟩

theorem reaches_value (h : ReachSteps n) (hv : Json.value (n + 1) s = .ok (v, t)) :
    Reaches v.HasNaN s t := by
  unfold Json.value at hv
  split at hv
  · split at hv
    · next hx =>
      cases hv
      exact (reaches_string hx).imp (by simp [HasNaN])
    · cases hv
  · next r =>
    have hr : Reaches False ('{' :: r) r := reaches_cons (by decide) r
    split at hv
    · next hb =>
      cases hv
      exact (hr.after (reaches_blanks_eq (by decide) hb)).imp (by simp [HasNaN])
    · split at hv
      · next hms =>
        cases hv
        exact (hr.after ((reaches_blanks r).after (h.members hms))).imp exists_of_hasNaN_obj
      · cases hv
  · next r =>
    have hr : Reaches False ('[' :: r) r := reaches_cons (by decide) r
    split at hv
    · next hb =>
      cases hv
      exact (hr.after (reaches_blanks_eq (by decide) hb)).imp (by simp [HasNaN])
    · split at hv
      · next hvs =>
        cases hv
        exact (hr.after ((reaches_blanks r).after (h.items hvs))).imp exists_of_hasNaN_arr
      · cases hv
  -- What is left are the words, and numbers.
  · cases hv
    exact (reaches_append (s := "null".toList) (by decide) _).imp (by simp [HasNaN])
  · cases hv
    exact (reaches_append (s := "true".toList) (by decide) _).imp (by simp [HasNaN])
  · cases hv
    exact (reaches_append (s := "false".toList) (by decide) _).imp (by simp [HasNaN])
  · cases hv
    exact ⟨fun _ => List.mem_cons_self, (reaches_append (s := "NaN".toList) (by decide) _).subset⟩
  · cases hv
    exact (reaches_append (s := "Infinity".toList) (by decide) _).imp (hasNaN_float rfl)
  · cases hv
    exact (reaches_append (s := "-Infinity".toList) (by decide) _).imp (hasNaN_float rfl)
  · exact reaches_number hv

theorem reaches_members (h : ReachSteps n) (hms : Json.members (n + 1) s = .ok (ms, t)) :
    Reaches (∃ p ∈ ms, p.2.HasNaN) s t := by
  unfold Json.members at hms
  split at hms
  · split at hms
    · cases hms
    · next hname =>
      have hname := reaches_string hname
      split at hms
      · next hcolon =>
        have hcolon := hname.after (reaches_blanks_eq (by decide) hcolon)
        split at hms
        · cases hms
        · next hv =>
          have hv := hcolon.after ((reaches_blanks _).after (h.value hv))
          split at hms
          · next hend =>
            cases hms
            exact (hv.before (reaches_blanks_eq (by decide) hend)).imp (by simp)
          · next hcomma =>
            have hcomma := hv.before (reaches_blanks_eq (by decide) hcomma)
            split at hms
            · next hrest =>
              cases hms
              refine (hcomma.trans ((reaches_blanks _).after (h.members hrest))).imp ?_
              simp
            · cases hms
          · cases hms
      · cases hms
  · cases hms

theorem reaches_items (h : ReachSteps n) (hvs : Json.items (n + 1) s = .ok (vs, t)) :
    Reaches (∃ v ∈ vs, v.HasNaN) s t := by
  unfold Json.items at hvs
  split at hvs
  · cases hvs
  · next hv =>
    have hv := h.value hv
    split at hvs
    · next hend =>
      cases hvs
      exact (hv.before (reaches_blanks_eq (by decide) hend)).imp (by simp)
    · next hcomma =>
      have hcomma := hv.before (reaches_blanks_eq (by decide) hcomma)
      split at hvs
      · next hrest =>
        cases hvs
        refine (hcomma.trans ((reaches_blanks _).after (h.items hrest))).imp ?_
        simp
      · cases hvs
    · cases hvs

/-- **Every step of the reader** finds the value that is no number at a bare `N` alone. -/
theorem reachSteps (n : Nat) : ReachSteps n := by
  induction n with
  | zero => exact ⟨nofun, nofun, nofun⟩
  | succ n ih => exact ⟨reaches_value ih, reaches_members ih, reaches_items ih⟩

/-! ## Texts -/

/-- **What is read from a standard text is a number wherever it is one**: no value that is no number stands
    in it. -/
theorem not_hasNaN_of_standard (hs : Standard s) (h : parseChars s = .ok v) : ¬ v.HasNaN := by
  intro hnan
  have hword : 'N' ∈ bare s := by
    unfold parseChars whole at h
    split at h
    · next hw =>
      cases h
      split at hw
      · cases hw
      · next hv =>
        split at hw
        · cases hw
          exact ((reaches_blanks s).after ((reachSteps _).value hv)).word hnan
        · cases hw
    · cases h
  exact (hs.regular.ne 'N' hword).1 rfl

end LockAudit.Json
