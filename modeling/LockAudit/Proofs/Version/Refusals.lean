import LockAudit.Proofs.Steps
import LockAudit.Proofs.Text.Runs
import LockAudit.Version.Reader

/-!
# `LockAudit.Proofs.Version.Refusals` — versions that are refused

A version text is taken apart into rows of digits before their sizes are looked at. Each of these rows
stands in the text as it is (`Taken`), so reading refuses a text only for a run of digits that anybody
can see in it.

* `taken_numbers?`, `taken_marker?`, `taken_revision?`, `infix_of_label?` — what each scanner takes.
* `Draft.rows_taken` — so it is for all parts of a version text.
* `hasLongRun_of_parse` — without a long run of digits, a text is a version or it is not.
* `hasLongRun_of_parseInstalled` — the same for installed versions: respelling what stands behind the
  release puts no two numbers together (`hasLongRun_of_markers`).
-/

namespace LockAudit.Version

open LockAudit.Text

variable {p : Char → Bool} {s r ds : List Char}

/-- A row of characters of one class that stands in a text. -/
def Taken (p : Char → Bool) (s ds : List Char) : Prop := ds <:+: s ∧ ∀ c ∈ ds, p c = true

theorem Taken.mono (h : Taken p r ds) (hr : r <:+: s) : Taken p s ds := ⟨h.1.trans hr, h.2⟩

theorem taken_nil (p : Char → Bool) (s : List Char) : Taken p s [] := ⟨List.nil_infix, by simp⟩

theorem taken_takeWhile (p : Char → Bool) (s : List Char) : Taken p s (s.takeWhile p) :=
  ⟨(List.takeWhile_prefix _).isInfix, List.all_eq_true.mp List.all_takeWhile⟩

/-! ## Scanners -/

theorem suffix_skipSeparator (s : List Char) : skipSeparator s <:+ s := by
  cases s with
  | nil => exact List.suffix_refl _
  | cons c s =>
    rw [skipSeparator]
    split
    · exact List.suffix_cons c s
    · exact List.suffix_refl _

theorem suffix_afterWord? {w : List Char} (h : afterWord? w s = some r) : r <:+ s := by
  unfold afterWord? at h
  split at h
  · rw [← Option.some.inj h]
    exact List.drop_suffix _ s
  · cases h

theorem suffix_firstWord? {α : Type} {ws : List (String × α)} {a : α}
    (h : firstWord? ws s = some (a, r)) : r <:+ s := by
  unfold firstWord? at h
  obtain ⟨⟨w, b⟩, -, hw⟩ := List.exists_of_findSome?_eq_some h
  obtain ⟨t, ht, heq⟩ := Option.map_eq_some_iff.mp hw
  rw [← (Prod.mk.inj heq).2]
  exact suffix_afterWord? ht

theorem taken_moreNumbers (p : Char → Bool) (s : List Char) :
    (∀ d ∈ (moreNumbers p s).1, Taken p s d) ∧ (moreNumbers p s).2 <:+ s := by
  fun_induction moreNumbers p s with
  | case1 r h => exact ⟨by simp, List.suffix_refl _⟩
  | case2 r h more u hmore ih =>
    rw [hmore] at ih
    have hdrop : r.dropWhile p <:+ '.' :: r :=
      (List.dropWhile_suffix _).trans (List.suffix_cons _ r)
    refine ⟨fun d hd => ?_, ih.2.trans hdrop⟩
    rcases List.mem_cons.mp hd with rfl | hd
    · exact (taken_takeWhile p r).mono (List.suffix_cons _ r).isInfix
    · exact (ih.1 d hd).mono hdrop.isInfix
  | case3 s h => exact ⟨by simp, List.suffix_refl _⟩

theorem taken_numbers? {rows : List (List Char)} (h : numbers? p s = some (rows, r)) :
    (∀ d ∈ rows, Taken p s d) ∧ r <:+ s := by
  unfold numbers? at h
  split at h
  · cases h
  · have hmore := taken_moreNumbers p (s.dropWhile p)
    have hdrop : s.dropWhile p <:+ s := List.dropWhile_suffix _
    cases h
    refine ⟨fun d hd => ?_, hmore.2.trans hdrop⟩
    rcases List.mem_cons.mp hd with rfl | hd
    · exact taken_takeWhile p s
    · exact (hmore.1 d hd).mono hdrop.isInfix

theorem taken_marker? {α : Type} {ws : List (String × α)} {a : α}
    (h : marker? ws s = some ((a, ds), r)) : Taken isAsciiDigit s ds ∧ r <:+ s := by
  unfold marker? at h
  obtain ⟨⟨b, t⟩, ht, heq⟩ := Option.map_eq_some_iff.mp h
  cases heq
  have hword := (suffix_firstWord? ht).trans (suffix_skipSeparator s)
  have hskip := (suffix_skipSeparator t).trans hword
  exact ⟨(taken_takeWhile _ _).mono hskip.isInfix, (List.dropWhile_suffix _).trans hskip⟩

theorem taken_revision? (h : revision? s = some (ds, r)) : Taken isAsciiDigit s ds ∧ r <:+ s := by
  have hmarker : ∀ {t}, (marker? revisionWords t).map (fun m => (m.1.2, m.2)) = some (ds, r) →
      Taken isAsciiDigit t ds ∧ r <:+ t := by
    intro t h
    obtain ⟨⟨⟨a, b⟩, c⟩, hm, heq⟩ := Option.map_eq_some_iff.mp h
    cases heq
    exact taken_marker? hm
  unfold revision? at h
  split at h
  · next t =>
    split at h
    · exact hmarker h
    · cases h
      have ht : t <:+ '-' :: t := List.suffix_cons _ t
      exact ⟨(taken_takeWhile _ t).mono ht.isInfix, (List.dropWhile_suffix _).trans ht⟩
  · exact hmarker h

/-- A part that may be missing: if it is, nothing of the text is used up. -/
theorem taken_optional {α β : Type} {x : Option (α × List Char)} {o : Option β} (f : α → β)
    (row : β → List Char)
    (hx : ∀ a t, x = some (a, t) → Taken isAsciiDigit s (row (f a)) ∧ t <:+ s)
    (h : x.elim (none, s) (fun m => (some (f m.1), m.2)) = (o, r)) :
    (∀ b, o = some b → Taken isAsciiDigit s (row b)) ∧ r <:+ s := by
  cases x with
  | none =>
    obtain ⟨rfl, rfl⟩ := Prod.mk.inj h
    refine ⟨fun b hb => ?_, List.suffix_refl _⟩
    cases hb
  | some m =>
    obtain ⟨rfl, rfl⟩ := Prod.mk.inj h
    obtain ⟨htaken, hrest⟩ := hx m.1 m.2 rfl
    refine ⟨fun b hb => ?_, hrest⟩
    cases hb
    exact htaken

theorem infix_of_label? {ws : List (List Char)} (h : label? s = some ws) : ∀ w ∈ ws, w <:+: s := by
  unfold label? at h
  split at h
  · cases h
    simp
  · next t =>
    dsimp only at h
    split at h
    · cases h
      intro w hw
      exact (infix_of_mem_split hw).trans (List.suffix_cons _ t).isInfix
    · cases h
  · cases h

/-! ## Drafts -/

/-- All rows of digits in a draft stand in a text. -/
structure Draft.RowsTaken (s : List Char) (d : Draft) : Prop where
  epoch : Taken isAsciiDigit s d.epoch
  release : ∀ ds ∈ d.release, Taken isAsciiDigit s ds
  phase : ∀ a ds, d.phase = some (a, ds) → Taken isAsciiDigit s ds
  revision : ∀ ds, d.revision = some ds → Taken isAsciiDigit s ds
  development : ∀ ds, d.development = some ds → Taken isAsciiDigit s ds
  label : ∀ w ∈ d.label, w <:+: s

theorem infix_trim (s : List Char) : trim s <:+: s := by
  have hend : trimEnd (trimStart s) <+: trimStart s := by
    rw [← List.reverse_suffix, trimEnd, List.reverse_reverse]
    exact List.dropWhile_suffix _
  exact hend.isInfix.trans (List.dropWhile_suffix _).isInfix

theorem infix_afterWord?_getD (w s : List Char) : (afterWord? w s).getD s <:+: s := by
  cases h : afterWord? w s with
  | none => exact List.infix_refl s
  | some r => exact (suffix_afterWord? h).isInfix

/-- **All numbers of a version text stand in it.** -/
theorem Draft.rows_taken {d : Draft} (h : Draft.parse? s = some d) : d.RowsTaken s := by
  unfold Draft.parse? at h
  extract_lets t s₀ at h
  have h₀ : s₀ <:+: s := (infix_afterWord?_getD ['v'] t).trans (infix_trim s)
  clear_value s₀
  -- Each part is found in the rest that the part before it leaves.
  split at h
  next epoch s₁ hepoch =>
  split at h
  · cases h
  next release s₂ hrelease =>
  split at h
  next phase s₃ hphase =>
  split at h
  next revision s₄ hrevision =>
  split at h
  next development s₅ hdevelopment =>
  obtain ⟨label, hlabel, rfl⟩ := Option.map_eq_some_iff.mp h
  have epochTaken : Taken isAsciiDigit s₀ epoch ∧ s₁ <:+ s₀ := by
    split at hepoch
    · next r hr =>
      split at hepoch
      · cases hepoch
        exact ⟨taken_nil _ s₀, List.suffix_refl s₀⟩
      · cases hepoch
        have hsuffix : s₀.dropWhile isAsciiDigit <:+ s₀ := List.dropWhile_suffix _
        rw [hr] at hsuffix
        exact ⟨taken_takeWhile _ s₀, (List.suffix_cons '!' s₁).trans hsuffix⟩
    · cases hepoch
      exact ⟨taken_nil _ s₀, List.suffix_refl s₀⟩
  have releaseTaken := taken_numbers? hrelease
  have phaseTaken := taken_optional (x := marker? phaseWords s₂) (o := phase) (r := s₃) id Prod.snd
    (fun _ _ hm => taken_marker? hm) (by rw [← hphase]; cases marker? phaseWords s₂ <;> rfl)
  have revisionTaken := taken_optional (x := revision? s₃) (o := revision) (r := s₄) id id
    (fun _ _ hm => taken_revision? hm) (by rw [← hrevision]; cases revision? s₃ <;> rfl)
  have developmentTaken := taken_optional (x := marker? [("dev", ())] s₄) (o := development) (r := s₅)
    Prod.snd id (fun _ _ hm => taken_marker? hm)
    (by rw [← hdevelopment]; cases marker? [("dev", ())] s₄ <;> rfl)
  have h₁ : s₁ <:+: s := epochTaken.2.isInfix.trans h₀
  have h₂ : s₂ <:+: s := releaseTaken.2.isInfix.trans h₁
  have h₃ : s₃ <:+: s := phaseTaken.2.isInfix.trans h₂
  have h₄ : s₄ <:+: s := revisionTaken.2.isInfix.trans h₃
  have h₅ : s₅ <:+: s := developmentTaken.2.isInfix.trans h₄
  exact {
    epoch := epochTaken.1.mono h₀
    release := fun ds hds => (releaseTaken.1 ds hds).mono h₁
    phase := fun _ _ hp => (phaseTaken.1 _ hp).mono h₂
    revision := fun _ hr => (revisionTaken.1 _ hr).mono h₃
    development := fun _ hd => (developmentTaken.1 _ hd).mono h₄
    label := fun w hw => (infix_of_label? hlabel w hw).trans h₅ }

/-! ## Versions -/

theorem hasLongRun_of_number {e : Fault} (hds : Taken isAsciiDigit s ds) (h : number ds = .error e) :
    HasLongRun s := by
  unfold number at h
  split at h
  · cases h
  · next hread => exact hasLongRun_of_read hread hds.2 hds.1

theorem hasLongRun_of_number? {o : Option (List Char)} {e : Fault}
    (hds : ∀ ds, o = some ds → Taken isAsciiDigit s ds) (h : number? o = .error e) :
    HasLongRun s := by
  cases o with
  | none => cases h
  | some ds => exact hasLongRun_of_number (hds ds rfl) (map_error h)

theorem hasLongRun_of_labelPart {w : List Char} {e : Fault} (hw : w <:+: s)
    (h : labelPart w = .error e) : HasLongRun s := by
  unfold labelPart at h
  split at h
  · next hall => exact hasLongRun_of_number ⟨hw, List.all_eq_true.mp hall⟩ (map_error h)
  · cases h

theorem Draft.RowsTaken.hasLongRun {d : Draft} {e : Fault} (hd : d.RowsTaken s)
    (h : d.version = .error e) : HasLongRun s := by
  unfold Draft.version at h
  rcases bind_error h with h | ⟨epoch, -, h⟩
  · exact hasLongRun_of_number hd.epoch h
  rcases bind_error h with h | ⟨release, -, h⟩
  · obtain ⟨ds, hds, h⟩ := mapM_error h
    exact hasLongRun_of_number (hd.release ds hds) h
  -- What is read behind the phase is the same with and without one.
  extract_lets rest at h
  have hrest : ∀ phase, rest phase = .error e → HasLongRun s := by
    intro phase h
    rcases bind_error h with h | ⟨revision, -, h⟩
    · exact hasLongRun_of_number? hd.revision h
    rcases bind_error h with h | ⟨development, -, h⟩
    · exact hasLongRun_of_number? hd.development h
    rcases bind_error h with h | ⟨label, -, h⟩
    · obtain ⟨w, hw, h⟩ := mapM_error h
      exact hasLongRun_of_labelPart (hd.label w hw) h
    · cases h
  split at h
  · exact hrest none h
  · next p ds hphase =>
    rcases bind_error h with h | ⟨n, -, h⟩
    · exact hasLongRun_of_number (hd.phase p ds hphase) h
    · exact hrest (some (p, n)) h

/-- **Only a long run is refused.** A text without a long run of digits is a version or is none. -/
theorem hasLongRun_of_parse {e : Numeral.Refusal} (h : parse s = .error (.numeral e)) :
    HasLongRun s := by
  unfold parse at h
  split at h
  · cases h
  · next d hd => exact (Draft.rows_taken hd).hasLongRun h

/-! ## Installed versions -/

/-- A suffix is respelled with its own numbers, or it is cut. -/
theorem markers_cases (suffix : List Char) :
    markers suffix = suffix.takeWhile (· ≠ '+') ∨
      (∃ n, n <:+: suffix ∧ markers suffix = 'a' :: n) ∨
      ∃ n m, n <:+: suffix ∧ m <:+: suffix ∧ markers suffix = 'a' :: (n ++ ".post".toList ++ m) := by
  have hcut : suffix.takeWhile (· ≠ '+') <+: suffix := List.takeWhile_prefix _
  unfold markers
  dsimp only
  split
  · next r hr =>
    have hr : r <:+: suffix := by
      have hminus : r <:+ '-' :: r := List.suffix_cons '-' r
      rw [hr] at hcut
      exact hminus.isInfix.trans hcut.isInfix
    split
    · next n hn =>
      have hnumbers := (taken_numbers? hn).1
      exact .inr (.inl ⟨n, (hnumbers n (by simp)).1.trans hr, rfl⟩)
    · next n m hnm =>
      have hnumbers := (taken_numbers? hnm).1
      have hn := (hnumbers n (by simp)).1.trans hr
      have hm := (hnumbers m (by simp)).1.trans hr
      exact .inr (.inr ⟨n, m, hn, hm, rfl⟩)
    · exact .inl rfl
  · exact .inl rfl

/-- Respelling a suffix makes no run longer: letters stand around the numbers. -/
theorem hasLongRun_of_markers {suffix : List Char} (h : HasLongRun (s ++ markers suffix)) :
    HasLongRun (s ++ suffix) := by
  -- A run in the respelled text is in the front or in one of the two numbers.
  have hfront : HasLongRun s → HasLongRun (s ++ suffix) :=
    fun hrun => hrun.mono (List.prefix_append s suffix).isInfix
  have hback : ∀ {n}, n <:+: suffix → HasLongRun n → HasLongRun (s ++ suffix) :=
    fun hn hrun => hrun.mono (hn.trans (List.suffix_append s suffix).isInfix)
  rcases markers_cases suffix with heq | ⟨n, hn, heq⟩ | ⟨n, m, hn, hm, heq⟩ <;> rw [heq] at h
  · have hcut := (List.prefix_append_right_inj s).mpr (List.takeWhile_prefix (· ≠ '+') (l := suffix))
    exact h.mono hcut.isInfix
  · rcases HasLongRun.of_append_cons (by decide) h with h | h
    · exact hfront h
    · exact hback hn h
  · rcases HasLongRun.of_append_cons (by decide) h with h | h
    · exact hfront h
    have hpost : n ++ ".post".toList ++ m = (n ++ ".pos".toList) ++ 't' :: m := by simp
    rw [hpost] at h
    rcases HasLongRun.of_append_cons (by decide) h with h | h
    · rcases HasLongRun.of_append_cons (by decide) h with h | h
      · exact hback hn h
      · exact absurd h (not_hasLongRun_of_length (by decide))
    · exact hback hm h

/-- An installed version, too, is refused for a long run only. -/
theorem hasLongRun_of_parseInstalled {e : Numeral.Refusal}
    (h : parseInstalled s = .error (.numeral e)) : HasLongRun s := by
  unfold parseInstalled at h
  extract_lets t at h
  have ht : t <:+: s := (List.dropWhile_suffix _).isInfix.trans (infix_trim s)
  clear_value t
  split at h
  · next suffix hsuffix =>
    split at h
    · exact (hasLongRun_of_parse h).mono ht
    · have hrun := hasLongRun_of_markers (hasLongRun_of_parse h)
      rw [List.suffix_iff_eq_append.mp (taken_numbers? hsuffix).2] at hrun
      exact hrun.mono ht
  · exact (hasLongRun_of_parse h).mono ht

end LockAudit.Version
