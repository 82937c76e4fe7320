import Mathlib.Data.List.TakeWhile
import LockAudit.Proofs.Version.Semantic

/-!
# `LockAudit.Proofs.Version.Prerelease` — what a prerelease is read as

The text behind the hyphen of a semantic version is read with the words of another grammar. There it can be
a phase or a development number, which come before the release; it can also be a revision, which comes
after it. A prerelease of numbers alone is respelled, so that it is a phase; no other is.

* `Draft.parse?_iff` — what is read behind the release of a version text, part by part (`Behind`).
* `ofSemantic_ok` — a bound that is a version has the numbers that it is written with.
* `order_of_isRevision`, `order_of_not_isRevision` — the place of a version beside its release.
* `ReadsAsRevision` — the prereleases that are read as a revision, told by their text.
* `markers_prerelease` — which prereleases are respelled.
* `Semantic.isRevision_iff` — what a prerelease is read as.
-/

namespace LockAudit.Version

open LockAudit.Text

variable {s t r m : List Char} {c : Char} {w : String}

/-! ## Words at the front of a text -/

/-- A text begins with a word, in either case. The word is in lower case. -/
def Begins (w : String) (s : List Char) : Prop := w.toList <+: s.map Char.toLower

instance (w : String) (s : List Char) : Decidable (Begins w s) := inferInstanceAs (Decidable (_ <+: _))

theorem isSome_afterWord?_iff : (afterWord? w.toList s).isSome = true ↔ Begins w s := by
  rw [Begins, List.prefix_iff_eq_take, ← List.map_take, afterWord?]
  split
  · next h => simp [h]
  · next h => simpa using Ne.symm h

theorem isSome_firstWord?_iff {α : Type} {ws : List (String × α)} :
    (firstWord? ws s).isSome = true ↔ ∃ p ∈ ws, Begins p.1 s := by
  rw [firstWord?, List.findSome?_isSome_iff]
  simp only [Option.isSome_map, isSome_afterWord?_iff]

/-- A marker is found where one of its words is, behind a separator or not. -/
theorem isSome_marker?_iff {α : Type} {ws : List (String × α)} :
    (marker? ws s).isSome = true ↔ ∃ p ∈ ws, Begins p.1 (skipSeparator s) := by
  rw [marker?, Option.isSome_map, isSome_firstWord?_iff]

/-- A text that begins with a word begins with what the word begins with. -/
theorem Begins.of_prefix {u : String} (h : Begins w s) (hu : u.toList <+: w.toList) : Begins u s :=
  hu.trans h

/-- Of two words that begin one text, one begins the other. -/
theorem Begins.prefix_or_prefix {u : String} (h : Begins w s) (hu : Begins u s) :
    w.toList <+: u.toList ∨ u.toList <+: w.toList :=
  List.prefix_or_prefix_of_prefix h hu

/-- A digit or a point. -/
def isNumberChar (c : Char) : Bool := isAsciiDigit c || c == '.'

/-- A text that begins with a word does not begin with a number. -/
theorem Begins.exists_head (h : Begins w s) (hw : w.toList.head? = some c) (hc : c.isAlpha = true) :
    ∃ d, s.head? = some d ∧ isNumberChar d = false := by
  obtain ⟨t, ht⟩ := h
  have hhead : (s.map Char.toLower).head? = some c := by rw [← ht, List.head?_append, hw]; rfl
  rw [List.head?_map, Option.map_eq_some_iff] at hhead
  obtain ⟨d, hd, rfl⟩ := hhead
  refine ⟨d, hd, ?_⟩
  have hdigit : isAsciiDigit d = false := by
    rw [← Bool.not_eq_true]
    intro hdigit
    have hlower := of_isAsciiDigit hdigit (fun d => !d.toLower.isAlpha) (by decide)
    rw [hc] at hlower
    cases hlower
  have hpoint : d ≠ '.' := by
    rintro rfl
    exact absurd hc (by decide)
  simp [isNumberChar, hdigit, hpoint]

/-- No word begins with a digit. -/
theorem not_begins_of_digit (hs : ∃ d, s.head? = some d ∧ isAsciiDigit d = true)
    (hw : w.toList.head? = some c) (hc : c.isAlpha = true) : ¬ Begins w s := by
  intro h
  obtain ⟨d, hd, hdigit⟩ := hs
  obtain ⟨d', hd', hnumber⟩ := h.exists_head hw hc
  rw [hd] at hd'
  cases hd'
  rw [isNumberChar, hdigit] at hnumber
  cases hnumber

/-! ## Behind a release -/

/-- What becomes of a part that may be missing: what is left is what the part leaves, or all. -/
inductive Part {α : Type} (x : Option (α × List Char)) (s : List Char) : Option α → List Char → Prop
  | missing (h : x = none) : Part x s none s
  | read {a : α} {r : List Char} (h : x = some (a, r)) : Part x s (some a) r

theorem part_iff {α : Type} {x : Option (α × List Char)} {o : Option α} :
    Part x s o r ↔ x.elim (none, s) (fun p => (some p.1, p.2)) = (o, r) := by
  constructor
  · rintro (h | h) <;> (rw [h]; rfl)
  · intro h
    cases x with
    | none =>
      cases h
      exact .missing rfl
    | some p =>
      cases h
      exact .read rfl

theorem Part.unique {α : Type} {x : Option (α × List Char)} {o o' : Option α} (h : Part x s o r)
    (h' : Part x s o' t) : o = o' ∧ r = t := by
  have heq := (part_iff.mp h).symm.trans (part_iff.mp h')
  exact Prod.mk.inj heq

/-- What is read behind the release of a version text: a phase, a revision, a development number and a
    label, each in what the part before it leaves. -/
def Behind (m : List Char) (d : Draft) : Prop :=
  ∃ r t u, Part (marker? phaseWords m) m d.phase r ∧ Part (revision? r) r d.revision t ∧
    Part ((marker? [("dev", ())] t).map fun p => (p.1.2, p.2)) t d.development u ∧ label? u = some d.label

variable {v : Semantic} {d : Draft} {x : Version}

/-- **What follows a release is read behind it**, and the release as it stands. -/
theorem Draft.parse?_iff {ds : List (List Char)} (hne : ds ≠ [])
    (hds : ∀ n ∈ ds, n ≠ [] ∧ ∀ c ∈ n, isAsciiDigit c = true) (hends : EndsNumbers isAsciiDigit m)
    (hmark : m.head? ≠ some '!') (hblank : ∀ c ∈ m, isBlank c = false) :
    Draft.parse? (points ds ++ m) = some d ↔ d.epoch = [] ∧ d.release = ds ∧ Behind m d := by
  have hnumbers : numbers? isAsciiDigit (points ds ++ m) = some (ds, m) :=
    numbers?_points (by decide) hne hds hends
  -- What follows the first number is a point or what stands behind the release, so there is no epoch.
  have hdrop : ∀ r, (points ds ++ m).dropWhile isAsciiDigit ≠ '!' :: r := by
    intro r hr
    rw [dropWhile_points hds hne hends.1] at hr
    cases hns : ds.tail with
    | nil =>
      rw [hns] at hr
      exact hmark (congrArg List.head? hr)
    | cons x ns =>
      rw [hns] at hr
      exact absurd (List.cons.inj hr).1 (by decide)
  unfold Draft.parse?
  extract_lets s s₀
  have hs : s = points ds ++ m := trim_points_append hds hblank
  have hs₀ : s₀ = points ds ++ m := by rw [← afterWord?_points hds hne m, ← hs]
  clear_value s₀
  subst hs₀
  split
  next epoch s₁ hepoch =>
  have hnone : epoch = [] ∧ s₁ = points ds ++ m := by
    split at hepoch
    · next r hr => exact absurd hr (hdrop r)
    · cases hepoch
      exact ⟨rfl, rfl⟩
  obtain ⟨rfl, rfl⟩ := hnone
  split
  · next hno =>
    rw [hnumbers] at hno
    cases hno
  next release s₂ hrelease =>
  rw [hnumbers] at hrelease
  cases hrelease
  -- Each part takes what the part before it leaves.
  split
  next phase r hphase =>
  have hphase : Part (marker? phaseWords m) m phase r := by
    refine part_iff.mpr ?_
    rw [← hphase]
    cases marker? phaseWords m <;> rfl
  split
  next revision t hrevision =>
  have hrevision : Part (revision? r) r revision t := by
    refine part_iff.mpr ?_
    rw [← hrevision]
    cases revision? r <;> rfl
  split
  next development u hdevelopment =>
  have hdevelopment : Part ((marker? [("dev", ())] t).map fun p => (p.1.2, p.2)) t development u := by
    refine part_iff.mpr ?_
    rw [← hdevelopment]
    cases marker? [("dev", ())] t <;> rfl
  rw [Option.map_eq_some_iff]
  constructor
  · rintro ⟨label, hlabel, rfl⟩
    exact ⟨rfl, rfl, r, t, u, hphase, hrevision, hdevelopment, hlabel⟩
  · -- A part determines what it finds and what it leaves, so both readings go the same way.
    rintro ⟨hepoch, hrelease, r', t', u', hphase', hrevision', hdevelopment', hlabel⟩
    obtain ⟨hp, rfl⟩ := hphase'.unique hphase
    obtain ⟨hr, rfl⟩ := hrevision'.unique hrevision
    obtain ⟨hd, rfl⟩ := hdevelopment'.unique hdevelopment
    refine ⟨d.label, hlabel, ?_⟩
    rw [← hepoch, ← hrelease, ← hp, ← hr, ← hd]

/-- What a version has of its draft. -/
theorem Draft.version_ok (h : d.version = .ok x) : number d.epoch = .ok x.epoch ∧
    d.release.mapM number = .ok x.release ∧ x.phase.isSome = d.phase.isSome ∧
    x.revision.isSome = d.revision.isSome ∧ x.development.isSome = d.development.isSome := by
  have hoption : ∀ {o : Option (List Char)} {n : Option Nat}, number? o = .ok n →
      n.isSome = o.isSome := by
    intro o n h
    cases o with
    | none =>
      cases h
      rfl
    | some ds =>
      obtain ⟨k, -, rfl⟩ := exists_of_map_ok h
      rfl
  unfold Draft.version at h
  obtain ⟨epoch, hepoch, h⟩ := exists_of_bind_ok h
  obtain ⟨release, hrelease, h⟩ := exists_of_bind_ok h
  -- What is read behind the phase is the same with and without one.
  extract_lets rest at h
  have hrest : ∀ phase, rest phase = .ok x → epoch = x.epoch ∧ release = x.release ∧ x.phase = phase ∧
      x.revision.isSome = d.revision.isSome ∧ x.development.isSome = d.development.isSome := by
    intro phase h
    obtain ⟨revision, hrevision, h⟩ := exists_of_bind_ok h
    obtain ⟨development, hdevelopment, h⟩ := exists_of_bind_ok h
    obtain ⟨label, -, h⟩ := exists_of_bind_ok h
    cases h
    exact ⟨rfl, rfl, rfl, hoption hrevision, hoption hdevelopment⟩
  split at h
  · next hphase =>
    obtain ⟨rfl, rfl, hx, hr, hd⟩ := hrest none h
    exact ⟨hepoch, hrelease, by rw [hx, hphase]; rfl, hr, hd⟩
  · next p ds hphase =>
    obtain ⟨n, -, h⟩ := exists_of_bind_ok h
    obtain ⟨rfl, rfl, hx, hr, hd⟩ := hrest (some (p, n)) h
    exact ⟨hepoch, hrelease, by rw [hx, hphase]; rfl, hr, hd⟩

/-- What is read without an epoch, and with numbers that can be read, is the version with these numbers. -/
theorem Draft.version_numbers {ds : List (List Char)} (hds : ∀ n ∈ ds, IsNumeral n) (h : d.version = .ok x)
    (hepoch : d.epoch = []) (hrelease : d.release = ds) :
    x.epoch = 0 ∧ x.release = ds.map Numeral.value := by
  obtain ⟨hepoch', hrelease', -⟩ := Draft.version_ok h
  rw [hepoch] at hepoch'
  rw [hrelease, mapM_number hds] at hrelease'
  exact ⟨(Except.ok.inj hepoch').symm, (Except.ok.inj hrelease').symm⟩

/-! ## Beside its release -/

/-- A version is a revision of its release: it has one, and no phase before it. -/
def IsRevision (x : Version) : Prop := x.phase = none ∧ x.revision.isSome = true

/-- Beside its release the markers of a version decide its place. -/
theorem order_ofRelease_self (hepoch : x.epoch = 0) : x.order (ofRelease x.release) =
    compare (x.key.drop 2) [[4], [0], [1]] := by
  have hrelease : compare (significant x.release) (significant x.release) = .eq :=
    Std.ReflCmp.compare_self
  have hkey : x.key = [0] :: significant x.release :: x.key.drop 2 := by rw [← hepoch]; rfl
  have hofRelease : (ofRelease x.release).key = [[0], significant x.release, [4], [0], [1]] := rfl
  have hfirst : compare [0] [0] = .eq := by decide
  unfold order
  rw [hofRelease]
  conv => lhs; rw [hkey]
  rw [List.compare_cons_cons, hfirst, Ordering.eq_then,
    List.compare_cons_cons (x := significant x.release), hrelease, Ordering.eq_then]

/-- A revision comes after its release. -/
theorem order_of_isRevision (hepoch : x.epoch = 0) (h : x.IsRevision) :
    x.order (ofRelease x.release) = .gt := by
  rw [order_ofRelease_self hepoch]
  obtain ⟨epoch, release, phase, revision, development, label⟩ := x
  obtain ⟨rfl : phase = none, hrevision⟩ := h
  obtain ⟨n, rfl : revision = some n⟩ := Option.isSome_iff_exists.mp hrevision
  cases development <;> rfl

/-- A version with a phase, and one with a development number that is no revision, come before it. -/
theorem order_of_not_isRevision (hepoch : x.epoch = 0) (h : ¬ x.IsRevision)
    (hmarked : x.phase.isSome = true ∨ x.development.isSome = true) :
    x.order (ofRelease x.release) = .lt := by
  rw [order_ofRelease_self hepoch]
  obtain ⟨epoch, release, phase, revision, development, label⟩ := x
  cases phase with
  | some p =>
    obtain ⟨p, n⟩ := p
    cases p <;> rfl
  | none =>
    cases revision with
    | some n => exact absurd ⟨rfl, rfl⟩ h
    | none =>
      cases development with
      | some n => rfl
      | none => exact absurd hmarked (by simp)

/-! ## Prereleases that are read as revisions -/

/-- The text of a prerelease that is read as a revision. It begins like a word for one (`r` begins another
    word if a `c` follows), or it begins with a number, which then stands for one, and has more than
    numbers. -/
def ReadsAsRevision (s : List Char) : Prop :=
  Begins "post" s ∨ (Begins "r" s ∧ ¬ Begins "rc" s) ∨
    (∃ c, s.head? = some c ∧ isAsciiDigit c = true) ∧ ∃ c ∈ s, isNumberChar c = false

/-- Such a text has more than numbers. -/
theorem ReadsAsRevision.exists_other (h : ReadsAsRevision s) : ∃ c ∈ s, isNumberChar c = false := by
  have hword : ∀ {w : String} {a : Char}, w.toList.head? = some a → a.isAlpha = true → Begins w s →
      ∃ c ∈ s, isNumberChar c = false := by
    intro w a hw ha hs
    obtain ⟨d, hd, hother⟩ := hs.exists_head hw ha
    exact ⟨d, List.mem_of_mem_head? hd, hother⟩
  rcases h with h | ⟨h, -⟩ | ⟨-, h⟩
  · exact hword (a := 'p') rfl rfl h
  · exact hword (a := 'r') rfl rfl h
  · exact h

/-- The words for a phase begin with these. -/
theorem begins_phase_iff : (∃ p ∈ phaseWords, Begins p.1 s) ↔
    Begins "a" s ∨ Begins "b" s ∨ Begins "c" s ∨ Begins "pre" s ∨ Begins "rc" s := by
  simp only [phaseWords, List.mem_cons, List.not_mem_nil, or_false, exists_eq_or_imp, exists_eq_left]
  constructor
  · rintro (h | h | h | h | h | h | h | h)
    · exact .inl (h.of_prefix (by decide))
    · exact .inl h
    · exact .inr (.inl (h.of_prefix (by decide)))
    · exact .inr (.inl h)
    · exact .inr (.inr (.inr (.inl (h.of_prefix (by decide)))))
    · exact .inr (.inr (.inr (.inl h)))
    · exact .inr (.inr (.inl h))
    · exact .inr (.inr (.inr (.inr h)))
  · rintro (h | h | h | h | h) <;> simp [h]

/-- The words for a revision begin with these. -/
theorem begins_revision_iff : (∃ p ∈ revisionWords, Begins p.1 s) ↔ Begins "post" s ∨ Begins "r" s := by
  simp only [revisionWords, List.mem_cons, List.not_mem_nil, or_false, exists_eq_or_imp, exists_eq_left]
  constructor
  · rintro (h | h | h)
    · exact .inl h
    · exact .inr (h.of_prefix (by decide))
    · exact .inr h
  · rintro (h | h) <;> simp [h]

/-- What begins like a phase is not read as a revision. -/
theorem not_readsAsRevision_of_phase (h : ∃ p ∈ phaseWords, Begins p.1 s) : ¬ ReadsAsRevision s := by
  rw [begins_phase_iff] at h
  rintro (hpost | ⟨hr, hrc⟩ | ⟨hdigit, -⟩)
  · rcases h with h | h | h | h | h <;> exact absurd (h.prefix_or_prefix hpost) (by decide)
  · rcases h with h | h | h | h | h
    · exact absurd (h.prefix_or_prefix hr) (by decide)
    · exact absurd (h.prefix_or_prefix hr) (by decide)
    · exact absurd (h.prefix_or_prefix hr) (by decide)
    · exact absurd (h.prefix_or_prefix hr) (by decide)
    · exact hrc h
  · have hno : ∀ {w : String} {a : Char}, w.toList.head? = some a → a.isAlpha = true → ¬ Begins w s :=
      not_begins_of_digit hdigit
    rcases h with h | h | h | h | h
    · exact hno (a := 'a') rfl rfl h
    · exact hno (a := 'b') rfl rfl h
    · exact hno (a := 'c') rfl rfl h
    · exact hno (a := 'p') rfl rfl h
    · exact hno (a := 'r') rfl rfl h

/-! ## Reading a prerelease -/

/-- A version without markers has nothing behind its release. -/
theorem eq_nil_of_label? {ws : List (List Char)} (h : label? s = some ws) (hplus : '+' ∉ s) : s = [] := by
  unfold label? at h
  split at h
  · rfl
  · exact absurd List.mem_cons_self hplus
  · cases h

/-- A development number has more than numbers. -/
theorem exists_other_of_marker? {p : (Unit × List Char) × List Char}
    (h : marker? [("dev", ())] s = some p) :
    ∃ c ∈ s, isNumberChar c = false := by
  obtain ⟨w, hw, hs⟩ := isSome_marker?_iff.mp (Option.isSome_of_eq_some h)
  rw [List.mem_singleton.mp hw] at hs
  obtain ⟨c, hc, hother⟩ := hs.exists_head (c := 'd') rfl rfl
  exact ⟨c, (suffix_skipSeparator s).subset (List.mem_of_mem_head? hc), hother⟩

/-- A hyphen and a number are a revision. -/
theorem revision?_digit (h : ∃ c, s.head? = some c ∧ isAsciiDigit c = true) :
    revision? ('-' :: s) = some (s.takeWhile isAsciiDigit, s.dropWhile isAsciiDigit) := by
  obtain ⟨c, hc, hdigit⟩ := h
  cases s with
  | nil => cases hc
  | cons d s =>
    cases hc
    simp [revision?, hdigit]

theorem isSome_revision?_iff : (revision? ('-' :: s)).isSome = true ↔
    (∃ c, s.head? = some c ∧ isAsciiDigit c = true) ∨ Begins "post" s ∨ Begins "r" s := by
  by_cases h : ∃ c, s.head? = some c ∧ isAsciiDigit c = true
  · simp only [revision?_digit h, h, true_or, Option.isSome_some]
  · have hempty : (s.takeWhile isAsciiDigit).isEmpty = true := by
      cases s with
      | nil => rfl
      | cons c s =>
        have hc : isAsciiDigit c ≠ true := fun hc => h ⟨c, rfl, hc⟩
        simp [hc]
    simp only [revision?, hempty, if_true, Option.isSome_map, h, false_or]
    rw [isSome_marker?_iff, begins_revision_iff]
    rfl

/-- A text that begins with a number has more than numbers if the number is a revision: a development number
    follows it, as nothing else may. -/
theorem exists_other_of_dropWhile {o : Option (List Char)} {ws : List (List Char)}
    (h : Part ((marker? [("dev", ())] (s.dropWhile isAsciiDigit)).map fun p => (p.1.2, p.2))
      (s.dropWhile isAsciiDigit) o t) (hlabel : label? t = some ws) (hplus : '+' ∉ s)
    (hs : ∃ c ∈ s, isAsciiDigit c = false) : ∃ c ∈ s, isNumberChar c = false := by
  have hsuffix : s.dropWhile isAsciiDigit <:+ s := List.dropWhile_suffix _
  cases h with
  | read h =>
    obtain ⟨p, hp, -⟩ := Option.map_eq_some_iff.mp h
    obtain ⟨c, hc, hother⟩ := exists_other_of_marker? hp
    exact ⟨c, hsuffix.subset hc, hother⟩
  | missing h =>
    have hnil := eq_nil_of_label? hlabel fun hmem => hplus (hsuffix.subset hmem)
    obtain ⟨c, hc, hother⟩ := hs
    rw [List.dropWhile_eq_nil_iff.mp hnil c hc] at hother
    cases hother

/-- What is no revision behind its hyphen is not read as one. -/
theorem not_readsAsRevision_of_revision? (h : revision? ('-' :: s) = none) : ¬ ReadsAsRevision s := by
  have hnone : ¬ (revision? ('-' :: s)).isSome = true := by
    rw [h]
    decide
  rw [isSome_revision?_iff, not_or, not_or] at hnone
  obtain ⟨hdigit, hpost, hr⟩ := hnone
  rintro (h | ⟨h, -⟩ | ⟨h, -⟩)
  · exact hpost h
  · exact hr h
  · exact hdigit h

/-- **A prerelease as it stands**, if it is more than one number: what it is read as. -/
theorem Behind.isRevision_iff {d : Draft} (h : Behind ('-' :: s) d) (hplus : '+' ∉ s)
    (hs : ∃ c ∈ s, isAsciiDigit c = false) :
    (d.phase = none ∧ d.revision.isSome = true ↔ ReadsAsRevision s) ∧
      (d.phase.isSome = true ∨ d.revision.isSome = true ∨ d.development.isSome = true) := by
  obtain ⟨r, t, u, hphase, hrevision, hdevelopment, hlabel⟩ := h
  generalize d.phase = phase at hphase ⊢
  generalize d.revision = revision at hrevision ⊢
  generalize d.development = development at hdevelopment ⊢
  cases hphase with
  | read h =>
    -- The words for a phase and those for a revision are different at the front of a text.
    have hwords := isSome_marker?_iff.mp (Option.isSome_of_eq_some h)
    exact ⟨⟨nofun, fun hreads => absurd hreads (not_readsAsRevision_of_phase hwords)⟩, .inl rfl⟩
  | missing h =>
    have hwords : ¬ ∃ p ∈ phaseWords, Begins p.1 s := by
      intro hwords
      have hsome : (marker? phaseWords ('-' :: s)).isSome = true := isSome_marker?_iff.mpr hwords
      rw [h] at hsome
      cases hsome
    cases hrevision with
    | read h =>
      refine ⟨⟨fun _ => ?_, fun _ => ⟨rfl, rfl⟩⟩, .inr (.inl rfl)⟩
      rcases isSome_revision?_iff.mp (Option.isSome_of_eq_some h) with hdigit | hpost | hr
      · rw [revision?_digit hdigit] at h
        obtain ⟨-, rfl⟩ := Prod.mk.inj (Option.some.inj h)
        exact .inr (.inr ⟨hdigit, exists_other_of_dropWhile hdevelopment hlabel hplus hs⟩)
      · exact .inl hpost
      · exact .inr (.inl ⟨hr, fun hrc => hwords (begins_phase_iff.mpr (by simp [hrc]))⟩)
    | missing h =>
      -- Something is left behind the hyphen, and only a development number can take it.
      have hreads := not_readsAsRevision_of_revision? h
      refine ⟨⟨nofun, fun h => absurd h hreads⟩, .inr (.inr ?_)⟩
      cases hdevelopment with
      | read h => rfl
      | missing h => cases hlabel

/-- A respelled prerelease is a phase. -/
theorem Behind.isSome_phase {d : Draft} (h : Behind ('a' :: t) d) : d.phase.isSome = true := by
  obtain ⟨r, -, -, hphase, -⟩ := h
  generalize d.phase = phase at hphase ⊢
  cases hphase with
  | read h => rfl
  | missing h =>
    have hword : Begins "a" (skipSeparator ('a' :: t)) := ⟨t.map Char.toLower, rfl⟩
    have hsome : (marker? phaseWords ('a' :: t)).isSome = true :=
      isSome_marker?_iff.mpr ⟨("a", .alpha), by decide, hword⟩
    rw [h] at hsome
    cases hsome

/-- What is left of numbers with points between them is all that is no part of them. -/
theorem mem_of_moreNumbers {p : Char → Bool} (s : List Char) :
    ∀ c ∈ s, p c = true ∨ c = '.' ∨ c ∈ (moreNumbers p s).2 := by
  fun_induction moreNumbers p s with
  | case1 r h => exact fun c hc => .inr (.inr hc)
  | case2 r h more u hmore ih =>
    rw [hmore] at ih
    intro c hc
    rcases List.mem_cons.mp hc with rfl | hc
    · exact .inr (.inl rfl)
    rw [← List.takeWhile_append_dropWhile (p := p) (l := r), List.mem_append] at hc
    rcases hc with hc | hc
    · exact .inl (List.all_eq_true.mp List.all_takeWhile c hc)
    · exact ih c hc
  | case3 s h => exact fun c hc => .inr (.inr hc)

theorem mem_of_numbers? {p : Char → Bool} {rows : List (List Char)} (h : numbers? p s = some (rows, r)) :
    ∀ c ∈ s, p c = true ∨ c = '.' ∨ c ∈ r := by
  unfold numbers? at h
  split at h
  · cases h
  · cases h
    intro c hc
    rw [← List.takeWhile_append_dropWhile (p := p) (l := s), List.mem_append] at hc
    rcases hc with hc | hc
    · exact .inl (List.all_eq_true.mp List.all_takeWhile c hc)
    · exact mem_of_moreNumbers _ c hc

/-- **A prerelease is respelled or left as it is.** What is respelled is made of digits and points; what is
    left is no number. -/
theorem markers_prerelease (hplus : '+' ∉ s) :
    (∃ t, markers ('-' :: s) = 'a' :: t ∧ (∀ c ∈ s, isDigit c = true ∨ c = '.') ∧
      ∀ c ∈ t, c ∈ s ∨ c ∈ ".post".toList) ∨
    markers ('-' :: s) = '-' :: s ∧ (s = [] ∨ ∃ c ∈ s, isAsciiDigit c = false) := by
  have hcut : ('-' :: s).takeWhile (· ≠ '+') = '-' :: s := by
    refine List.takeWhile_eq_self_iff.mpr (List.forall_mem_cons.mpr ⟨by decide, fun c hc => ?_⟩)
    exact decide_eq_true fun hplus' => hplus (hplus' ▸ hc)
  have hrest : ∀ {rows : List (List Char)}, numbers? isDigit s = some (rows, []) →
      (∀ c ∈ s, isDigit c = true ∨ c = '.') ∧ ∀ row ∈ rows, row ⊆ s := by
    intro rows h
    refine ⟨fun c hc => ?_, fun row hrow => ((taken_numbers? h).1 row hrow).1.subset⟩
    simpa using mem_of_numbers? h c hc
  unfold markers
  simp only [hcut]
  split
  · next n hn =>
    obtain ⟨hchars, hrows⟩ := hrest hn
    exact .inl ⟨n, rfl, hchars, fun c hc => .inl (hrows n List.mem_cons_self hc)⟩
  · next n k hnk =>
    obtain ⟨hchars, hrows⟩ := hrest hnk
    refine .inl ⟨n ++ ".post".toList ++ k, rfl, hchars, fun c hc => ?_⟩
    rcases List.mem_append.mp hc with hc | hc
    · rcases List.mem_append.mp hc with hc | hc
      · exact .inl (hrows n (by simp) hc)
      · exact .inr hc
    · exact .inl (hrows k (by simp) hc)
  · next hone _ =>
    refine .inr ⟨rfl, ?_⟩
    cases hall : s.all isAsciiDigit with
    | false =>
      obtain ⟨c, hc, hother⟩ := List.all_eq_false.mp hall
      exact .inr ⟨c, hc, by simpa using hother⟩
    | true =>
      by_cases hne : s = []
      · exact .inl hne
      have hdigits : ∀ c ∈ s, isDigit c = true :=
        fun c hc => isDigit_of_isAsciiDigit (List.all_eq_true.mp hall c hc)
      have hnumbers := numbers?_points (p := isDigit) (by decide) (List.cons_ne_nil s [])
        (List.forall_mem_singleton.mpr ⟨hne, hdigits⟩) (endsNumbers_nil _)
      exact absurd (by simpa [points_cons] using hnumbers) (hone s)

/-- What a suffix is respelled as ends the numbers of a release, begins no epoch, and has no blank if the
    suffix has none. -/
theorem ends_markers (hsign : ∀ c, s.head? = some c → c = '-' ∨ c = '+') (hblank : ∀ c ∈ s, isBlank c = false) :
    EndsNumbers isAsciiDigit (markers s) ∧ (markers s).head? ≠ some '!' ∧ ∀ c ∈ markers s, isBlank c = false := by
  have hends : ∀ {c r}, isAsciiDigit c = false → c ≠ '.' → EndsNumbers isAsciiDigit (c :: r) :=
    fun hdigit hpoint => ⟨stops_cons hdigit _, stops_cons (by simpa using hpoint) _⟩
  have hwithin : ∀ {n}, n <:+: s → ∀ c ∈ n, isBlank c = false := fun hn c hc => hblank c (hn.subset hc)
  rcases markers_cases s with heq | ⟨n, hn, heq⟩ | ⟨n, m, hn, hm, heq⟩ <;> rw [heq]
  · have hprefix : s.takeWhile (· ≠ '+') <+: s := List.takeWhile_prefix _
    refine ⟨?_, ?_, hwithin hprefix.isInfix⟩
    · cases s with
      | nil => exact endsNumbers_nil _
      | cons c r =>
        rcases hsign c rfl with rfl | rfl
        · exact hends (by decide) (by decide)
        · exact endsNumbers_nil _
    · cases s with
      | nil => nofun
      | cons c r => rcases hsign c rfl with rfl | rfl <;> simp
  · exact ⟨hends (by decide) (by decide), by simp, List.forall_mem_cons.mpr ⟨rfl, hwithin hn⟩⟩
  · have hpost : ∀ c ∈ ".post".toList, isBlank c = false := by decide
    refine ⟨hends (by decide) (by decide), by simp, List.forall_mem_cons.mpr ⟨rfl, ?_⟩⟩
    exact List.forall_mem_append.mpr ⟨List.forall_mem_append.mpr ⟨hwithin hn, hpost⟩, hwithin hm⟩

/-- **The numbers of a bound are those of the version that it is**, and its suffix is read behind them. -/
theorem ofSemantic_ok {ns : List Nat} (hne : ns ≠ []) (hsign : ∀ c, s.head? = some c → c = '-' ∨ c = '+')
    (hblank : ∀ c ∈ s, isBlank c = false) (h : ofSemantic ns s = .ok x) :
    x.epoch = 0 ∧ x.release = ns ∧ ∃ d, Behind (markers s) d := by
  obtain ⟨hends, hmark, hnotblank⟩ := ends_markers hsign hblank
  unfold ofSemantic at h
  split at h
  · next hall =>
    have hnumeral := isNumeral_of_mem_digits (List.all_eq_true.mp hall)
    unfold parse at h
    split at h
    · cases h
    next d hd =>
    obtain ⟨hepoch, hrelease, hbehind⟩ := (Draft.parse?_iff (by simpa using hne) (fun d hd => (hnumeral d hd).1)
      hends hmark hnotblank).mp hd
    obtain ⟨hepoch', hrelease'⟩ := Draft.version_numbers hnumeral h hepoch hrelease
    rw [Numeral.map_value_digits] at hrelease'
    exact ⟨hepoch', hrelease', d, hbehind⟩
  · cases h

/-! ## Semantic versions -/

/-- The digits of all scripts that stand in a semantic version are those of ASCII. -/
theorem isAsciiDigit_of_isDigit (hc : Semantic.isVersionChar c = true) (h : isDigit c = true) :
    isAsciiDigit c = true := by
  have hrange := Semantic.toNat_of_isVersionChar hc
  rw [isDigit, digitValue?, Option.isSome_map, List.find?_isSome] at h
  obtain ⟨z, hz, h⟩ := h
  simp only [Bool.and_eq_true, decide_eq_true_eq] at h
  have hzeros : ∀ z ∈ digitZeros, z = 48 ∨ 123 ≤ z := by decide
  rcases hzeros z hz with rfl | hlow
  · have hbounds : 48 ≤ c.toNat ∧ c.toNat ≤ 57 := by omega
    simp only [isAsciiDigit, Bool.and_eq_true, decide_eq_true_eq]
    exact hbounds
  · omega

namespace Semantic

variable {v : Semantic}

/-- The release of a semantic version: its numbers. -/
def core (v : Semantic) : Semantic :=
  { v with
    prerelease := []
    build := []
    prerelease_identifiers := identifiers_nil
    build_identifiers := identifiers_nil }

theorem core_text_prefix (v : Semantic) : v.core.text <+: v.text := by
  have hsuffix : v.core.suffix = [] := rfl
  rw [text, hsuffix, List.append_nil]
  exact List.prefix_append (points v.numbers) v.suffix

theorem core_reading (h : ¬ HasLongRun v.text) :
    v.core.reading = .ok (ofRelease (v.numbers.map Numeral.value)) := by
  have hnone : markers (marked '-' v.core.prerelease) = [] := rfl
  rw [reading, hnone, List.append_nil]
  exact parse_points (List.cons_ne_nil _ _) fun d hd => isNumeral_of_mem h hd

/-- The characters of a prerelease. -/
theorem isVersionChar_of_mem_prerelease (hc : c ∈ points v.prerelease) : isVersionChar c = true := by
  refine v.isVersionChar_of_mem (List.mem_append_right _ (List.mem_append_left _ ?_))
  unfold marked
  split
  · next hnil =>
    rw [hnil] at hc
    cases hc
  · exact List.mem_cons_of_mem _ hc

theorem plus_not_mem_prerelease : '+' ∉ points v.prerelease := by
  intro h
  rcases mem_points_cases h with h | ⟨w, hw, h⟩
  · cases h
  · exact absurd ((v.prerelease_identifiers w hw).chars _ h) (by decide)

theorem points_prerelease_ne_nil (h : v.prerelease ≠ []) : points v.prerelease ≠ [] := by
  obtain ⟨w, ws, hws⟩ := List.exists_cons_of_ne_nil h
  have hw : w ≠ [] := (v.prerelease_identifiers w (hws ▸ List.mem_cons_self)).ne_nil
  rw [hws, points_cons]
  exact List.append_ne_nil_of_left_ne_nil hw _

/-- **What a prerelease is read as**: a revision or not, and one of the three markers in any case. -/
theorem isRevision_iff (hpre : v.prerelease ≠ []) (hrun : ¬ HasLongRun v.text) {x : Version}
    (hx : v.reading = .ok x) : (x.epoch = 0 ∧ x.release = v.numbers.map Numeral.value) ∧
      (x.IsRevision ↔ ReadsAsRevision (points v.prerelease)) ∧
      (x.phase.isSome = true ∨ x.revision.isSome = true ∨ x.development.isSome = true) := by
  have hmarked : marked '-' v.prerelease = '-' :: points v.prerelease := if_neg hpre
  rw [reading, hmarked, parse] at hx
  split at hx
  · cases hx
  next d hd =>
  obtain ⟨-, -, hphase, hrevision, hdevelopment⟩ := Draft.version_ok hx
  have hnumbers := Draft.version_numbers (fun n hn => isNumeral_of_mem hrun hn) hx
  have hblank : ∀ c ∈ points v.prerelease, isBlank c = false :=
    fun c hc => isBlank_of_isVersionChar (isVersionChar_of_mem_prerelease hc)
  rcases markers_prerelease (s := points v.prerelease) plus_not_mem_prerelease with
    ⟨t, ht, hchars, hmem⟩ | ⟨hkept, hother⟩
  · -- What is respelled is a phase, and has numbers alone.
    rw [ht] at hd
    have htblank : ∀ c ∈ 'a' :: t, isBlank c = false := by
      have hpost : ".post".toList.all (fun c => !isBlank c) = true := by decide
      refine List.forall_mem_cons.mpr ⟨rfl, fun c hc => (hmem c hc).elim (hblank c) fun hc => ?_⟩
      simpa using List.all_eq_true.mp hpost c hc
    obtain ⟨hepoch, hrelease, hbehind⟩ := (Draft.parse?_iff v.numbers_ne_nil v.digits_of_mem
      ⟨stops_cons rfl t, stops_cons rfl t⟩ (by simp) htblank).mp hd
    have hsome : x.phase.isSome = true := hphase.trans hbehind.isSome_phase
    refine ⟨hnumbers hepoch hrelease, ⟨fun hrev => ?_, fun hreads => ?_⟩, .inl hsome⟩
    · rw [hrev.1] at hsome
      cases hsome
    · obtain ⟨c, hc, hno⟩ := hreads.exists_other
      rcases hchars c hc with hdigit | rfl
      · rw [isNumberChar, isAsciiDigit_of_isDigit (isVersionChar_of_mem_prerelease hc) hdigit] at hno
        cases hno
      · cases hno
  · rw [hkept] at hd
    have hminus : ∀ c ∈ '-' :: points v.prerelease, isBlank c = false :=
      List.forall_mem_cons.mpr ⟨rfl, hblank⟩
    obtain ⟨hepoch, hrelease, hbehind⟩ := (Draft.parse?_iff v.numbers_ne_nil v.digits_of_mem
      ⟨stops_cons rfl _, stops_cons rfl _⟩ (by simp) hminus).mp hd
    obtain ⟨hiff, hsome⟩ := hbehind.isRevision_iff plus_not_mem_prerelease
      (hother.resolve_left (points_prerelease_ne_nil hpre))
    refine ⟨hnumbers hepoch hrelease, ?_, by rwa [hphase, hrevision, hdevelopment]⟩
    rw [← hiff, IsRevision, hrevision, ← Option.isNone_iff_eq_none, ← Option.isNone_iff_eq_none,
      ← Option.not_isSome, ← Option.not_isSome, hphase]

end Semantic

end LockAudit.Version
