import LockAudit.Proofs.Version.Prerelease

/-!
# `LockAudit.Proofs.Version.Numbered` — prereleases with a number

This module is about prereleases of five spellings: `N`, `N.M`, `alpha.N`, `beta.N` and `rc.N` (`Stage`).
Each of them is read as a phase before the release, with the number that it has; the second number
of `N.M` is read as a revision of that phase. So here it can be said exactly which version a text is
(`parse_stage`), whatever zeros its numbers begin with.

* `Row`, `Triple`, `Stage` — the texts.
* `Stage.markers_text` — how a stage is respelled; `Stage.behind` — what is read of that.
* `parse_stage`, `parseInstalled_stage` — the version that a triple and a stage are.
* `order_staged` — two such versions are compared by their numbers, then by their phases, then by their
  revisions.
-/

namespace LockAudit

open LockAudit.Text

/-- The word for a phase in a prerelease. -/
def Phase.word : Phase → String
  | .alpha => "alpha"
  | .beta => "beta"
  | .candidate => "rc"

namespace Version

variable {ds : List (List Char)} {r : List Char}

/-! ## Texts -/

instance (d : List Char) : Decidable (IsNumeral d) := inferInstanceAs (Decidable ((_ ∧ _) ∧ _))

/-- A number as it is written. -/
def Row := { d : List Char // IsNumeral d }

namespace Row

/-- The number that is written. -/
def value (d : Row) : Nat := Numeral.value d.1

theorem ascii (d : Row) : ∀ c ∈ d.1, isAsciiDigit c = true := d.2.1.2

/-- A row begins with a digit. -/
theorem exists_head (d : Row) : ∃ c r, d.1 = c :: r ∧ isAsciiDigit c = true := by
  obtain ⟨c, r, hcr⟩ := List.exists_cons_of_ne_nil d.2.1.1
  exact ⟨c, r, hcr, d.ascii c (hcr ▸ List.mem_cons_self)⟩

theorem not_blank (d : Row) : ∀ c ∈ d.1, isBlank c = false := fun c hc => isBlank_of_isAsciiDigit (d.ascii c hc)

/-- A row is taken to its end. -/
theorem takeWhile_append (d : Row) (hr : Stops isAsciiDigit r) : (d.1 ++ r).takeWhile isAsciiDigit = d.1 :=
  takeWhile_append_stop d.ascii hr

theorem dropWhile_append (d : Row) (hr : Stops isAsciiDigit r) : (d.1 ++ r).dropWhile isAsciiDigit = r :=
  dropWhile_append_stop d.ascii hr

/-- No separator stands before a row. -/
theorem skipSeparator_append (d : Row) : skipSeparator (d.1 ++ r) = d.1 ++ r := by
  obtain ⟨c, s, hcs, hc⟩ := d.exists_head
  have hsep : isSeparator c = false := by
    simpa using of_isAsciiDigit hc (fun c => !isSeparator c) (by decide)
  rw [hcs, List.cons_append, skipSeparator, hsep]
  rfl

end Row

/-- The three numbers of a release. -/
structure Triple where
  major : Row
  minor : Row
  patch : Row

/-- The numbers as they are written. -/
def Triple.rows (t : Triple) : List (List Char) := [t.major.1, t.minor.1, t.patch.1]

/-- The numbers. -/
def Triple.numbers (t : Triple) : List Nat := [t.major.value, t.minor.value, t.patch.value]

theorem Triple.rows_ne_nil (t : Triple) : t.rows ≠ [] := List.cons_ne_nil _ _

theorem Triple.isNumeral (t : Triple) : ∀ d ∈ t.rows, IsNumeral d := by
  simp only [rows, List.mem_cons, List.not_mem_nil, or_false]
  rintro d (rfl | rfl | rfl)
  · exact t.major.2
  · exact t.minor.2
  · exact t.patch.2

theorem Triple.digits_of_mem (t : Triple) : ∀ d ∈ t.rows, d ≠ [] ∧ ∀ c ∈ d, isAsciiDigit c = true :=
  fun d hd => (t.isNumeral d hd).1

/-- A prerelease of one or two numbers, or of a word for a phase and a number. -/
inductive Stage
  | numbers (n : Row) (m : Option Row)
  | word (p : Phase) (n : Row)

namespace Stage

/-- How a stage is written, with the hyphen before it. -/
def text : Stage → List Char
  | numbers n none => '-' :: n.1
  | numbers n (some m) => '-' :: (n.1 ++ '.' :: m.1)
  | word p n => '-' :: (p.word.toList ++ '.' :: n.1)

/-- The phase that a stage is read as. Numbers alone are an alpha. -/
def phase : Stage → Phase × Row
  | numbers n _ => (.alpha, n)
  | word p n => (p, n)

/-- The revision of that phase: the second number, if there is one. -/
def revision : Stage → Option Row
  | numbers _ m => m
  | word _ _ => none

/-! ## Reading -/

variable (s : Stage)

theorem exists_tail : ∃ t, s.text = '-' :: t := by
  match s with
  | numbers n none => exact ⟨_, rfl⟩
  | numbers n (some m) => exact ⟨_, rfl⟩
  | word p n => exact ⟨_, rfl⟩

/-- A stage is made of identifiers and points. -/
theorem char : ∀ c ∈ s.text, (isIdentifierChar c || c == '.') = true := by
  have hrow : ∀ d : Row, ∀ c ∈ d.1, (isIdentifierChar c || c == '.') = true := by
    intro d c hc
    simp [isIdentifierChar, isLabelChar, d.ascii c hc]
  have hword : ∀ p : Phase, ∀ c ∈ p.word.toList, (isIdentifierChar c || c == '.') = true := by
    intro p
    cases p <;> decide
  cases s with
  | numbers n m =>
    cases m with
    | none => exact List.forall_mem_cons.mpr ⟨rfl, hrow n⟩
    | some m =>
      refine List.forall_mem_cons.mpr ⟨rfl, List.forall_mem_append.mpr ⟨hrow n, ?_⟩⟩
      exact List.forall_mem_cons.mpr ⟨rfl, hrow m⟩
  | word p n =>
    refine List.forall_mem_cons.mpr ⟨rfl, List.forall_mem_append.mpr ⟨hword p, ?_⟩⟩
    exact List.forall_mem_cons.mpr ⟨rfl, hrow n⟩

theorem not_blank : ∀ c ∈ s.text, isBlank c = false := by
  intro c hc
  refine Semantic.isBlank_of_isVersionChar ?_
  rw [Semantic.isVersionChar, s.char c hc]
  rfl

theorem plus_not_mem : '+' ∉ s.text := fun h => absurd (s.char _ h) (by decide)

/-- What a stage is respelled as. -/
def respelled : Stage → List Char
  | numbers n none => 'a' :: n.1
  | numbers n (some m) => 'a' :: n.1 ++ ".post".toList ++ m.1
  | word p n => '-' :: (p.word.toList ++ '.' :: n.1)

/-- **How a stage is respelled**: numbers alone become an alpha, and a word stays. -/
theorem markers_text : markers s.text = s.respelled := by
  have hcut : s.text.takeWhile (· ≠ '+') = s.text := by
    refine List.takeWhile_eq_self_iff.mpr fun c hc => decide_eq_true ?_
    rintro rfl
    exact s.plus_not_mem hc
  have hrow : ∀ d : Row, d.1 ≠ [] ∧ ∀ c ∈ d.1, isDigit c = true :=
    fun d => ⟨d.2.1.1, fun c hc => isDigit_of_isAsciiDigit (d.ascii c hc)⟩
  have hends := endsNumbers_nil isDigit
  unfold markers
  simp only [hcut]
  match s with
  | numbers n none =>
    have hn : numbers? isDigit n.1 = some ([n.1], []) := by
      have h := numbers?_points (by decide) (List.cons_ne_nil n.1 []) (List.forall_mem_singleton.mpr (hrow n)) hends
      simpa [points_cons] using h
    simp only [text, hn]
    rfl
  | numbers n (some m) =>
    have hn : numbers? isDigit (n.1 ++ '.' :: m.1) = some ([n.1, m.1], []) := by
      have h := numbers?_points (by decide) (List.cons_ne_nil n.1 [m.1])
        (List.forall_mem_cons.mpr ⟨hrow n, List.forall_mem_singleton.mpr (hrow m)⟩) hends
      simpa [points_cons] using h
    simp only [text, hn]
    rfl
  | word p n =>
    have hn : numbers? isDigit (p.word.toList ++ '.' :: n.1) = none := by
      cases p <;> rfl
    simp only [text, hn]
    rfl

/-- A marker is read as its word and the number behind it. -/
theorem marker?_row {α : Type} {ws : List (String × α)} {u t : List Char} {a : α} {n : Row}
    (hword : firstWord? ws (skipSeparator u) = some (a, t)) (ht : skipSeparator t = n.1 ++ r)
    (hr : Stops isAsciiDigit r) : marker? ws u = some ((a, n.1), r) := by
  rw [marker?, hword, Option.map_some]
  simp only [ht, n.takeWhile_append hr, n.dropWhile_append hr]

/-- The letter that numbers alone are respelled with. -/
theorem firstWord?_alpha (n : Row) : firstWord? phaseWords ('a' :: (n.1 ++ r)) = some (.alpha, n.1 ++ r) := by
  obtain ⟨c, s, hcs, hc⟩ := n.exists_head
  have hlow : c.toLower ≠ 'l' := by
    simpa using of_isAsciiDigit hc (fun c => c.toLower != 'l') (by decide)
  rw [hcs]
  simp [firstWord?, phaseWords, afterWord?, hlow]

theorem firstWord?_word (p : Phase) (t : List Char) :
    firstWord? phaseWords (p.word.toList ++ '.' :: t) = some (p, '.' :: t) := by
  cases p <;> simp [firstWord?, phaseWords, afterWord?, Phase.word]

theorem stops_post (m : List Char) : Stops isAsciiDigit (".post".toList ++ m) := stops_cons rfl _

/-- The revision that a second number is respelled as. -/
theorem revision?_post (m : Row) : revision? (".post".toList ++ m.1) = some (m.1, []) := by
  have hmarker : marker? revisionWords (".post".toList ++ m.1) = some (((), m.1), []) := by
    refine marker?_row (t := m.1 ++ []) ?_ m.skipSeparator_append (stops_nil _)
    rw [List.append_nil]
    rfl
  unfold revision?
  split
  · next h => exact absurd (List.cons.inj h).1 (by decide)
  · rw [hmarker]
    rfl

/-- **What is read of a stage behind a release**: a phase, perhaps a revision, and nothing else. -/
theorem behind : Behind s.respelled
    ⟨[], ds, some (s.phase.1, s.phase.2.1), s.revision.map Subtype.val, none, []⟩ := by
  have hnorevision : revision? [] = none := rfl
  have hdevelopment : Part ((marker? [("dev", ())] []).map fun p => (p.1.2, p.2)) [] none [] := .missing rfl
  match s with
  | numbers n none =>
    have hphase : marker? phaseWords ('a' :: (n.1 ++ [])) = some ((.alpha, n.1), []) :=
      marker?_row (firstWord?_alpha n) n.skipSeparator_append (stops_nil _)
    rw [List.append_nil] at hphase
    exact ⟨[], [], [], .read hphase, .missing hnorevision, hdevelopment, rfl⟩
  | numbers n (some m) =>
    have hphase : marker? phaseWords ('a' :: (n.1 ++ (".post".toList ++ m.1))) =
        some ((.alpha, n.1), ".post".toList ++ m.1) :=
      marker?_row (firstWord?_alpha n) n.skipSeparator_append (stops_post m.1)
    rw [← List.append_assoc] at hphase
    exact ⟨_, [], [], .read hphase, .read (revision?_post m), hdevelopment, rfl⟩
  | word p n =>
    have hphase : marker? phaseWords ('-' :: (p.word.toList ++ '.' :: n.1)) = some ((p, n.1), []) :=
      marker?_row (t := '.' :: n.1) (firstWord?_word p n.1) (List.append_nil _).symm (stops_nil _)
    exact ⟨[], [], [], .read hphase, .missing hnorevision, hdevelopment, rfl⟩

theorem respelled_head : s.respelled.head? = some 'a' ∨ s.respelled.head? = some '-' := by
  match s with
  | numbers n none => exact .inl rfl
  | numbers n (some m) => exact .inl rfl
  | word p n => exact .inr rfl

theorem respelled_not_blank : ∀ c ∈ s.respelled, isBlank c = false := by
  have hpost : ∀ c ∈ ".post".toList, isBlank c = false := by decide
  match s with
  | numbers n none => exact List.forall_mem_cons.mpr ⟨rfl, n.not_blank⟩
  | numbers n (some m) =>
    have hfront : ∀ c ∈ 'a' :: n.1, isBlank c = false := List.forall_mem_cons.mpr ⟨rfl, n.not_blank⟩
    exact List.forall_mem_append.mpr ⟨List.forall_mem_append.mpr ⟨hfront, hpost⟩, m.not_blank⟩
  | word p n => exact (word p n).not_blank

end Stage

/-- A release that may have a stage. -/
def staged (numbers : List Nat) (s : Option Stage) : Version :=
  ⟨0, numbers, s.map fun s => (s.phase.1, s.phase.2.value), (s.bind Stage.revision).map Row.value, none, []⟩

/-- How a stage is written behind a release, if there is one. -/
def stageText (s : Option Stage) : List Char := s.elim [] Stage.text

/-- **Numbers and a stage are read as the version that they are.** -/
theorem parse_stage (hne : ds ≠ []) (h : ∀ d ∈ ds, IsNumeral d) (s : Option Stage) :
    parse (points ds ++ markers (stageText s)) = .ok (staged (ds.map Numeral.value) s) := by
  -- The release alone is read elsewhere; a stage is respelled, and then read part by part.
  cases s with
  | none =>
    have hmarkers : markers (stageText none) = [] := rfl
    rw [hmarkers, List.append_nil]
    exact parse_points hne h
  | some s =>
    have hmarkers : markers (stageText (some s)) = s.respelled := s.markers_text
    have hhead := s.respelled_head
    have hends : EndsNumbers isAsciiDigit s.respelled := by
      constructor
      · intro c hc
        rw [hc] at hhead
        rcases hhead with h | h <;> (cases h; rfl)
      · intro c hc
        rw [hc] at hhead
        rcases hhead with h | h <;> (cases h; rfl)
    have hmark : s.respelled.head? ≠ some '!' := by
      intro hc
      rw [hc] at hhead
      rcases hhead with h | h <;> cases h
    have hparse := (Draft.parse?_iff hne (fun d hd => (h d hd).1) hends hmark s.respelled_not_blank).mpr
      ⟨rfl, rfl, s.behind⟩
    have hphase : number s.phase.2.1 = .ok s.phase.2.value := number_of_length_le s.phase.2.2.2
    have hrevision : number? (s.revision.map Subtype.val) = .ok (s.revision.map Row.value) := by
      cases s.revision with
      | none => rfl
      | some m =>
        show some <$> number m.1 = _
        rw [number_of_length_le m.2.2]
        rfl
    rw [hmarkers, parse, hparse]
    show Draft.version _ = _
    unfold Draft.version
    rw [mapM_number h]
    simp only [hphase, hrevision]
    rfl

theorem isVersionChar_staged {t : Triple} {s : Option Stage} {c : Char} (hc : c ∈ points t.rows ++ stageText s) :
    Semantic.isVersionChar c = true := by
  rcases List.mem_append.mp hc with hc | hc
  · rcases mem_points t.digits_of_mem hc with hc | rfl
    · exact Semantic.isVersionChar_of_isAsciiDigit hc
    · rfl
  · cases s with
    | none => cases hc
    | some s =>
      rw [Semantic.isVersionChar, s.char c hc]
      rfl

theorem not_blank_stageText (s : Option Stage) : ∀ c ∈ stageText s, isBlank c = false := by
  cases s with
  | none => exact List.forall_mem_nil _
  | some s => exact s.not_blank

theorem sign_of_head_stageText (s : Option Stage) {c : Char} (hc : (stageText s).head? = some c) :
    c = '-' ∨ c = '+' := by
  cases s with
  | none => cases hc
  | some s =>
    obtain ⟨u, hu⟩ := s.exists_tail
    rw [show stageText (some s) = s.text from rfl, hu] at hc
    exact .inl (Option.some.inj hc).symm

/-- **An installed version with a stage is read as that version.** -/
theorem parseInstalled_stage (t : Triple) (s : Option Stage) :
    parseInstalled (points t.rows ++ stageText s) = .ok (staged t.numbers s) := by
  rw [parseInstalled_points_append t.rows_ne_nil t.digits_of_mem (fun _ hc => sign_of_head_stageText s hc)
    (not_blank_stageText s), parse_stage t.rows_ne_nil t.isNumeral]
  rfl

/-! ## Comparing -/

/-- The place of a stage in the order: a release without one comes after all stages. -/
def stageKey (s : Option Stage) : List (List Nat) := ((staged [] s).key).drop 2

/-- **Versions with stages** are compared by their numbers, and then by their stages. -/
theorem order_staged {ns ms : List Nat} (h : ns.length = ms.length) (s u : Option Stage) :
    (staged ns s).order (staged ms u) = (compare ns ms).then (compare (stageKey s) (stageKey u)) := by
  have hkey : ∀ ks v, (staged ks v).key = [0] :: significant ks :: stageKey v := fun _ _ => rfl
  have hfirst : compare [0] [0] = .eq := by decide
  unfold order
  rw [hkey, hkey, List.compare_cons_cons, hfirst, Ordering.eq_then,
    List.compare_cons_cons (x := significant ns), compare_significant h]

/-- Every stage comes before the release. -/
theorem compare_stageKey_none (s : Stage) : compare (stageKey (some s)) (stageKey none) = .lt := by
  have hword : ∀ p : Phase, ∀ n, compare (stageKey (some (.word p n))) (stageKey none) = .lt := by
    intro p n
    cases p <;> rfl
  match s with
  | .numbers n none => rfl
  | .numbers n (some m) => rfl
  | .word p n => exact hword p n

end Version

end LockAudit
