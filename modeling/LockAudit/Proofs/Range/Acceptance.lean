import LockAudit.Proofs.Range.Comparison
import LockAudit.Proofs.Range.Refusals
import LockAudit.Proofs.Version.Prerelease

/-!
# `LockAudit.Proofs.Range.Acceptance` — what a range is made of, if it matches anything

There are two grammars here, written with the same words. In the strict one a suffix stands behind three
components only and has no empty part, an operator stands before a partial, and nothing but blanks lies
between them. The loose one is what the reader takes: it drops the suffix of a partial with fewer than three
numbers unread, it knows an operator without a partial, and it joins every operator to what follows it. An
alternative outside the loose grammar is never read (`looselyWritten_of_constraints`), so a range of such
alternatives holds no version (`satisfies_unreadable`). The strict grammar is too narrow for that
(`satisfies_not_strictlyWritten`).

## Contents
- **Layouts.** `Layout.parts`: the components and the suffix of a text are determined, so that `IsPartial`
  can be decided.
- **Grammars.** `Strict` and `Loose` suffixes, `IsComparator`, `IsList`, `IsHyphen`; `StrictlyWritten`,
  `LooselyWritten`.
- **Reading.** `not_lower_hyphen`: a prerelease behind three numbers is not empty.
-/

namespace LockAudit.Range

open LockAudit.Text Version Spelled

variable {s a w t suffix : List Char} {ws : List (List Char)} {c : Char}

/-! ## Layouts -/

/-- A text without the `v` that may stand in front. -/
def bare : List Char → List Char
  | 'v' :: r => r
  | r => r

/-- A character that ends the components of a partial. -/
def isMark (c : Char) : Bool := c == '-' || c == '+'

/-- The components of a partial, as far as there are any. -/
def front (s : List Char) : List (List Char) := split (· == '.') ((bare s).takeWhile fun c => !isMark c)

/-- The suffix of a partial. -/
def back (s : List Char) : List Char := (bare s).dropWhile fun c => !isMark c

/-- No component has a point, a mark or a `v`. -/
theorem IsComponent.char (h : IsComponent w) (hc : c ∈ w) : (c == '.') = false ∧ isMark c = false ∧ c ≠ 'v' := by
  have hdigit : isDigit c = true → (c == '.') = false ∧ isMark c = false ∧ c ≠ 'v' := by
    intro hdigit
    have hne : ∀ d, isDigit d = false → c ≠ d := by
      rintro d hd rfl
      rw [hdigit] at hd
      cases hd
    have hpoint := hne '.' (by decide)
    have hminus := hne '-' (by decide)
    have hplus := hne '+' (by decide)
    exact ⟨by simpa using hpoint, by simp [isMark, hminus, hplus], hne 'v' (by decide)⟩
  rcases h with hopen | hrow
  · simp only [IsOpen, List.mem_cons, List.not_mem_nil, or_false] at hopen
    rcases hopen with rfl | rfl | rfl <;> (rw [List.mem_singleton.mp hc]; decide)
  · exact hdigit (hrow.2 c hc)

theorem IsComponent.ne_nil (h : IsComponent w) : w ≠ [] := by
  rcases h with hopen | hrow
  · rintro rfl
    exact absurd hopen (by decide)
  · exact hrow.1

/-- Components with points between them are cut at the points. -/
theorem split_points (hne : ws ≠ []) (h : ∀ w ∈ ws, IsComponent w) : split (· == '.') (points ws) = ws := by
  induction ws with
  | nil => exact absurd rfl hne
  | cons w ws ih =>
    have hw : ∀ c ∈ w, (c == '.') = false := fun c hc => ((h w List.mem_cons_self).char hc).1
    cases ws with
    | nil =>
      rw [points_cons, List.flatMap_nil, List.append_nil]
      exact split_of_all hw
    | cons x ws =>
      rw [points_cons, List.flatMap_cons, List.cons_append, ← points_cons, split_append_cons hw rfl,
        ih (List.cons_ne_nil x ws) fun y hy => h y (List.mem_cons_of_mem w hy)]

/-- **A text has one layout.** -/
theorem Layout.parts (h : Layout s ws suffix) : ws = front s ∧ suffix = back s := by
  have hbare : bare s = points ws ++ suffix := by
    rcases h.text with rfl | rfl
    · obtain ⟨w, ws, rfl⟩ := List.exists_cons_of_ne_nil h.ne_nil
      have hw := h.component w List.mem_cons_self
      obtain ⟨c, w, rfl⟩ := List.exists_cons_of_ne_nil hw.ne_nil
      have hc : c ≠ 'v' := (hw.char List.mem_cons_self).2.2
      rw [points_cons]
      unfold bare
      split
      · next r hr => exact absurd (List.cons.inj hr).1 hc
      · rfl
    · rfl
  have hrow : ∀ c ∈ points ws, (!isMark c) = true := by
    intro c hc
    rcases mem_points_cases hc with rfl | ⟨w, hw, hc⟩
    · decide
    · rw [((h.component w hw).char hc).2.1]
      rfl
  have hstop : Stops (fun c => !isMark c) suffix := by
    intro c hc
    rcases sign_of_isSuffix h.suffix c hc with rfl | rfl <;> decide
  unfold front back
  rw [hbare, takeWhile_append_stop hrow hstop, dropWhile_append_stop hrow hstop]
  exact ⟨(split_points h.ne_nil h.component).symm, rfl⟩

instance (s : List Char) (ws : List (List Char)) (suffix : List Char) : Decidable (Layout s ws suffix) :=
  decidable_of_iff ((s = points ws ++ suffix ∨ s = 'v' :: (points ws ++ suffix)) ∧ ws ≠ [] ∧ ws.length ≤ 3 ∧
      (∀ w ∈ ws, IsComponent w) ∧ isSuffix suffix = true)
    ⟨fun ⟨ht, hne, hlen, hall, hs⟩ => ⟨ht, hne, hlen, hall, hs⟩,
      fun h => ⟨h.text, h.ne_nil, h.length_le, h.component, h.suffix⟩⟩

/-! ## Grammars -/

/-- A partial as it is written, with a condition on its components and its suffix. -/
def IsPartial (q : List (List Char) → List Char → Prop) (s : List Char) : Prop :=
  ∃ ws suffix, Layout s ws suffix ∧ q ws suffix

instance (q : List (List Char) → List Char → Prop) [∀ ws suffix, Decidable (q ws suffix)] (s : List Char) :
    Decidable (IsPartial q s) :=
  decidable_of_iff (Layout s (front s) (back s) ∧ q (front s) (back s))
    ⟨fun h => ⟨_, _, h⟩, fun ⟨ws, suffix, hlayout, hq⟩ => by
      obtain ⟨rfl, rfl⟩ := hlayout.parts
      exact ⟨hlayout, hq⟩⟩

/-- The prerelease at the front of a suffix, with its sign. -/
def prereleaseOf (suffix : List Char) : List Char := suffix.takeWhile (· ≠ '+')

/-- The build at the end of a suffix, with its sign. -/
def buildOf (suffix : List Char) : List Char := suffix.dropWhile (· ≠ '+')

/-- A suffix stands behind three components only, and neither of its parts is empty. -/
def Strict (ws : List (List Char)) (suffix : List Char) : Prop :=
  suffix = [] ∨ ws.length = 3 ∧ prereleaseOf suffix ≠ ['-'] ∧ buildOf suffix ≠ ['+']

/-- Behind three numbers a prerelease is not empty. -/
def Loose (ws : List (List Char)) (suffix : List Char) : Prop :=
  (ws.length = 3 ∧ ∀ w ∈ ws, ¬ IsOpen w) → prereleaseOf suffix ≠ ['-']

instance (ws : List (List Char)) (suffix : List Char) : Decidable (Strict ws suffix) :=
  inferInstanceAs (Decidable (_ ∨ _))

instance (ws : List (List Char)) (suffix : List Char) : Decidable (Loose ws suffix) :=
  inferInstanceAs (Decidable (_ → _))

/-- All signs. -/
def signs : List Sign :=
  [.none, .equal, .less, .lessEqual, .greater, .greaterEqual, .caret, .tilde, .tildeGreater]

/-- A sign, or none, and behind it a text of which something is so. -/
def IsComparator (p : List Char → Prop) (t : List Char) : Prop :=
  ∃ sign ∈ signs, sign.text <+: t ∧ p (t.drop sign.text.length)

/-- Two such texts as the ends of a hyphen range, word by word. -/
def IsHyphen (p : List Char → Prop) (ws : List (List Char)) : Prop :=
  ∃ low ∈ ws, ∃ high ∈ ws, ws = [low, ['-'], high] ∧ p low ∧ p high

/-- A list of comparators, word by word. A sign may be a word of its own. -/
def IsList (p : List Char → Prop) : List (List Char) → Prop
  | [] => True
  | [t] => IsComparator p t
  | t :: u :: ts => (IsComparator p t ∧ IsList p (u :: ts)) ∨ ((∃ sign ∈ signs, t = sign.text) ∧ p u ∧ IsList p ts)

section
variable (p : List Char → Prop) [DecidablePred p]

instance (t : List Char) : Decidable (IsComparator p t) := inferInstanceAs (Decidable (∃ _ ∈ _, _))

instance (ws : List (List Char)) : Decidable (IsHyphen p ws) := inferInstanceAs (Decidable (∃ _ ∈ _, _))

instance isListDecidable : (ws : List (List Char)) → Decidable (IsList p ws)
  | [] => isTrue trivial
  | [t] => inferInstanceAs (Decidable (IsComparator p t))
  | t :: u :: ts =>
    have := isListDecidable (u :: ts)
    have := isListDecidable ts
    inferInstanceAs (Decidable
      ((IsComparator p t ∧ IsList p (u :: ts)) ∨ ((∃ sign ∈ signs, t = sign.text) ∧ p u ∧ IsList p ts)))

end

/-- An alternative in the strict grammar. -/
def StrictlyWritten (a : List Char) : Prop :=
  IsHyphen (IsPartial Strict) (words a) ∨ IsList (IsPartial Strict) (words a)

instance (a : List Char) : Decidable (StrictlyWritten a) := inferInstanceAs (Decidable (_ ∨ _))

/-- An alternative in the loose grammar. -/
def LooselyWritten (a : List Char) : Prop :=
  IsHyphen (IsPartial Loose) (words a) ∨
    ∀ t ∈ words (joinOperators a), IsComparator (fun r => r = [] ∨ IsPartial Loose r) t

instance (a : List Char) : Decidable (LooselyWritten a) := inferInstanceAs (Decidable (_ ∨ _))

/-! ## Reading -/

/-- Nothing that is read behind a release leaves a hyphen alone. -/
theorem not_behind_hyphen {d : Draft} : ¬ Behind ['-'] d := by
  rintro ⟨r, t, u, hphase, hrevision, hdevelopment, hlabel⟩
  have hnophase : marker? phaseWords ['-'] = none := by decide
  have hnorevision : revision? ['-'] = none := by decide
  have hnodevelopment : marker? [("dev", ())] ['-'] = none := by decide
  generalize d.phase = phase at hphase
  generalize d.revision = revision at hrevision
  generalize d.development = development at hdevelopment
  cases hphase with
  | read h => rw [hnophase] at h; cases h
  | missing =>
    cases hrevision with
    | read h => rw [hnorevision] at h; cases h
    | missing =>
      cases hdevelopment with
      | read h => rw [hnodevelopment] at h; cases h
      | missing => cases hlabel

/-- **A prerelease behind three numbers is not empty.** -/
theorem not_lower_hyphen {p : Partial} {x : Version} (hsuffix : isSuffix p.suffix = true)
    (hblank : ∀ c ∈ p.suffix, isBlank c = false) (hprerelease : prereleaseOf p.suffix = ['-']) :
    p.lower ≠ .ok x := by
  intro h
  -- A hyphen alone is not respelled, and the other grammar has nothing that begins with one and ends there.
  have hmarkers : markers p.suffix = ['-'] := by
    unfold markers
    rw [show p.suffix.takeWhile (· ≠ '+') = ['-'] from hprerelease]
    rfl
  obtain ⟨-, -, d, hbehind⟩ := ofSemantic_ok padded_ne_nil (sign_of_isSuffix hsuffix) hblank h
  rw [hmarkers] at hbehind
  exact not_behind_hyphen hbehind

/-- A partial whose least version can be read is loosely written. -/
theorem isPartial_of_parse {p : Partial} (hblank : ∀ c ∈ s, isBlank c = false) (h : Partial.parse s = .ok p)
    (hlower : p.numbers.length = 3 → ∃ x, p.lower = .ok x) : s = [] ∨ IsPartial Loose s := by
  have htight : trim s = s := (tight_of_all hblank).trim
  rcases Partial.parse_cases s with ⟨hnil, -⟩ | hparse | ⟨ws, suffix, hlayout, hparse⟩
  · exact .inl (htight.symm.trans hnil)
  · rw [hparse] at h
    cases h
  · rw [htight] at hlayout
    refine .inr ⟨ws, suffix, hlayout, ?_⟩
    rintro ⟨hlen, hclosed⟩ hprerelease
    rw [hparse] at h
    obtain ⟨ns, hns, h⟩ := exists_of_bind_ok h
    cases h
    -- Without an open component all three components are numbers, so the suffix is kept.
    obtain ⟨rows, rest, rfl, -, hrest, rfl⟩ := leadingNumbers_ok hlayout.component hns
    have hnil : rest = [] := by
      cases rest with
      | nil => rfl
      | cons w rest => exact absurd (hrest w rfl) (hclosed w (by simp))
    rw [hnil, List.append_nil] at hlen
    have hthree : (rows.map Numeral.value).length = 3 := (List.length_map _).trans hlen
    obtain ⟨x, hx⟩ := hlower hthree
    rw [if_pos hthree] at hx
    have hsuffixBlank : ∀ c ∈ suffix, isBlank c = false :=
      fun c hc => hblank c (hlayout.infix_suffix.subset hc)
    exact not_lower_hyphen (p := ⟨_, suffix⟩) hlayout.suffix hsuffixBlank hprerelease hx

theorem lower_of_expand {op : Operator} {p : Partial} {cs : List Constraint} (h : expand op p = .ok cs)
    (hlen : p.numbers.length = 3) : ∃ x, p.lower = .ok x := by
  unfold expand at h
  split at h
  · next hnil =>
    rw [hnil] at hlen
    cases hlen
  · obtain ⟨x, hx, -⟩ := exists_of_bind_ok h
    exact ⟨x, hx⟩

theorem lower_of_hyphenEnd {p : Partial} {cs : List Constraint} (h : hyphenEnd p = .ok cs)
    (hlen : p.numbers.length = 3) : ∃ x, p.lower = .ok x := by
  unfold hyphenEnd at h
  split at h
  · next hnil =>
    rw [hnil] at hlen
    cases hlen
  · rw [if_pos hlen] at h
    obtain ⟨x, hx, -⟩ := exists_of_bind_ok h
    exact ⟨x, hx⟩

theorem mem_signs (sign : Sign) : sign ∈ signs := by cases sign <;> decide

/-- A comparator that is read is a sign and a partial, or a sign alone. -/
theorem isComparator_of_comparator {cs : List Constraint} (ht : ∀ c ∈ t, isBlank c = false)
    (h : comparator t = .ok cs) : IsComparator (fun r => r = [] ∨ IsPartial Loose r) t := by
  obtain ⟨sign, -, htext⟩ := exists_sign t
  obtain ⟨p, hp, hexpand⟩ := exists_of_bind_ok h
  have hdrop : t.drop sign.text.length = (operator t).2 := by
    conv => lhs; rw [htext]
    exact List.drop_left
  have hblank : ∀ c ∈ (operator t).2, isBlank c = false := by
    intro c hc
    refine ht c ?_
    rw [htext]
    exact List.mem_append_right _ hc
  refine ⟨sign, mem_signs sign, ⟨_, htext.symm⟩, ?_⟩
  show t.drop sign.text.length = [] ∨ IsPartial Loose (t.drop sign.text.length)
  rw [hdrop]
  exact isPartial_of_parse hblank hp (lower_of_expand hexpand)

theorem isComparator_of_comparators {ts : List (List Char)} {cs : List Constraint}
    (hts : ∀ t ∈ ts, ∀ c ∈ t, isBlank c = false) (h : comparators ts = .ok cs) :
    ∀ t ∈ ts, IsComparator (fun r => r = [] ∨ IsPartial Loose r) t := by
  induction ts generalizing cs with
  | nil => exact List.forall_mem_nil _
  | cons t ts ih =>
    obtain ⟨c, hc, h⟩ := exists_of_bind_ok h
    obtain ⟨ds, hds, -⟩ := exists_of_bind_ok h
    refine List.forall_mem_cons.mpr ⟨isComparator_of_comparator (hts t List.mem_cons_self) hc, ?_⟩
    exact ih (fun x hx => hts x (List.mem_cons_of_mem t hx)) hds

/-- No word is empty or has a blank. -/
theorem isWord_of_mem_words (h : w ∈ words s) : IsWord w := by
  obtain ⟨hmem, hne⟩ := List.mem_filter.mp h
  refine ⟨by simpa using hne, ?_⟩
  clear h hne
  induction s generalizing w with
  | nil =>
    rw [List.mem_singleton.mp hmem]
    exact List.forall_mem_nil _
  | cons c s ih =>
    rw [split] at hmem
    split at hmem
    · rcases List.mem_cons.mp hmem with rfl | hmem
      · exact List.forall_mem_nil _
      · exact ih hmem
    · next hc =>
      have hc : isBlank c = false := by simpa using hc
      split at hmem
      · next hnil => exact absurd hnil (split_ne_nil _ _)
      · next u us hus =>
        rw [hus] at ih
        rcases List.mem_cons.mp hmem with rfl | hmem
        · exact List.forall_mem_cons.mpr ⟨hc, ih List.mem_cons_self⟩
        · exact ih (List.mem_cons_of_mem u hmem)

/-- **An alternative that is read is loosely written.** -/
theorem looselyWritten_of_constraints {cs : List Constraint} (h : constraints a = .ok cs) :
    LooselyWritten a := by
  unfold constraints at h
  split at h
  · next low high hwords =>
    have hlow : IsWord low := isWord_of_mem_words (s := a) (by simp [hwords])
    have hhigh : IsWord high := isWord_of_mem_words (s := a) (by simp [hwords])
    obtain ⟨q, hq, h⟩ := exists_of_bind_ok h
    obtain ⟨p, hp, h⟩ := exists_of_bind_ok h
    obtain ⟨ds, hds, h⟩ := exists_of_bind_ok h
    obtain ⟨es, hes, -⟩ := exists_of_bind_ok h
    have hlowPartial := isPartial_of_parse hlow.2 hp (lower_of_expand hds)
    have hhighPartial := isPartial_of_parse hhigh.2 hq (lower_of_hyphenEnd hes)
    -- A partial without text is read as well, but the words have some.
    refine .inl ⟨low, by simp [hwords], high, by simp [hwords], hwords, ?_, ?_⟩
    · exact hlowPartial.resolve_left hlow.1
    · exact hhighPartial.resolve_left hhigh.1
  · exact .inr (isComparator_of_comparators (fun t ht => (isWord_of_mem_words ht).2) h)

/-! ## Answers -/

/-- Alternatives that are not read are not met. -/
theorem admits_ne_true {v : Version} {as : List (List Char)} (h : ∀ a ∈ as, ∀ cs, constraints a ≠ .ok cs) :
    admits v as ≠ .ok true := by
  induction as with
  | nil =>
    intro htrue
    cases htrue
  | cons a as ih =>
    have ih := ih fun x hx => h x (List.mem_cons_of_mem a hx)
    rw [admits]
    split
    · exact ih
    · intro htrue
      cases htrue
    · next cs hcs => exact absurd hcs (h a List.mem_cons_self cs)

/-- **A range that is not even loosely written holds no version.** If no number is too long to be read or
    counted up, the answer is that the version is not in it. -/
theorem satisfies_unreadable {r : String} (h : ∀ a ∈ alternatives r.toList, ¬ LooselyWritten a) (v : String) :
    satisfies v (some r) ≠ .ok true ∧
      (¬ HasLongRun v.toList → ¬ HasLongDigits r.toList → satisfies v (some r) = .ok false) := by
  have hunread : ∀ a ∈ alternatives r.toList, ∀ cs, constraints a ≠ .ok cs :=
    fun a ha cs hcs => h a ha (looselyWritten_of_constraints hcs)
  unfold satisfies
  cases hv : parseInstalled v.toList with
  | error e =>
    cases e with
    | invalid => exact ⟨nofun, fun _ _ => rfl⟩
    | numeral e => exact ⟨nofun, fun hrun => absurd (hasLongRun_of_parseInstalled hv) hrun⟩
  | ok x =>
    have hfalse : admits x (alternatives r.toList) ≠ .ok true := admits_ne_true hunread
    refine ⟨hfalse, fun _ hr => ?_⟩
    have hanswer := admits_eq_any (v := x) fun a ha =>
      constraints_notRefused fun hrun => hr (hrun.mono (infix_of_mem_alternatives ha))
    show admits x (alternatives r.toList) = .ok false
    rw [hanswer] at hfalse ⊢
    exact congrArg Except.ok (Bool.eq_false_iff.mpr fun htrue => hfalse (congrArg Except.ok htrue))

/-- A text that is no partial. -/
theorem satisfies_banana : (∀ a ∈ alternatives "<banana".toList, ¬ LooselyWritten a) ∧
    satisfies "1.0.0" (some "<banana") = .ok false := by
  have hbanana : ∀ a ∈ alternatives "<banana".toList, ¬ LooselyWritten a := by decide +kernel
  refine ⟨hbanana, (satisfies_unreadable hbanana "1.0.0").2 ?_ ?_⟩
  · exact not_hasLongRun_of_length (by decide)
  · exact not_hasLongDigits_of_length (by decide)

/-! ## Too long to count up -/

section
variable {d : List Char} (hd : IsNumeral d) (hnext : ¬ Numeral.writable (Numeral.value d + 1) = true)
include hd

theorem isWord_of_isNumeral : IsWord d := ⟨hd.1.1, fun c hc => isBlank_of_isAsciiDigit (hd.1.2 c hc)⟩

/-- A number with another word behind it is a word, and nothing is joined. -/
theorem words_numeral_append (hw : IsWord w) (hop : ∀ c ∈ w, isOperatorChar c = false) :
    words (d ++ ' ' :: w) = [d, w] ∧ joinOperators (d ++ ' ' :: w) = d ++ ' ' :: w := by
  constructor
  · rw [words_append_cons (isWord_of_isNumeral hd) (by decide), words_of_isWord hw]
  · have hall : ∀ c ∈ d ++ ' ' :: w, isOperatorChar c = false := by
      refine List.forall_mem_append.mpr ⟨fun c hc => ?_, List.forall_mem_cons.mpr ⟨rfl, hop⟩⟩
      exact not_isOperatorChar_of_isDigit (isDigit_of_isAsciiDigit (hd.1.2 c hc))
    exact joinOperators_of_all hall

include hnext

/-- A number alone is read, but the one behind it cannot be written. -/
theorem comparator_of_not_writable : comparator d = .error (.numeral .tooLongToWrite) := by
  have hall : ∀ x ∈ [d], IsNumeral x := List.forall_mem_singleton.mpr hd
  have hpoints : points [d] = d := by rw [points_cons, List.flatMap_nil, List.append_nil]
  have hparse : Partial.parse d = .ok ⟨[Numeral.value d], []⟩ := by
    have hrows := parse_rows (List.cons_ne_nil d []) (by simp) hall (m := []) nofun nofun
    simpa [hpoints] using hrows
  have hwritable : Numeral.writable (Numeral.value d) = true :=
    Numeral.writable_of_lt (Numeral.value_lt_tenTo d) (List.length_pos_iff.mpr hd.1.1) hd.2
  have hlower : Partial.lower ⟨[Numeral.value d], []⟩ = .ok (least [Numeral.value d]) :=
    ofSemantic_release padded_ne_nil (writable_padded (List.forall_mem_singleton.mpr hwritable))
  have hupper : Partial.upper ⟨[Numeral.value d], []⟩ 1 = .error (.numeral .tooLongToWrite) :=
    if_neg fun hall => hnext (List.all_eq_true.mp hall _ List.mem_cons_self)
  have hhead := exists_head_points (List.forall_mem_singleton.mpr hd.1) (List.cons_ne_nil d [])
  rw [hpoints] at hhead
  have hexpand : comparator d = expand .same ⟨[Numeral.value d], []⟩ :=
    comparator_of_parse (exists_head_of_digit hhead) hparse .none
  rw [hexpand]
  show (Partial.lower ⟨[Numeral.value d], []⟩ >>= fun lower => _) = _
  rw [hlower]
  show (Partial.upper ⟨[Numeral.value d], []⟩ 1 >>= fun upper => _) = _
  rw [hupper]
  rfl

/-- **What stands behind such a number is not looked at**: the range is refused. -/
theorem satisfies_of_not_writable (hw : IsWord w) (hop : ∀ c ∈ w, isOperatorChar c = false)
    (hbar : ∀ c ∈ w, c ≠ '|') {v : List Char} {x : Version} (hv : parseInstalled v = .ok x) :
    alternatives (d ++ ' ' :: w) = [d ++ ' ' :: w] ∧
      satisfies (String.ofList v) (some (String.ofList (d ++ ' ' :: w))) = .error .tooLongToWrite := by
  obtain ⟨hwords, hjoin⟩ := words_numeral_append hd hw hop
  have hconstraints : constraints (d ++ ' ' :: w) = .error (.numeral .tooLongToWrite) := by
    unfold constraints
    split
    · next low high h =>
      rw [hwords] at h
      cases h
    · rw [hjoin, hwords, comparators, comparator_of_not_writable hd hnext]
      rfl
  have halternatives : alternatives (d ++ ' ' :: w) = [d ++ ' ' :: w] := by
    have hdigits : ∀ c ∈ d, c ≠ '|' := by
      rintro c hc rfl
      exact absurd (hd.1.2 _ hc) (by decide)
    have hall : ∀ c ∈ d ++ ' ' :: w, c ≠ '|' :=
      List.forall_mem_append.mpr ⟨hdigits, List.forall_mem_cons.mpr ⟨by decide, hbar⟩⟩
    have htight := (tight_of_all (isWord_of_isNumeral hd).2).append (tight_of_all hw.2) hd.1.1 hw.1 [' ']
    rw [List.append_assoc] at htight
    exact alternatives_of_tight htight hall
  exact ⟨halternatives, by rw [satisfies_singleton hv halternatives, hconstraints]⟩

end

/-- The greatest number that can be written. -/
def nines : List Char := List.replicate Numeral.maxDigits '9'

theorem isNumeral_nines : IsNumeral nines := by
  have hlen : nines.length = Numeral.maxDigits := List.length_replicate
  have hmem : ∀ c ∈ nines, isAsciiDigit c = true := by
    intro c hc
    rw [(List.mem_replicate.mp hc).2]
    rfl
  refine ⟨⟨List.ne_nil_of_length_pos ?_, hmem⟩, Nat.le_of_eq hlen⟩
  rw [hlen]
  decide

/-- So many nines are one less than a power of ten. -/
theorem value_nines_succ (k : Nat) : Numeral.value (List.replicate k '9') + 1 = tenTo k := by
  -- The row is read from the left, so the induction needs any number before it.
  have key : ∀ init, (List.replicate k '9').foldl (fun n c => 10 * n + (digitValue? c).getD 0) init + 1 =
      tenTo k * (init + 1) := by
    have hnine : (digitValue? '9').getD 0 = 9 := by decide
    induction k with
    | zero => intro init; simp
    | succ k ih =>
      intro init
      rw [List.replicate_succ, List.foldl_cons, ih, tenTo_succ, hnine]
      have hten : 10 * init + 9 + 1 = 10 * (init + 1) := by omega
      rw [hten, Nat.mul_assoc]
  simpa [Numeral.value] using key 0

theorem not_writable_nines_succ : ¬ Numeral.writable (Numeral.value nines + 1) = true := by
  rw [nines, value_nines_succ]
  exact fun h => Nat.lt_irrefl _ (Numeral.lt_of_writable h)

/-- What is not strictly written may be read. A suffix is dropped, or may have empty parts; an operator
    stands alone, or before another one; what follows an operator belongs to it, even in a build. And a number
    that is too long to be counted up is refused before the text behind it is looked at. -/
theorem satisfies_not_strictlyWritten :
    (∀ p ∈ [("1.2.5", "1.2-beta"), ("1.2.5", "1.2-"), ("1.2.3", "1.2.3+"), ("1.2.0", "1.x.3-"),
        ("1.0.0", ">="), ("1.2.0", "> = 1"), ("1.2.3", "1.2.3+b> banana")],
      (∀ a ∈ alternatives p.2.toList, a ≠ [] ∧ ¬ StrictlyWritten a) ∧ satisfies p.1 (some p.2) = .ok true) ∧
    (∀ a ∈ alternatives (nines ++ " banana".toList), a ≠ [] ∧ ¬ StrictlyWritten a) ∧
    satisfies "1.0.0" (some (String.ofList (nines ++ " banana".toList))) = .error .tooLongToWrite := by
  have hread : ∀ p ∈ [("1.2.5", "1.2-beta"), ("1.2.5", "1.2-"), ("1.2.3", "1.2.3+"), ("1.2.0", "1.x.3-"),
      ("1.0.0", ">="), ("1.2.0", "> = 1"), ("1.2.3", "1.2.3+b> banana")],
      (∀ a ∈ alternatives p.2.toList, a ≠ [] ∧ ¬ StrictlyWritten a) ∧
        (satisfies p.1 (some p.2)).toOption = some true := by decide +kernel
  have hbanana : IsWord "banana".toList := ⟨by decide, by decide⟩
  have hinstalled : parseInstalled "1.0.0".toList = .ok (ofRelease [1, 0, 0]) :=
    eq_ok_of_toOption (by decide +kernel)
  obtain ⟨halternatives, hrefused⟩ := satisfies_of_not_writable isNumeral_nines not_writable_nines_succ hbanana
    (by decide) (by decide) hinstalled
  have hstrict : ¬ StrictlyWritten (nines ++ ' ' :: "banana".toList) := by
    unfold StrictlyWritten
    rw [(words_numeral_append isNumeral_nines hbanana (by decide)).1]
    rintro (⟨low, -, high, -, h, -⟩ | ⟨-, h⟩ | ⟨-, h, -⟩)
    · cases h
    · exact absurd h (by decide)
    · exact absurd h (by decide)
  refine ⟨fun p hp => ⟨(hread p hp).1, eq_ok_of_toOption (hread p hp).2⟩, ?_, hrefused⟩
  show ∀ a ∈ alternatives (nines ++ ' ' :: "banana".toList), a ≠ [] ∧ ¬ StrictlyWritten a
  rw [halternatives]
  exact List.forall_mem_singleton.mpr ⟨List.append_ne_nil_of_left_ne_nil isNumeral_nines.1.1 _, hstrict⟩

end LockAudit.Range
