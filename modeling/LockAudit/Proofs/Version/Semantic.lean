import LockAudit.Proofs.Version.Refusals
import LockAudit.Proofs.Version.Release

/-!
# `LockAudit.Proofs.Version.Semantic` — semantic versions, read as installed versions

`Semantic` is the grammar of semantic versions: three numbers without zeros in front, perhaps a
prerelease, perhaps build metadata. The grammar here is a little wider than the usual one, since the
numbers of a prerelease may have zeros in front.

* `parseInstalled_text` — of such a text only the numbers and the respelled prerelease are read, so the
  build does not count (`withoutBuild`).
* `reading_of_not_accepted` — without a long run of digits, it is a version or it is none.
-/

namespace LockAudit.Version

open LockAudit.Text

/-! ## The grammar -/

/-- A number of a semantic version: digits, and zero in front only of nothing. -/
structure IsSemanticNumber (ds : List Char) : Prop where
  ne_nil : ds ≠ []
  ascii : ∀ c ∈ ds, isAsciiDigit c = true
  no_zero : ds.head? = some '0' → ds = ['0']

instance (ds : List Char) : Decidable (IsSemanticNumber ds) :=
  decidable_of_iff (ds ≠ [] ∧ ds.all isAsciiDigit = true ∧ (ds.head? = some '0' → ds = ['0']))
    ⟨fun ⟨hne, hall, hzero⟩ => ⟨hne, List.all_eq_true.mp hall, hzero⟩,
      fun h => ⟨h.ne_nil, List.all_eq_true.mpr h.ascii, h.no_zero⟩⟩

/-- A letter, a digit or a hyphen. -/
def isIdentifierChar (c : Char) : Bool := isLabelChar c || c == '-'

/-- An identifier in a prerelease or a build. -/
structure IsIdentifier (w : List Char) : Prop where
  ne_nil : w ≠ []
  chars : ∀ c ∈ w, isIdentifierChar c = true

theorem identifiers_nil : ∀ w ∈ ([] : List (List Char)), IsIdentifier w := List.forall_mem_nil _

instance (w : List Char) : Decidable (IsIdentifier w) :=
  decidable_of_iff (w ≠ [] ∧ w.all isIdentifierChar = true)
    ⟨fun ⟨hne, hall⟩ => ⟨hne, List.all_eq_true.mp hall⟩,
      fun h => ⟨h.ne_nil, List.all_eq_true.mpr h.chars⟩⟩

/-- A semantic version. A prerelease or a build without identifiers is none. -/
structure Semantic where
  major : List Char
  minor : List Char
  patch : List Char
  prerelease : List (List Char)
  build : List (List Char)
  isNumber : ∀ d ∈ [major, minor, patch], IsSemanticNumber d
  prerelease_identifiers : ∀ w ∈ prerelease, IsIdentifier w
  build_identifiers : ∀ w ∈ build, IsIdentifier w

/-- How identifiers are written behind a sign. -/
def marked (sign : Char) (ws : List (List Char)) : List Char :=
  if ws = [] then [] else sign :: points ws

namespace Semantic

variable (v : Semantic)

/-- The three numbers. -/
def numbers : List (List Char) := [v.major, v.minor, v.patch]

/-- What is written behind the numbers. -/
def suffix : List Char := marked '-' v.prerelease ++ marked '+' v.build

/-- How a semantic version is written. -/
def text : List Char := points v.numbers ++ v.suffix

/-- The same version without its build. -/
def withoutBuild : Semantic := { v with build := [], build_identifiers := identifiers_nil }

/-! ## Characters -/

/-- A character of a semantic version. -/
def isVersionChar (c : Char) : Bool := isIdentifierChar c || c == '.' || c == '+'

theorem toNat_of_isAlpha {c : Char} (h : c.isAlpha = true) :
    65 ≤ c.toNat ∧ c.toNat ≤ 90 ∨ 97 ≤ c.toNat ∧ c.toNat ≤ 122 := by
  have hcases : (c.isUpper || c.isLower) = true := h
  rw [Bool.or_eq_true] at hcases
  rcases hcases with h | h
  · exact .inl (of_decide_eq_true h)
  · have hboth := (Bool.and_eq_true _ _).mp h
    exact .inr ⟨of_decide_eq_true hboth.1, of_decide_eq_true hboth.2⟩

theorem toNat_of_isVersionChar {c : Char} (h : isVersionChar c = true) :
    43 ≤ c.toNat ∧ c.toNat ≤ 57 ∨ 65 ≤ c.toNat ∧ c.toNat ≤ 90 ∨ 97 ≤ c.toNat ∧ c.toNat ≤ 122 := by
  simp only [isVersionChar, isIdentifierChar, isLabelChar, Bool.or_eq_true, beq_iff_eq] at h
  rcases h with (((h | h) | rfl) | rfl) | rfl
  · have hdigit := toNat_of_isAsciiDigit h
    omega
  · exact .inr (toNat_of_isAlpha h)
  all_goals decide

theorem isBlank_of_isVersionChar {c : Char} (h : isVersionChar c = true) : isBlank c = false := by
  have hrange := toNat_of_isVersionChar h
  have hlt : 33 ≤ c.toNat ∧ c.toNat < 127 := by omega
  clear h hrange
  simp only [isBlank, isWhiteSpace, Bool.or_eq_false_iff, Bool.and_eq_false_iff, decide_eq_false_iff_not,
    beq_eq_false_iff_ne]
  omega

theorem isVersionChar_of_isAsciiDigit {c : Char} (h : isAsciiDigit c = true) :
    isVersionChar c = true := by
  simp [isVersionChar, isIdentifierChar, isLabelChar, h]

theorem isVersionChar_of_isIdentifierChar {c : Char} (h : isIdentifierChar c = true) :
    isVersionChar c = true := by
  simp [isVersionChar, h]

/-- What is marked begins with its sign and goes on with identifiers and points. -/
theorem mem_marked_cases {sign c : Char} {ws : List (List Char)} (hws : ∀ w ∈ ws, IsIdentifier w)
    (h : c ∈ marked sign ws) : c = sign ∨ c = '.' ∨ isIdentifierChar c = true := by
  unfold marked at h
  split at h
  · cases h
  · rcases List.mem_cons.mp h with h | h
    · exact .inl h
    · rcases mem_points_cases h with h | ⟨w, hw, h⟩
      · exact .inr (.inl h)
      · exact .inr (.inr ((hws w hw).chars c h))

theorem isVersionChar_of_mem {c : Char} (h : c ∈ v.text) : isVersionChar c = true := by
  rw [text, suffix, List.mem_append, List.mem_append] at h
  rcases h with h | h | h
  · rcases mem_points_cases h with rfl | ⟨d, hd, h⟩
    · decide
    · exact isVersionChar_of_isAsciiDigit ((v.isNumber d hd).ascii c h)
  · rcases mem_marked_cases v.prerelease_identifiers h with rfl | rfl | h
    · decide
    · decide
    · exact isVersionChar_of_isIdentifierChar h
  · rcases mem_marked_cases v.build_identifiers h with rfl | rfl | h
    · decide
    · decide
    · exact isVersionChar_of_isIdentifierChar h

theorem not_blank : ∀ c ∈ v.text, isBlank c = false :=
  fun _ hc => isBlank_of_isVersionChar (v.isVersionChar_of_mem hc)

/-- A semantic version begins with a digit. -/
theorem exists_head : ∃ c r, v.text = c :: r ∧ isAsciiDigit c = true := by
  have hmajor := v.isNumber v.major List.mem_cons_self
  obtain ⟨c, d, hcd⟩ := List.exists_cons_of_ne_nil hmajor.ne_nil
  have hc : isAsciiDigit c = true := hmajor.ascii c (by rw [hcd]; exact List.mem_cons_self)
  exact ⟨c, _, by rw [text, numbers, points_cons, hcd]; rfl, hc⟩

/-! ## Reading -/

/-- What is written behind the numbers begins with the sign of a prerelease or of a build. -/
theorem sign_of_head_suffix {c : Char} (hc : v.suffix.head? = some c) : c = '-' ∨ c = '+' := by
  unfold suffix marked at hc
  split at hc
  · split at hc
    · cases hc
    · exact .inr (Option.some.inj hc).symm
  · exact .inl (Option.some.inj hc).symm

/-- Build metadata is cut. -/
theorem markers_append_plus {s : List Char} (h : ∀ c ∈ s, c ≠ '+') (r : List Char) :
    markers (s ++ '+' :: r) = markers s := by
  have hall : ∀ c ∈ s, decide (c ≠ '+') = true := fun c hc => decide_eq_true (h c hc)
  have hlong : (s ++ '+' :: r).takeWhile (· ≠ '+') = s :=
    takeWhile_append_stop hall (stops_cons (by decide) r)
  have hshort : s.takeWhile (· ≠ '+') = s := by
    simpa using takeWhile_append_stop hall (stops_nil _)
  unfold markers
  rw [hlong, hshort]

theorem markers_suffix : markers v.suffix = markers (marked '-' v.prerelease) := by
  have hplus : ∀ c ∈ marked '-' v.prerelease, c ≠ '+' := by
    intro c hc heq
    subst heq
    rcases mem_marked_cases v.prerelease_identifiers hc with h | h | h
    · exact absurd h (by decide)
    · exact absurd h (by decide)
    · exact absurd h (by decide)
  by_cases hbuild : v.build = []
  · simp [suffix, marked, hbuild]
  · rw [suffix, show marked '+' v.build = '+' :: points v.build from if_neg hbuild,
      markers_append_plus hplus]

/-- What is read of a semantic version: its numbers, and its prerelease in the other spelling. -/
def reading : Except Fault Version :=
  parse (points v.numbers ++ markers (marked '-' v.prerelease))

/-- The numbers are rows of digits. -/
theorem digits_of_mem : ∀ d ∈ v.numbers, d ≠ [] ∧ ∀ c ∈ d, isAsciiDigit c = true :=
  fun d hd => ⟨(v.isNumber d hd).ne_nil, (v.isNumber d hd).ascii⟩

theorem numbers_ne_nil : v.numbers ≠ [] := List.cons_ne_nil _ _

/-- **The build is not read**, and the numbers are read as they stand. -/
theorem parseInstalled_text : parseInstalled v.text = v.reading := by
  have hblank : ∀ c ∈ v.suffix, isBlank c = false := fun c hc => v.not_blank c (List.mem_append_right _ hc)
  rw [text, parseInstalled_points_append v.numbers_ne_nil v.digits_of_mem (fun _ hc => v.sign_of_head_suffix hc)
    hblank, v.markers_suffix]
  rfl

/-- Whether a semantic version is a version. -/
def Accepted : Prop := ∃ x, parseInstalled v.text = .ok x

instance : Decidable v.Accepted :=
  decidable_of_iff ((parseInstalled v.text).toOption.isSome = true) (by
    unfold Accepted
    cases parseInstalled v.text <;> simp [Except.toOption])

theorem withoutBuild_reading : v.withoutBuild.reading = v.reading := rfl

theorem withoutBuild_text_prefix : v.withoutBuild.text <+: v.text := by
  have hnone : marked '+' v.withoutBuild.build = [] := rfl
  refine ⟨marked '+' v.build, ?_⟩
  rw [text, suffix, hnone, List.append_nil, List.append_assoc]
  rfl

variable {v}

theorem accepted_iff : v.Accepted ↔ ∃ x, v.reading = .ok x := by rw [Accepted, parseInstalled_text]

/-- **Without a long run, a text is a version or is none.** -/
theorem reading_of_not_accepted (h : ¬ HasLongRun v.text) (hv : ¬ v.Accepted) :
    v.reading = .error .invalid := by
  rw [accepted_iff] at hv
  cases hreading : v.reading with
  | ok x => exact absurd ⟨x, hreading⟩ hv
  | error e =>
    cases e with
    | invalid => rfl
    | numeral e =>
      rw [← parseInstalled_text] at hreading
      exact absurd (hasLongRun_of_parseInstalled hreading) h

/-! ## Numbers -/

theorem infix_points {w : List Char} {ws : List (List Char)} (h : w ∈ ws) : w <:+: points ws := by
  obtain ⟨x, ws, rfl⟩ := List.exists_cons_of_ne_nil (List.ne_nil_of_mem h)
  rw [points_cons]
  rcases List.mem_cons.mp h with rfl | h
  · exact (List.prefix_append _ _).isInfix
  · obtain ⟨a, b, rfl⟩ := List.append_of_mem h
    exact ⟨x ++ a.flatMap (fun y => '.' :: y) ++ ['.'], b.flatMap (fun y => '.' :: y), by simp⟩

theorem length_le (h : ¬ HasLongRun v.text) {d : List Char} (hd : d ∈ v.numbers) :
    d.length ≤ Numeral.maxDigits := by
  have htext : d <:+: v.text := (infix_points hd).trans (List.prefix_append _ _).isInfix
  exact length_le_of_infix h htext (v.isNumber d hd).ascii

theorem isNumeral_of_mem (h : ¬ HasLongRun v.text) {d : List Char} (hd : d ∈ v.numbers) : IsNumeral d :=
  ⟨v.digits_of_mem d hd, length_le h hd⟩

/-- A number is written as it stands. -/
theorem digits_value {d : List Char} (hd : d ∈ v.numbers) : Numeral.digits (Numeral.value d) = d := by
  have hnumber := v.isNumber d hd
  obtain ⟨c, ds, rfl⟩ := List.exists_cons_of_ne_nil hnumber.ne_nil
  -- Zero is written as one digit, and every other number begins with another digit.
  by_cases hc : c = '0'
  · subst hc
    rw [hnumber.no_zero rfl]
    decide
  · exact Numeral.digits_value hnumber.ascii hc

theorem ofSemantic_numbers (h : ¬ HasLongRun v.text) :
    ofSemantic (v.numbers.map Numeral.value) v.suffix = v.reading := by
  have hdigits : (v.numbers.map Numeral.value).map Numeral.digits = v.numbers := by
    rw [List.map_map]
    exact (List.map_congr_left fun d hd => digits_value hd).trans (List.map_id _)
  have hwritable : (v.numbers.map Numeral.value).all Numeral.writable = true := by
    rw [List.all_map, List.all_eq_true]
    intro d hd
    show decide ((Numeral.digits (Numeral.value d)).length ≤ Numeral.maxDigits) = true
    rw [digits_value hd]
    exact decide_eq_true (length_le h hd)
  rw [ofSemantic, if_pos hwritable, hdigits, markers_suffix, reading]

end Semantic

end LockAudit.Version
