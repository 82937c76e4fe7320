import LockAudit.Numeral
import LockAudit.Proofs.Text.Pieces

/-!
# `LockAudit.Proofs.Text.Runs` — long runs of digits

Numerals are refused for their length alone. So whatever reader meets a numeral that it refuses, the text
has a run of ASCII digits that is longer than the longest numeral (`HasLongRun`), and a text without such
a run is never refused.

Readers take texts apart and put them together anew. `HasLongRun.mono` carries a run from a part to
the whole, and `HasLongRun.of_append_cons` from a text to one of two parts with another character between
them.

Some readers know the digits of all scripts, and count a number up before they write it anew, so that even
the longest numeral may grow too long. For these there is a second, wider class of runs (`HasLongDigits`).
-/

namespace LockAudit.Text

/-- A text has a run of ASCII digits that is too long for a numeral. -/
def HasLongRun (s : List Char) : Prop :=
  ∃ ds, ds <:+: s ∧ (∀ c ∈ ds, isAsciiDigit c = true) ∧ Numeral.maxDigits < ds.length

variable {s r : List Char}

/-- What stands in a part stands in the whole. -/
theorem HasLongRun.mono (h : HasLongRun s) (hs : s <:+: r) : HasLongRun r := by
  obtain ⟨ds, hds, hdigits, hlong⟩ := h
  exact ⟨ds, hds.trans hs, hdigits, hlong⟩

/-- A text that is no longer than the longest numeral has no long run. -/
theorem not_hasLongRun_of_length (h : s.length ≤ Numeral.maxDigits) : ¬ HasLongRun s := by
  rintro ⟨ds, hds, -, hlong⟩
  exact Nat.not_lt_of_le (Nat.le_trans hds.length_le h) hlong

/-- Without a long run, no row of digits in a text is too long. -/
theorem length_le_of_infix (h : ¬ HasLongRun s) {ds : List Char} (hds : ds <:+: s)
    (hdigits : ∀ c ∈ ds, isAsciiDigit c = true) : ds.length ≤ Numeral.maxDigits :=
  Nat.le_of_not_lt fun hlong => h ⟨ds, hds, hdigits, hlong⟩

/-- What does not have a character does not reach over it. -/
theorem infix_of_infix_append_cons {needle : List Char} {d : Char} (hd : d ∉ needle)
    (h : needle <:+: s ++ d :: r) : needle <:+: s ∨ needle <:+: r := by
  rcases List.infix_append_iff.mp h with h | h | ⟨u, w, rfl, hu, hw⟩
  · exact .inl h
  · rcases List.infix_cons_iff.mp h with h | h
    · cases needle with
      | nil => exact .inl List.nil_infix
      | cons c needle =>
        have hc : c = d := (List.cons_prefix_cons.mp h).1
        exact absurd (hc ▸ List.mem_cons_self) hd
    · exact .inr h
  · -- The part behind the border is empty, since it would begin with the character.
    cases w with
    | nil =>
      rw [List.append_nil]
      exact .inl hu.isInfix
    | cons c w =>
      have hc : c = d := (List.cons_prefix_cons.mp hw).1
      exact absurd (List.mem_append_right u (hc ▸ List.mem_cons_self)) hd

/-- A run of digits stands on one side of any other character. -/
theorem HasLongRun.of_append_cons {d : Char} (hd : isAsciiDigit d = false)
    (h : HasLongRun (s ++ d :: r)) : HasLongRun s ∨ HasLongRun r := by
  obtain ⟨ds, hds, hdigits, hlong⟩ := h
  have hmem : d ∉ ds := by
    intro hmem
    rw [hdigits d hmem] at hd
    cases hd
  rcases infix_of_infix_append_cons hmem hds with hds | hds
  · exact .inl ⟨ds, hds, hdigits, hlong⟩
  · exact .inr ⟨ds, hds, hdigits, hlong⟩

/-- A row of digits that is refused stands in any text that it is taken from. -/
theorem hasLongRun_of_read {ds : List Char} {e : Numeral.Refusal} (h : Numeral.read ds = .error e)
    (hdigits : ∀ c ∈ ds, isAsciiDigit c = true) (hds : ds <:+: s) : HasLongRun s := by
  unfold Numeral.read at h
  split at h
  · cases h
  · next hlong => exact ⟨ds, hds, hdigits, Nat.lt_of_not_le hlong⟩

/-! ## Digits of all scripts -/

/-- A text has a run of decimal digits, of any script, that is no shorter than the longest numeral. -/
def HasLongDigits (s : List Char) : Prop :=
  ∃ ds, ds <:+: s ∧ (∀ c ∈ ds, isDigit c = true) ∧ Numeral.maxDigits ≤ ds.length

theorem HasLongDigits.mono (h : HasLongDigits s) (hs : s <:+: r) : HasLongDigits r := by
  obtain ⟨ds, hds, hdigits, hlong⟩ := h
  exact ⟨ds, hds.trans hs, hdigits, hlong⟩

theorem HasLongRun.hasLongDigits (h : HasLongRun s) : HasLongDigits s := by
  obtain ⟨ds, hds, hdigits, hlong⟩ := h
  exact ⟨ds, hds, fun c hc => isDigit_of_isAsciiDigit (hdigits c hc), Nat.le_of_lt hlong⟩

/-- Such a run stands on one side of any other character. -/
theorem HasLongDigits.of_append_cons {d : Char} (hd : isDigit d = false)
    (h : HasLongDigits (s ++ d :: r)) : HasLongDigits s ∨ HasLongDigits r := by
  obtain ⟨ds, hds, hdigits, hlong⟩ := h
  have hmem : d ∉ ds := by
    intro hmem
    rw [hdigits d hmem] at hd
    cases hd
  rcases infix_of_infix_append_cons hmem hds with hds | hds
  · exact .inl ⟨ds, hds, hdigits, hlong⟩
  · exact .inr ⟨ds, hds, hdigits, hlong⟩

/-- A text that is shorter than the longest numeral has no such run. -/
theorem not_hasLongDigits_of_length (h : s.length < Numeral.maxDigits) : ¬ HasLongDigits s := by
  rintro ⟨ds, hds, -, hlong⟩
  exact Nat.not_lt_of_le hlong (Nat.lt_of_le_of_lt hds.length_le h)

/-- Without such a run, every row of digits in a text is shorter than the longest numeral. -/
theorem length_lt_of_infix (h : ¬ HasLongDigits s) {ds : List Char} (hds : ds <:+: s)
    (hdigits : ∀ c ∈ ds, isDigit c = true) : ds.length < Numeral.maxDigits :=
  Nat.lt_of_not_le fun hlong => h ⟨ds, hds, hdigits, hlong⟩

end LockAudit.Text
