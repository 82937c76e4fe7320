import LockAudit.Text.Blank
import LockAudit.Text.Digit

/-!
# `LockAudit.Proofs.Text.Pieces` — taking apart what was put together

A text that was put together from pieces is cut into the same pieces again, provided that each piece
ends where the next cannot be taken for its continuation. Four cuts are used all over the library, and
each has its law here.

* Runs: `takeWhile` and `dropWhile` find the border between a run of one class and a rest that
  `Stops` it (`takeWhile_append_stop`, `dropWhile_append_stop`).
* Ends: `trim` takes away blanks that were put around a text that is `Tight` (`trim_blanks_append`).
* Pieces: `split` cuts at every separator (`split_append_separator`), and what it finds stands in the
  text (`infix_of_mem_split`).
* Words: `words` finds the words that blanks were put between (`words_append_cons`, `words_append_stop`).
-/

namespace LockAudit.Text

/-- What is said of the characters of a text is decided on them alone, not on all characters that there are. -/
instance (priority := high) decidableForallMem (s : List Char) (p : Char → Prop) [DecidablePred p] :
    Decidable (∀ c ∈ s, p c) := List.decidableBAll p s

/-! ## Runs -/

/-- The text does not begin with a character of the class, so a run of the class ends before it. -/
def Stops (p : Char → Bool) (r : List Char) : Prop := ∀ c, r.head? = some c → p c = false

theorem stops_nil (p : Char → Bool) : Stops p [] := by
  intro c h
  cases h

theorem stops_cons {p : Char → Bool} {c : Char} (h : p c = false) (r : List Char) :
    Stops p (c :: r) := by
  intro d hd
  rw [← Option.some.inj hd]
  exact h

theorem Stops.takeWhile {p : Char → Bool} {r : List Char} (h : Stops p r) :
    r.takeWhile p = [] := by
  cases r with
  | nil => rfl
  | cons c r => exact List.takeWhile_cons_of_neg (by simp [h c rfl])

theorem Stops.dropWhile {p : Char → Bool} {r : List Char} (h : Stops p r) :
    r.dropWhile p = r := by
  cases r with
  | nil => rfl
  | cons c r => exact List.dropWhile_cons_of_neg (by simp [h c rfl])

/-- A run is found up to the rest that stops it. -/
theorem takeWhile_append_stop {p : Char → Bool} {s r : List Char} (hs : ∀ c ∈ s, p c = true)
    (hr : Stops p r) : (s ++ r).takeWhile p = s := by
  rw [List.takeWhile_append_of_pos hs, hr.takeWhile, List.append_nil]

/-- And what follows the run is the rest. -/
theorem dropWhile_append_stop {p : Char → Bool} {s r : List Char} (hs : ∀ c ∈ s, p c = true)
    (hr : Stops p r) : (s ++ r).dropWhile p = r := by
  rw [List.dropWhile_append_of_pos hs, hr.dropWhile]

/-! ## Ends -/

/-- The text has no blank at either end. -/
def Tight (s : List Char) : Prop :=
  Stops isBlank s ∧ ∀ c, s.getLast? = some c → isBlank c = false

theorem tight_nil : Tight [] := ⟨stops_nil _, by simp⟩

/-- A text without blanks has none at its ends. -/
theorem tight_of_all {s : List Char} (h : ∀ c ∈ s, isBlank c = false) : Tight s :=
  ⟨fun c hc => h c (List.mem_of_head? hc), fun c hc => h c (List.mem_of_getLast? hc)⟩

/-- What stands between two tight pieces does not matter. -/
theorem Tight.append {s r : List Char} (hs : Tight s) (hr : Tight r) (hne : s ≠ []) (hne' : r ≠ [])
    (m : List Char) : Tight (s ++ m ++ r) := by
  refine ⟨?_, ?_⟩
  · obtain ⟨c, s, rfl⟩ := List.exists_cons_of_ne_nil hne
    exact stops_cons (hs.1 c rfl) _
  · intro c hc
    obtain ⟨d, hd⟩ := Option.ne_none_iff_exists'.mp (mt List.getLast?_eq_none_iff.mp hne')
    rw [List.getLast?_append, hd] at hc
    exact hr.2 c (hd.trans hc)

theorem Tight.trimEnd {s : List Char} (h : Tight s) : trimEnd s = s := by
  have hr : Stops isBlank s.reverse := by
    intro c hc
    rw [List.head?_reverse] at hc
    exact h.2 c hc
  rw [Text.trimEnd, hr.dropWhile, List.reverse_reverse]

theorem trimEnd_append_blanks {s b : List Char} (hb : ∀ c ∈ b, isBlank c = true) :
    trimEnd (s ++ b) = trimEnd s := by
  unfold trimEnd
  rw [List.reverse_append, List.dropWhile_append_of_pos (by simpa using hb)]

@[simp] theorem Tight.trim {s : List Char} (h : Tight s) : trim s = s := by
  rw [Text.trim, trimStart, h.1.dropWhile, h.trimEnd]

/-- Blanks around a tight text are what trimming takes away. -/
theorem trim_blanks_append {s a b : List Char} (hs : Tight s) (ha : ∀ c ∈ a, isBlank c = true)
    (hb : ∀ c ∈ b, isBlank c = true) : trim (a ++ s ++ b) = s := by
  rw [trim, trimStart, List.append_assoc, List.dropWhile_append_of_pos ha]
  cases s with
  | nil =>
    have hb' : b.dropWhile isBlank = [] := by
      have h := dropWhile_append_stop hb (stops_nil isBlank)
      rwa [List.append_nil] at h
    rw [List.nil_append, hb']
    rfl
  | cons c s =>
    have hstop : Stops isBlank (c :: s ++ b) := stops_cons (hs.1 c rfl) (s ++ b)
    rw [hstop.dropWhile, trimEnd_append_blanks hb, hs.trimEnd]

/-! ## Pieces -/

section
variable {p : Char → Bool} {d : Char} {s w needle : List Char}

/-- A separator cuts a text, whatever stands on its two sides. -/
theorem split_append_separator (hd : p d = true) (s r : List Char) :
    split p (s ++ d :: r) = split p s ++ split p r := by
  induction s with
  | nil => simp [split, hd]
  | cons c s ih =>
    cases hc : p c with
    | true => simp [split, hc, ih]
    | false =>
      obtain ⟨u, us, hus⟩ := List.exists_cons_of_ne_nil (split_ne_nil p s)
      simp [split, hc, ih, hus]

theorem split_of_all (hw : ∀ c ∈ w, p c = false) : split p w = [w] := by
  induction w with
  | nil => rfl
  | cons c w ih =>
    have hc := hw c List.mem_cons_self
    have ih := ih fun x hx => hw x (List.mem_cons_of_mem c hx)
    simp [split, hc, ih]

theorem split_append_cons (hw : ∀ c ∈ w, p c = false) (hd : p d = true) (r : List Char) :
    split p (w ++ d :: r) = w :: split p r := by
  rw [split_append_separator hd, split_of_all hw]
  rfl

/-- The first piece of a text stands at its front, and any other in it. -/
theorem exists_split (p : Char → Bool) (s : List Char) :
    ∃ u us, split p s = u :: us ∧ u <+: s ∧ ∀ w ∈ us, w <:+: s := by
  induction s with
  | nil => exact ⟨[], [], rfl, List.prefix_refl _, by simp⟩
  | cons c s ih =>
    obtain ⟨u, us, hus, hu, hmem⟩ := ih
    have hlater : ∀ w ∈ us, w <:+: c :: s := fun w hw => List.infix_cons (hmem w hw)
    cases hc : p c with
    | true =>
      refine ⟨[], u :: us, by simp [split, hc, hus], List.nil_prefix, ?_⟩
      exact List.forall_mem_cons.mpr ⟨List.infix_cons hu.isInfix, hlater⟩
    | false =>
      exact ⟨c :: u, us, by simp [split, hc, hus], List.cons_prefix_cons.mpr ⟨rfl, hu⟩, hlater⟩

/-- A piece of a text stands in it. -/
theorem infix_of_mem_split (h : w ∈ split p s) : w <:+: s := by
  obtain ⟨u, us, hus, hu, hmem⟩ := exists_split p s
  rw [hus] at h
  rcases List.mem_cons.mp h with rfl | h
  · exact hu.isInfix
  · exact hmem w h

/-- Behind a text, a character that is not looked for changes nothing. -/
theorem infix_of_infix_append_singleton (h : needle <:+: s ++ [d]) (hd : d ∉ needle) :
    needle <:+: s := by
  rcases List.infix_concat_iff.mp h with h | h
  · rcases List.suffix_concat_iff.mp h with rfl | ⟨t, rfl, -⟩
    · exact List.nil_infix
    · exact absurd (by simp) hd
  · exact h

end

/-! ## Words -/

/-- A character sequence that can be a word: not empty and without blanks. -/
def IsWord (w : List Char) : Prop := w ≠ [] ∧ ∀ c ∈ w, isBlank c = false

@[simp] theorem words_nil : words [] = [] := rfl

/-- Blanks in front of a text change none of its words. -/
theorem words_blanks_append {b : List Char} (hb : ∀ c ∈ b, isBlank c = true) (r : List Char) :
    words (b ++ r) = words r := by
  induction b with
  | nil => rfl
  | cons c b ih =>
    have hc := hb c List.mem_cons_self
    have ih := ih fun x hx => hb x (List.mem_cons_of_mem c hx)
    rw [← ih]
    simp [words, split, hc]

theorem words_of_isWord {w : List Char} (hw : IsWord w) : words w = [w] := by
  rw [words, split_of_all hw.2]
  simp [hw.1]

/-- A word with a blank behind it is the first word. -/
theorem words_append_cons {w : List Char} (hw : IsWord w) {d : Char} (hd : isBlank d = true)
    (r : List Char) : words (w ++ d :: r) = w :: words r := by
  rw [words, split_append_cons hw.2 hd]
  simp [words, hw.1]

/-- A word ends where a blank or nothing follows. -/
theorem words_append_stop {w r : List Char} (hw : IsWord w) (hr : Stops (fun c => !isBlank c) r) :
    words (w ++ r) = w :: words r := by
  cases r with
  | nil => rw [List.append_nil, words_of_isWord hw, words_nil]
  | cons d r =>
    have hd : isBlank d = true := by simpa using hr d rfl
    rw [words_append_cons hw hd, show d :: r = [d] ++ r from rfl,
      words_blanks_append (by simpa using hd)]

/-! ## Classes -/

/-- The ten ASCII digits. -/
def asciiDigits : List Char := ['0', '1', '2', '3', '4', '5', '6', '7', '8', '9']

theorem toNat_of_isAsciiDigit {c : Char} (h : isAsciiDigit c = true) : 48 ≤ c.toNat ∧ c.toNat ≤ 57 := by
  simp only [isAsciiDigit, Bool.and_eq_true, decide_eq_true_eq] at h
  exact ⟨h.1, h.2⟩

theorem mem_asciiDigits {c : Char} (h : isAsciiDigit c = true) : c ∈ asciiDigits := by
  obtain ⟨hlo, hhi⟩ := toNat_of_isAsciiDigit h
  have hall : ∀ n ∈ List.range' 48 10, Char.ofNat n ∈ asciiDigits := by decide
  have hc : c.toNat ∈ List.range' 48 10 := by
    rw [List.mem_range'_1]
    omega
  rw [← Char.ofNat_toNat c]
  exact hall c.toNat hc

/-- What is so of the ten digits one by one is so of every digit. -/
theorem of_isAsciiDigit {c : Char} (h : isAsciiDigit c = true) (p : Char → Bool)
    (hp : asciiDigits.all p = true) : p c = true :=
  List.all_eq_true.mp hp c (mem_asciiDigits h)

/-- A decimal digit of ASCII is one of all scripts. -/
theorem isDigit_of_isAsciiDigit {c : Char} (h : isAsciiDigit c = true) : isDigit c = true := by
  rw [isDigit, digitValue?_of_ascii h]
  rfl

theorem isBlank_of_isAsciiDigit {c : Char} (h : isAsciiDigit c = true) : isBlank c = false := by
  simpa using of_isAsciiDigit h (fun c => !isBlank c) (by decide)

end LockAudit.Text
