import LockAudit.Json.Reader
import LockAudit.Proofs.Json.Exact
import LockAudit.Proofs.Text.Pieces
import LockAudit.Proofs.Version.Release

/-!
# `LockAudit.Proofs.Json.RoundTrip` — what is written is read

The reader takes a text from the front, and the texts that `compact` writes are made so that it always
sees where a part ends: a string at its quote, a numeral at a character that cannot extend it, and
everything else at a bracket, a brace or a comma. So each part has one law, that the reader finds it at
the front of any text that goes on in an allowed way.

* `string_escapes` — a written string, one character after the other (`escape_cases` names the four ways
  in which a character is written).
* `number_intText` — a written integer.
* `reads_of_exact` — a written value, by induction on the value; `items_commas` and `members_commas` are
  its lists.
* `parse_compact` — the whole text, and `plain_compact`, which says that it is plain ASCII.
-/

namespace LockAudit.Json

open LockAudit.Text

/-! ## Strings -/

/-- A character of plain ASCII that can be seen, or the space. -/
def isPlain (c : Char) : Bool := 0x20 ≤ c.toNat && c.toNat ≤ 0x7e

variable {left : Nat}

theorem string_quote (r : List Char) : string left ('"' :: r) = .ok ([], r) := by
  rw [string]

theorem string_plain {c : Char} (hq : c ≠ '"') (hb : c ≠ '\\') (hc : 0x20 ≤ c.toNat) (r : List Char) :
    string left (c :: r) = consChar c (string left r) := by
  rw [string]
  · rw [if_neg (by omega)]
  all_goals simp_all

theorem string_escaped {e c : Char} (hu : e ≠ 'u') (he : escaped? e = some c) (r : List Char) :
    string left ('\\' :: e :: r) = consChar c (string left r) := by
  rw [string]
  · rw [he]
  all_goals simp_all

theorem string_unit {a b c d : Char} {u : Nat} (hu : unit? a b c d = some u)
    (hhigh : isHighSurrogate u = false) {r : List Char} (hr : r ≠ []) :
    string left ('\\' :: 'u' :: a :: b :: c :: d :: r) = consChar (unitChar u) (string left r) := by
  obtain ⟨x, r, rfl⟩ := List.exists_cons_of_ne_nil hr
  rw [string]
  rw [hu]
  simp only [hhigh]
  split <;> rfl

theorem string_pair {a b c d a' b' c' d' : Char} {u v : Nat} (hu : unit? a b c d = some u)
    (hv : unit? a' b' c' d' = some v) (hhigh : isHighSurrogate u = true)
    (hlow : isLowSurrogate v = true) {r : List Char} (hr : r ≠ []) :
    string left ('\\' :: 'u' :: a :: b :: c :: d :: '\\' :: 'u' :: a' :: b' :: c' :: d' :: r) =
      consChar (joinSurrogates u v) (string left r) := by
  obtain ⟨x, r, rfl⟩ := List.exists_cons_of_ne_nil hr
  rw [string]
  simp only [hu, hhigh, hv, hlow, if_true]

/-- The four digits of an escape read back. -/
theorem unit?_digits {n : Nat} (h : n < 0x10000) :
    unit? (hexDigit (n / 4096 % 16)) (hexDigit (n / 256 % 16)) (hexDigit (n / 16 % 16))
      (hexDigit (n % 16)) = some n := by
  have hdigit : ∀ k, hexValue? (hexDigit (k % 16)) = some (k % 16) := fun k =>
    hexValue?_hexDigit (Nat.mod_lt k (by decide))
  simp only [unit?, hdigit, Option.some.injEq]
  omega

theorem string_unitEscape {u : Nat} (hu : u < 0x10000) (hhigh : isHighSurrogate u = false)
    {r : List Char} (hr : r ≠ []) :
    string left (unitEscape u ++ r) = consChar (unitChar u) (string left r) :=
  string_unit (unit?_digits hu) hhigh hr

theorem string_unitEscape_pair {u v : Nat} (hu : u < 0x10000) (hv : v < 0x10000)
    (hhigh : isHighSurrogate u = true) (hlow : isLowSurrogate v = true) {r : List Char} (hr : r ≠ []) :
    string left (unitEscape u ++ unitEscape v ++ r) =
      consChar (joinSurrogates u v) (string left r) :=
  string_pair (unit?_digits hu) (unit?_digits hv) hhigh hlow hr

/-- No character is half a surrogate pair. -/
theorem toNat_lt_or (c : Char) : c.toNat < 0xd800 ∨ (0xdfff < c.toNat ∧ c.toNat < 0x110000) :=
  c.valid

theorem unitChar_toNat (c : Char) : unitChar c.toNat = c := by
  have hc := toNat_lt_or c
  have hhigh : isHighSurrogate c.toNat = false := by
    simp [isHighSurrogate]
    omega
  have hlow : isLowSurrogate c.toNat = false := by
    simp [isLowSurrogate]
    omega
  rw [unitChar, hhigh, hlow, Bool.or_false, if_neg Bool.false_ne_true, Char.ofNat_toNat]

theorem joinSurrogates_toNat {c : Char} (h : 0x10000 ≤ c.toNat) :
    joinSurrogates (0xd800 + (c.toNat - 0x10000) / 0x400) (0xdc00 + (c.toNat - 0x10000) % 0x400) =
      c := by
  rw [joinSurrogates, Nat.add_sub_cancel_left, Nat.add_sub_cancel_left, Nat.add_assoc,
    Nat.mul_comm, Nat.div_add_mod, Nat.add_sub_cancel' h, Char.ofNat_toNat]

/-- The four ways in which a character is written. -/
theorem escape_cases (c : Char) :
    (escape c = [c] ∧ c ≠ '"' ∧ c ≠ '\\' ∧ isPlain c = true) ∨
    (∃ e, escape c = ['\\', e] ∧ e ≠ 'u' ∧ escaped? e = some c ∧ isPlain e = true) ∨
    (escape c = unitEscape c.toNat ∧ c.toNat < 0x10000) ∨
    (escape c = unitEscape (0xd800 + (c.toNat - 0x10000) / 0x400) ++
        unitEscape (0xdc00 + (c.toNat - 0x10000) % 0x400) ∧ 0x10000 ≤ c.toNat) := by
  unfold escape
  dsimp only
  have hletter : ∀ e, e ≠ 'u' → isPlain e = true → escaped? e = some c →
      ∃ e', ['\\', e] = ['\\', e'] ∧ e' ≠ 'u' ∧ escaped? e' = some c ∧ isPlain e' = true :=
    fun e hu hplain he => ⟨e, rfl, hu, he, hplain⟩
  split
  next h => exact .inr (.inl (hletter '"' (by decide) (by decide) (by rw [h]; rfl)))
  next hquote =>
  split
  next h => exact .inr (.inl (hletter '\\' (by decide) (by decide) (by rw [h]; rfl)))
  next hback =>
  split
  next h =>
    exact .inl ⟨rfl, hquote, hback, by simpa [isPlain] using h⟩
  split
  next h => exact .inr (.inl (hletter 'n' (by decide) (by decide) (by rw [h]; rfl)))
  split
  next h => exact .inr (.inl (hletter 'r' (by decide) (by decide) (by rw [h]; rfl)))
  split
  next h => exact .inr (.inl (hletter 't' (by decide) (by decide) (by rw [h]; rfl)))
  split
  next h => exact .inr (.inl (hletter 'b' (by decide) (by decide) (by rw [h]; rfl)))
  split
  next h => exact .inr (.inl (hletter 'f' (by decide) (by decide) (by rw [h]; rfl)))
  split
  next h => exact .inr (.inr (.inl ⟨rfl, h⟩))
  next h => exact .inr (.inr (.inr ⟨rfl, Nat.le_of_not_lt h⟩))

/-- **A written character is read.** An escape of four digits is read with the character behind it, so
    there must be one. -/
theorem string_escape (c : Char) {r : List Char} (hr : r ≠ []) :
    string left (escape c ++ r) = consChar c (string left r) := by
  have hc := toNat_lt_or c
  rcases escape_cases c with ⟨he, hquote, hback, hplain⟩ | ⟨e, he, hu, hletter, -⟩ | ⟨he, hlt⟩ |
    ⟨he, hle⟩ <;> rw [he]
  · have hlow : 0x20 ≤ c.toNat := by
      simp only [isPlain, Bool.and_eq_true, decide_eq_true_eq] at hplain
      exact hplain.1
    exact string_plain hquote hback hlow r
  · exact string_escaped hu hletter r
  · have hhigh : isHighSurrogate c.toNat = false := by
      simp only [isHighSurrogate, Bool.and_eq_false_iff, decide_eq_false_iff_not]
      omega
    rw [string_unitEscape hlt hhigh hr, unitChar_toNat]
  · rw [string_unitEscape_pair (by omega) (by omega) (by simp [isHighSurrogate]; omega)
      (by simp [isLowSurrogate]; omega) hr, joinSurrogates_toNat hle]

/-- **A written string is read**, and what follows it is left. -/
theorem string_escapes (s r : List Char) :
    string left (s.flatMap escape ++ '"' :: r) = .ok (s, r) := by
  induction s with
  | nil => exact string_quote r
  | cons c s ih =>
    -- The closing quote stands behind the last character at the latest.
    rw [List.flatMap_cons, List.append_assoc, string_escape c (by simp), ih]
    rfl

/-! ## Numbers -/

/-- Whether a character behind a numeral would be taken for a part of it. -/
def extendsNumeral (c : Char) : Bool := isAsciiDigit c || c == '.' || c == 'e' || c == 'E'

theorem stops_isAsciiDigit {r : List Char} (hr : Stops extendsNumeral r) : Stops isAsciiDigit r := by
  intro c hc
  have h := hr c hc
  simp only [extendsNumeral, Bool.or_eq_false_iff] at h
  exact h.1.1.1

/-- Digits are taken to their end. A zero is taken alone, so it matters that they begin with none. -/
theorem wholeDigits_append {ds : List Char} (hds : ∀ c ∈ ds, isAsciiDigit c = true)
    (hzero : ds.head? ≠ some '0') (hne : ds ≠ []) {r : List Char} (hr : Stops extendsNumeral r) :
    wholeDigits (ds ++ r) = (ds, r) := by
  have hstop := stops_isAsciiDigit hr
  have hspan : Numeral.spanDigits isAsciiDigit (ds ++ r) = (ds, r) := by
    rw [Numeral.spanDigits, takeWhile_append_stop hds hstop, dropWhile_append_stop hds hstop]
  obtain ⟨d, ds', rfl⟩ := List.exists_cons_of_ne_nil hne
  have hd : d ≠ '0' := by simpa using hzero
  rw [← hspan]
  exact wholeDigits.eq_2 _ fun t ht => hd (List.cons.inj ht).1

theorem wholeDigits_digits (n : Nat) {r : List Char} (hr : Stops extendsNumeral r) :
    wholeDigits (Numeral.digits n ++ r) = (Numeral.digits n, r) := by
  rcases Nat.eq_zero_or_pos n with rfl | hpos
  · rfl
  · have hall : ∀ c ∈ Numeral.digits n, isAsciiDigit c = true := fun c hc =>
      Numeral.isAsciiDigit_of_mem_digits hc
    exact wholeDigits_append hall (Numeral.head?_digits hpos) (Numeral.digits_ne_nil n) hr

theorem places_of_stops {r : List Char} (hr : Stops extendsNumeral r) : places r = ([], r) := by
  unfold places
  split
  next t => exact absurd (hr '.' rfl) (by decide)
  next => rfl

theorem exponent?_of_stops {r : List Char} (hr : Stops extendsNumeral r) : exponent? r = none := by
  cases r with
  | nil => rfl
  | cons c r =>
    have hc := hr c rfl
    simp only [extendsNumeral, Bool.or_eq_false_iff, beq_eq_false_iff_ne] at hc
    simp [exponent?, hc.1.2, hc.2]

/-- A written integer is a sign, if it is below zero, and digits. -/
theorem intText_cases (n : Int) :
    ∃ d ds, Numeral.digits n.natAbs = d :: ds ∧ isAsciiDigit d = true ∧
      (n < 0 ∧ intText n = '-' :: d :: ds ∨ ¬ n < 0 ∧ intText n = d :: ds) := by
  obtain ⟨d, ds, hds⟩ := List.exists_cons_of_ne_nil (Numeral.digits_ne_nil n.natAbs)
  refine ⟨d, ds, hds, ?_, ?_⟩
  · exact Numeral.isAsciiDigit_of_mem_digits (n := n.natAbs) (hds ▸ List.mem_cons_self)
  · rw [intText, show Nat.toDigits 10 n.natAbs = d :: ds from hds]
    by_cases hneg : n < 0
    · exact .inl ⟨hneg, if_pos hneg⟩
    · exact .inr ⟨hneg, if_neg hneg⟩

/-- **A written integer is read**, unless it is too long. -/
theorem number_intText {n : Int} (h : Numeral.writable n.natAbs = true) {r : List Char}
    (hr : Stops extendsNumeral r) : number (intText n ++ r) = .ok (.num (.int n), r) := by
  have hread : Numeral.read (Numeral.digits n.natAbs) = .ok n.natAbs :=
    Numeral.read_ok_iff.mpr ⟨by simpa [Numeral.writable] using h, Numeral.value_digits _⟩
  have hwhole := wholeDigits_digits n.natAbs hr
  obtain ⟨d, ds, hds, hdigit, htext⟩ := intText_cases n
  rw [hds] at hread hwhole
  rcases htext with ⟨hneg, htext⟩ | ⟨hpos, htext⟩ <;> rw [htext]
  · rw [List.cons_append, number]
    simp only [hwhole, places_of_stops hr, exponent?_of_stops hr, hread, if_true,
      Int.ofNat_natAbs_of_nonpos (Int.le_of_lt hneg), Int.neg_neg]
  · have hminus : d ≠ '-' := by
      intro hd
      rw [hd] at hdigit
      cases hdigit
    rw [number]
    · simp only [hwhole, places_of_stops hr, exponent?_of_stops hr, hread, Bool.false_eq_true, if_false,
        Int.natAbs_of_nonneg (Int.not_lt.mp hpos)]
    · exact fun t ht => hminus (List.cons.inj ht).1

/-! ## Lists with commas -/

@[simp] theorem commas_nil : commas [] = [] := rfl

@[simp] theorem commas_singleton (t : List Char) : commas [t] = t := by
  simp [commas, List.intercalate]

theorem commas_cons_cons (t u : List Char) (ts : List (List Char)) :
    commas (t :: u :: ts) = t ++ ',' :: commas (u :: ts) := by
  simp [commas, List.intercalate]

/-- A list with commas begins as its first text does. -/
theorem exists_commas_cons (c : Char) (t : List Char) (ts : List (List Char)) :
    ∃ rest, commas ((c :: t) :: ts) = c :: rest := by
  cases ts with
  | nil => exact ⟨t, commas_singleton _⟩
  | cons u ts => exact ⟨_, commas_cons_cons _ _ _⟩

theorem blanks_cons {c : Char} (h : isSpace c = false) (r : List Char) : blanks (c :: r) = c :: r :=
  (stops_cons h r).dropWhile

theorem blanks_commas {c : Char} (h : isSpace c = false) (t : List Char) (ts : List (List Char))
    (r : List Char) : blanks (commas ((c :: t) :: ts) ++ r) = commas ((c :: t) :: ts) ++ r := by
  obtain ⟨rest, hrest⟩ := exists_commas_cons c t ts
  rw [hrest, List.cons_append, blanks_cons h]

/-- A text of a list stands in the list. -/
theorem infix_commas {t : List Char} {ts : List (List Char)} (h : t ∈ ts) : t <:+: commas ts := by
  induction ts with
  | nil => cases h
  | cons u ts ih =>
    cases ts with
    | nil => exact ⟨[], [], by simp [List.mem_singleton.mp h]⟩
    | cons v ts =>
      rw [commas_cons_cons]
      rcases List.mem_cons.mp h with rfl | h
      · exact (List.prefix_append _ _).isInfix
      · exact (ih h).trans (List.suffix_append_of_suffix (List.suffix_cons _ _)).isInfix

/-! ## Values -/

/-- A written value begins with no space, and with no bracket that closes. -/
theorem exists_head {v : Json} (h : Exact v) :
    ∃ c t, compactChars v = c :: t ∧ isSpace c = false ∧ c ≠ ']' := by
  cases h with
  | null => exact ⟨_, _, rfl, rfl, by decide⟩
  | bool b => cases b <;> exact ⟨_, _, rfl, rfl, by decide⟩
  | @int n h =>
    obtain ⟨d, ds, -, hdigit, ⟨-, htext⟩ | ⟨-, htext⟩⟩ := intText_cases n
    · exact ⟨'-', d :: ds, htext, rfl, by decide⟩
    · have hd := of_isAsciiDigit hdigit (fun c => !isSpace c && c != ']') (by decide)
      simp only [Bool.and_eq_true, Bool.not_eq_true', bne_iff_ne] at hd
      exact ⟨d, ds, htext, hd⟩
  | str s => exact ⟨_, _, rfl, rfl, by decide⟩
  | arr h => exact ⟨'[', _, by rw [compactChars]; rfl, rfl, by decide⟩
  | obj hnames h => exact ⟨'{', _, by rw [compactChars]; rfl, rfl, by decide⟩

theorem blanks_compact {v : Json} (h : Exact v) (r : List Char) :
    blanks (compactChars v ++ r) = compactChars v ++ r := by
  obtain ⟨c, t, hv, hc, -⟩ := exists_head h
  rw [hv, List.cons_append, blanks_cons hc]

/-- The text of a value is read at the front of any text, by a bound that its length provides. What
    follows must not extend a numeral. -/
def Reads (v : Json) : Prop :=
  ∀ n r, 2 * (compactChars v).length ≤ n → Stops extendsNumeral r →
    value (n + 1) (compactChars v ++ r) = .ok (v.sorted, r)

/-- Items are read one by one, up to the bracket. -/
theorem items_commas {vs : List Json} (hne : vs ≠ []) (hexact : ∀ v ∈ vs, Exact v)
    (hreads : ∀ v ∈ vs, Reads v) {n : Nat} {r : List Char}
    (hn : 2 * (commas (vs.map compactChars)).length ≤ n) :
    items (n + 2) (commas (vs.map compactChars) ++ ']' :: r) = .ok (vs.map sorted, r) := by
  induction vs generalizing n with
  | nil => exact absurd rfl hne
  | cons v vs ih =>
    have hv := hreads v List.mem_cons_self
    cases vs with
    | nil =>
      simp only [List.map_cons, List.map_nil, commas_singleton] at hn ⊢
      rw [items, hv n _ hn (stops_cons rfl r)]
      simp only [blanks_cons (c := ']') rfl]
    | cons w vs =>
      simp only [List.map_cons, commas_cons_cons, List.length_append, List.length_cons] at hn ⊢
      obtain ⟨m, rfl⟩ : ∃ m, n = m + 1 := Nat.exists_eq_succ_of_ne_zero (by omega)
      have hrest := ih (List.cons_ne_nil w vs) (fun u hu => hexact u (List.mem_cons_of_mem v hu))
        (fun u hu => hreads u (List.mem_cons_of_mem v hu)) (n := m)
        (by rw [List.map_cons]; omega)
      obtain ⟨c, t, hw, hc, -⟩ := exists_head (hexact w (by simp))
      rw [List.append_assoc, List.cons_append, items, hv _ _ (by omega) (stops_cons rfl _)]
      rw [List.map_cons, hw] at hrest
      simp only [hw, blanks_cons (c := ',') rfl, blanks_commas hc, hrest, List.map_cons]

/-- The text of a member. -/
def memberText (p : String × Json) : List Char := quoted p.1 ++ ':' :: compactChars p.2

theorem memberText_eq (p : String × Json) :
    memberText p = '"' :: (p.1.toList.flatMap escape ++ ['"'] ++ ':' :: compactChars p.2) := rfl

theorem compactChars_obj (ms : List (String × Json)) :
    compactChars (.obj ms) = '{' :: commas ((Pairs.sort ms).map memberText) ++ ['}'] := by
  rw [compactChars, compactMembers_eq_map, Pairs.sort_map, List.map_map]
  rfl

/-- A name and what stands behind it, up to the value. -/
theorem memberText_append (p : String × Json) (r : List Char) :
    memberText p ++ r =
      '"' :: (p.1.toList.flatMap escape ++ '"' :: ':' :: (compactChars p.2 ++ r)) := by
  simp [memberText, quoted]

/-- Members are read one by one, up to the brace. -/
theorem members_commas {ms : List (String × Json)} (hne : ms ≠ []) (hexact : ∀ p ∈ ms, Exact p.2)
    (hreads : ∀ p ∈ ms, Reads p.2) {n : Nat} {r : List Char}
    (hn : 2 * (commas (ms.map memberText)).length ≤ n) :
    members (n + 2) (commas (ms.map memberText) ++ '}' :: r) =
      .ok (ms.map fun p => (p.1, sorted p.2), r) := by
  induction ms generalizing n with
  | nil => exact absurd rfl hne
  | cons p ms ih =>
    have hp := hreads p List.mem_cons_self
    have hblanks := blanks_compact (hexact p List.mem_cons_self)
    have hlen : (compactChars p.2).length ≤ (memberText p).length := by
      simp only [memberText, List.length_append, List.length_cons]
      omega
    cases ms with
    | nil =>
      simp only [List.map_cons, List.map_nil, commas_singleton] at hn ⊢
      rw [memberText_append, members, string_escapes]
      simp only [blanks_cons (c := ':') rfl, hblanks]
      rw [hp n _ (by omega) (stops_cons rfl r)]
      simp only [blanks_cons (c := '}') rfl, String.ofList_toList]
    | cons q ms =>
      simp only [List.map_cons, commas_cons_cons, List.length_append, List.length_cons] at hn ⊢
      obtain ⟨m, rfl⟩ : ∃ m, n = m + 1 := Nat.exists_eq_succ_of_ne_zero (by omega)
      have hrest := ih (List.cons_ne_nil q ms) (fun u hu => hexact u (List.mem_cons_of_mem p hu))
        (fun u hu => hreads u (List.mem_cons_of_mem p hu)) (n := m)
        (by rw [List.map_cons]; omega)
      rw [List.append_assoc, memberText_append, members, string_escapes]
      simp only [blanks_cons (c := ':') rfl, hblanks]
      rw [List.cons_append, hp _ _ (by omega) (stops_cons rfl _)]
      rw [List.map_cons, memberText_eq] at hrest
      simp only [memberText_eq q, blanks_cons (c := ',') rfl, blanks_commas (c := '"') rfl, hrest,
        String.ofList_toList, List.map_cons]

/-- Where a numeral stands, a number is read. -/
theorem value_digit {d : Char} (hd : isAsciiDigit d = true) (n : Nat) (r : List Char) :
    value (n + 1) (d :: r) = number (d :: r) := by
  have hd := mem_asciiDigits hd
  simp only [asciiDigits, List.mem_cons, List.not_mem_nil, or_false] at hd
  rcases hd with rfl | rfl | rfl | rfl | rfl | rfl | rfl | rfl | rfl | rfl <;> rfl

theorem value_minus_digit {d : Char} (hd : isAsciiDigit d = true) (n : Nat) (r : List Char) :
    value (n + 1) ('-' :: d :: r) = number ('-' :: d :: r) := by
  have hd := mem_asciiDigits hd
  simp only [asciiDigits, List.mem_cons, List.not_mem_nil, or_false] at hd
  rcases hd with rfl | rfl | rfl | rfl | rfl | rfl | rfl | rfl | rfl | rfl <;> rfl

theorem value_intText (k : Int) (n : Nat) (r : List Char) :
    value (n + 1) (intText k ++ r) = number (intText k ++ r) := by
  obtain ⟨d, ds, -, hdigit, ⟨-, htext⟩ | ⟨-, htext⟩⟩ := intText_cases k
  · rw [htext]
    exact value_minus_digit hdigit n (ds ++ r)
  · rw [htext]
    exact value_digit hdigit n (ds ++ r)

theorem value_bracket {n : Nat} {c : Char} (hc : isSpace c = false) (hne : c ≠ ']') (r : List Char) :
    value (n + 1) ('[' :: c :: r) = (items n (c :: r)).map fun p => (.arr p.1, p.2) := by
  rw [value, blanks_cons hc]
  split
  next t ht => exact absurd (List.cons.inj ht).1 hne
  next =>
    cases items n (c :: r) with
    | ok p => rfl
    | error e => rfl

theorem value_brace {n : Nat} {c : Char} (hc : isSpace c = false) (hne : c ≠ '}') (r : List Char) :
    value (n + 1) ('{' :: c :: r) =
      (members n (c :: r)).map fun p => (.obj (Pairs.ofList p.1), p.2) := by
  rw [value, blanks_cons hc]
  split
  next t ht => exact absurd (List.cons.inj ht).1 hne
  next =>
    cases members n (c :: r) with
    | ok p => rfl
    | error e => rfl

/-- **A written value is read**, with its members in order, and what follows it is left. -/
theorem reads_of_exact {v : Json} (h : Exact v) : Reads v := by
  induction h with
  | null => exact fun n r _ _ => rfl
  | bool b => cases b <;> exact fun n r _ _ => rfl
  | @int k h => exact fun n r _ hr => (value_intText k n r).trans (number_intText h hr)
  | str s =>
    intro n r _ _
    have htext : compactChars (.str s) ++ r = '"' :: (s.toList.flatMap escape ++ '"' :: r) := by
      simp [compactChars, quoted]
    rw [htext, value, string_escapes]
    simp only [String.ofList_toList, sorted]
  | @arr vs h ih =>
    intro n r hn _
    rw [sorted, sortedItems_eq_map]
    rw [compactChars, compactItems_eq_map] at hn ⊢
    cases vs with
    | nil => rfl
    | cons v vs =>
      -- The two brackets pay for the step to the items and for the first step of theirs.
      simp only [List.length_append, List.length_cons, List.length_nil] at hn
      obtain ⟨m, rfl⟩ : ∃ m, n = m + 2 := Nat.exists_eq_add_of_le' (by omega)
      have hitems := items_commas (List.cons_ne_nil v vs) h ih (n := m) (r := r) (by omega)
      obtain ⟨c, t, hv, hc, hne⟩ := exists_head (h v List.mem_cons_self)
      obtain ⟨rest, hrest⟩ := exists_commas_cons c t (vs.map compactChars)
      rw [List.append_assoc, List.cons_append, List.singleton_append]
      rw [List.map_cons, hv, hrest, List.cons_append] at hitems ⊢
      exact (value_bracket hc hne _).trans (by rw [hitems]; rfl)
  | @obj ms hnames h ih =>
    intro n r hn _
    rw [sorted_obj]
    rw [compactChars_obj] at hn ⊢
    -- The reader meets the members in the order in which they are written, that of their names.
    have hmem : ∀ p ∈ Pairs.sort ms, p ∈ ms := fun p hp => Pairs.mem_sort.mp hp
    have hnodup : (((Pairs.sort ms).map fun p => (p.1, sorted p.2)).map (·.1)).Nodup := by
      rw [List.map_map]
      exact Pairs.nodup_sort.mpr hnames
    cases hms : Pairs.sort ms with
    | nil => rfl
    | cons p ps =>
      rw [hms] at hn hmem hnodup
      simp only [List.length_append, List.length_cons, List.length_nil] at hn
      obtain ⟨m, rfl⟩ : ∃ m, n = m + 2 := Nat.exists_eq_add_of_le' (by omega)
      have hmembers := members_commas (List.cons_ne_nil p ps) (fun q hq => h q (hmem q hq))
        (fun q hq => ih q (hmem q hq)) (n := m) (r := r) (by omega)
      obtain ⟨rest, hrest⟩ := exists_commas_cons '"' _ (ps.map memberText)
      rw [List.append_assoc, List.cons_append, List.singleton_append]
      rw [List.map_cons, memberText_eq, hrest, List.cons_append] at hmembers ⊢
      refine (value_brace (by decide) (by decide) _).trans ?_
      rw [hmembers]
      simp only [Except.map, Pairs.ofList_of_nodup hnodup]

/-! ## Plain texts -/

/-- Nothing but plain characters. -/
def Plain (s : List Char) : Prop := ∀ c ∈ s, isPlain c = true

theorem plain_append {s r : List Char} (hs : Plain s) (hr : Plain r) : Plain (s ++ r) :=
  fun c hc => (List.mem_append.mp hc).elim (hs c) (hr c)

theorem plain_cons {c : Char} {s : List Char} (hc : isPlain c = true) (hs : Plain s) :
    Plain (c :: s) :=
  List.forall_mem_cons.mpr ⟨hc, hs⟩

theorem plain_nil : Plain [] := fun _ hc => absurd hc List.not_mem_nil

theorem plain_unitEscape (u : Nat) : Plain (unitEscape u) := by
  have hdigit : ∀ k, isPlain (hexDigit (k % 16)) = true := fun k =>
    have hall : ∀ m ∈ List.range 16, isPlain (hexDigit m) = true := by decide
    hall (k % 16) (List.mem_range.mpr (Nat.mod_lt k (by decide)))
  exact plain_cons rfl <| plain_cons rfl <| plain_cons (hdigit _) <| plain_cons (hdigit _) <|
    plain_cons (hdigit _) <| plain_cons (hdigit _) plain_nil

theorem plain_escape (c : Char) : Plain (escape c) := by
  rcases escape_cases c with ⟨he, -, -, hplain⟩ | ⟨e, he, -, -, hplain⟩ | ⟨he, -⟩ | ⟨he, -⟩ <;> rw [he]
  · exact plain_cons hplain plain_nil
  · exact plain_cons rfl (plain_cons hplain plain_nil)
  · exact plain_unitEscape _
  · exact plain_append (plain_unitEscape _) (plain_unitEscape _)

theorem plain_quoted (s : String) : Plain (quoted s) := by
  refine plain_append (plain_cons rfl fun c hc => ?_) (plain_cons rfl plain_nil)
  obtain ⟨d, -, hc⟩ := List.mem_flatMap.mp hc
  exact plain_escape d c hc

theorem plain_digits (n : Nat) : Plain (Numeral.digits n) := fun _ hc =>
  of_isAsciiDigit (Numeral.isAsciiDigit_of_mem_digits hc) isPlain (by decide)

theorem plain_commas {ts : List (List Char)} (h : ∀ t ∈ ts, Plain t) : Plain (commas ts) := by
  induction ts with
  | nil => exact plain_nil
  | cons t ts ih =>
    have ht := h t List.mem_cons_self
    have hts := ih fun u hu => h u (List.mem_cons_of_mem t hu)
    cases ts with
    | nil => rwa [commas_singleton]
    | cons u ts =>
      rw [commas_cons_cons]
      exact plain_append ht (plain_cons rfl hts)

/-- **A written value is plain**: no line ends in it, and no character beyond ASCII. -/
theorem plain_compact {v : Json} (h : Exact v) : Plain (compactChars v) := by
  induction h with
  | null => exact List.all_eq_true.mp rfl
  | bool b => cases b <;> exact List.all_eq_true.mp rfl
  | @int n h =>
    rw [compactChars, numberText, intText]
    split
    · exact plain_cons rfl (plain_digits _)
    · exact plain_digits _
  | str s => exact plain_quoted s
  | @arr vs h ih =>
    rw [compactChars, compactItems_eq_map]
    refine plain_append (plain_cons rfl (plain_commas fun t ht => ?_)) (plain_cons rfl plain_nil)
    obtain ⟨v, hv, rfl⟩ := List.mem_map.mp ht
    exact ih v hv
  | @obj ms hnames h ih =>
    rw [compactChars_obj]
    refine plain_append (plain_cons rfl (plain_commas fun t ht => ?_)) (plain_cons rfl plain_nil)
    obtain ⟨p, hp, rfl⟩ := List.mem_map.mp ht
    exact plain_append (plain_quoted p.1) (plain_cons rfl (ih p (Pairs.mem_sort.mp hp)))

/-! ## Whole texts -/

/-- **What `compact` writes, `parse` reads**, with the members in order. -/
theorem parse_compact {v : Json} (h : Exact v) : parse (compact v) = .ok v.sorted := by
  have hvalue := reads_of_exact h (2 * (compactChars v).length) [] (Nat.le_refl _) (stops_nil _)
  have hblanks := blanks_compact h []
  rw [List.append_nil] at hvalue hblanks
  have hwhole : whole (compactChars v) = .ok v.sorted := by
    rw [whole, hblanks, hvalue]
    rfl
  rw [parse, compact, String.toList_ofList]
  split
  next r hr =>
    have hmark := plain_compact h '\ufeff' (hr ▸ List.mem_cons_self)
    exact absurd hmark (by decide)
  next => rw [parseChars, hwhole]

end LockAudit.Json
