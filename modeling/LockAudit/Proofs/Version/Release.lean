import LockAudit.Decimal
import LockAudit.Proofs.Text.Pieces
import LockAudit.Version.Reader

/-!
# `LockAudit.Proofs.Version.Release` — releases, written, read and compared

A release is a row of numbers. Written with points between its numbers it reads back, as an installed
version and as the bound of a range, and releases of one length are ordered as their rows are.

* `Numeral.value_digits`, `Numeral.digits_value` — numbers read back, and so do rows of digits without
  zeros in front; `Numeral.value_lt_tenTo` — how much a row of digits denotes at most.
* `parse_points`, `parseInstalled_points`, `ofSemantic_release` — reading a release;
  `parseInstalled_points_append` — and one with a suffix, which is respelled.
* `order_ofRelease` — the zeros at the end of a release do not count, but among releases of one length
  that makes no difference.
-/

namespace LockAudit

open LockAudit.Text

/-! ## Numerals -/

namespace Numeral

theorem isAsciiDigit_of_mem_digits {n : Nat} {c : Char} (h : c ∈ digits n) :
    isAsciiDigit c = true := by
  have hd : c.isDigit = true := Nat.isDigit_of_mem_toDigits (by decide) (by decide) h
  simp only [Char.isDigit, Bool.and_eq_true, decide_eq_true_eq] at hd
  simp only [isAsciiDigit, Bool.and_eq_true, decide_eq_true_eq]
  exact hd

theorem digits_ne_nil (n : Nat) : digits n ≠ [] := Nat.toDigits_ne_nil

/-- A positive number does not begin with a zero. -/
theorem head?_digits {n : Nat} (h : 0 < n) : (digits n).head? ≠ some '0' := by
  induction n using Nat.strongRecOn with
  | ind n ih =>
    rcases Nat.lt_or_ge n 10 with hlt | hle
    · have hall : ∀ m ∈ List.range' 1 9, (Nat.toDigits 10 m).head? ≠ some '0' := by decide
      exact hall n (by rw [List.mem_range'_1]; omega)
    · have hrest := ih (n / 10) (by omega) (by omega)
      obtain ⟨d, ds, hds⟩ := List.exists_cons_of_ne_nil (digits_ne_nil (n / 10))
      rw [hds] at hrest
      rw [digits, Nat.toDigits_of_base_le (by decide) hle]
      rw [digits] at hds
      rw [hds]
      exact hrest

/-- Over ASCII digits, the digits of all scripts are read as usual. -/
theorem foldl_value {ds : List Char} (h : ∀ c ∈ ds, isAsciiDigit c = true) (init : Nat) :
    ds.foldl (fun n c => 10 * n + (digitValue? c).getD 0) init = Nat.ofDigitChars 10 ds init := by
  induction ds generalizing init with
  | nil => rfl
  | cons c ds ih =>
    have hc := digitValue?_of_ascii (h c List.mem_cons_self)
    rw [List.foldl_cons, hc, ih fun x hx => h x (List.mem_cons_of_mem c hx), Nat.ofDigitChars_cons]
    rfl

/-- A number reads back. -/
@[simp] theorem value_digits (n : Nat) : value (digits n) = n := by
  unfold value
  rw [foldl_value (fun c hc => isAsciiDigit_of_mem_digits hc)]
  exact Nat.ofDigitChars_ten_toDigits

@[simp] theorem map_value_digits (ns : List Nat) : (ns.map digits).map value = ns := by
  rw [List.map_map]
  exact (List.map_congr_left fun n _ => value_digits n).trans (List.map_id ns)

theorem digitChar_of_isAsciiDigit {c : Char} (h : isAsciiDigit c = true) :
    Nat.digitChar (c.toNat - 48) = c := by
  simpa using of_isAsciiDigit h (fun c => Nat.digitChar (c.toNat - 48) == c) (by decide)

/-- Digits behind a number that is not zero extend its numeral. -/
theorem digits_ofDigitChars {ds : List Char} (h : ∀ c ∈ ds, isAsciiDigit c = true) {n : Nat}
    (hn : 0 < n) : digits (Nat.ofDigitChars 10 ds n) = digits n ++ ds := by
  induction ds generalizing n with
  | nil => simp
  | cons c ds ih =>
    have hc := h c List.mem_cons_self
    have hds : ∀ x ∈ ds, isAsciiDigit x = true := fun x hx => h x (List.mem_cons_of_mem c hx)
    have hlt : c.toNat - '0'.toNat < 10 := by
      have hle := (toNat_of_isAsciiDigit hc).2
      have hzero : '0'.toNat = 48 := rfl
      omega
    have hlast : digits (c.toNat - '0'.toNat) = [c] := by
      rw [digits, Nat.toDigits_of_lt_base hlt]
      exact congrArg (fun d => [d]) (digitChar_of_isAsciiDigit hc)
    calc digits (Nat.ofDigitChars 10 (c :: ds) n)
        = digits (10 * n + (c.toNat - '0'.toNat)) ++ ds := by
          rw [Nat.ofDigitChars_cons, ih hds (by omega)]
      _ = (digits n ++ digits (c.toNat - '0'.toNat)) ++ ds := by
          rw [digits, ← Nat.toDigits_append_toDigits (by decide) hn hlt]
          rfl
      _ = digits n ++ c :: ds := by rw [hlast, List.append_assoc, List.singleton_append]

/-- A row of digits that does not begin with zero is the numeral of the number it denotes. -/
theorem digits_value {c : Char} {ds : List Char} (h : ∀ x ∈ c :: ds, isAsciiDigit x = true)
    (hc : c ≠ '0') : digits (value (c :: ds)) = c :: ds := by
  have hascii := h c List.mem_cons_self
  have hds : ∀ x ∈ ds, isAsciiDigit x = true := fun x hx => h x (List.mem_cons_of_mem c hx)
  have hpos : 0 < c.toNat - 48 := by
    have hle := (toNat_of_isAsciiDigit hascii).1
    have hne : c.toNat ≠ 48 := fun he => hc (Char.toNat_inj.mp he)
    omega
  have hlt : c.toNat - 48 < 10 := by
    have hle := (toNat_of_isAsciiDigit hascii).2
    omega
  have hvalue : value (c :: ds) = Nat.ofDigitChars 10 ds (c.toNat - 48) := by
    rw [value, foldl_value h, Nat.ofDigitChars_cons, Nat.mul_zero, Nat.zero_add]
    rfl
  rw [hvalue, digits_ofDigitChars hds hpos, digits, Nat.toDigits_of_lt_base hlt,
    digitChar_of_isAsciiDigit hascii, List.singleton_append]

/-- So many digits denote less than that power of ten. -/
theorem value_lt_tenTo (ds : List Char) : value ds < tenTo ds.length := by
  have hdigit : ∀ c, (digitValue? c).getD 0 ≤ 9 := by
    intro c
    cases h : digitValue? c with
    | none => exact Nat.zero_le 9
    | some n => exact digitValue?_le h
  have key : ∀ init, ds.foldl (fun n c => 10 * n + (digitValue? c).getD 0) init
      < tenTo ds.length * (init + 1) := by
    induction ds with
    | nil => intro init; simp
    | cons c ds ih =>
      intro init
      have hc := hdigit c
      have ih := ih (10 * init + (digitValue? c).getD 0)
      rw [List.foldl_cons, List.length_cons, tenTo_succ]
      have hle : 10 * init + (digitValue? c).getD 0 + 1 ≤ 10 * (init + 1) := by omega
      calc _ < tenTo ds.length * (10 * init + (digitValue? c).getD 0 + 1) := ih
        _ ≤ tenTo ds.length * (10 * (init + 1)) := Nat.mul_le_mul_left _ hle
        _ = tenTo ds.length * 10 * (init + 1) := (Nat.mul_assoc _ _ _).symm
  unfold value
  simpa using key 0

/-- A number below a power of ten within the limit can be written. -/
theorem writable_of_lt {n k : Nat} (h : n < tenTo k) (hk : 0 < k) (hle : k ≤ maxDigits) :
    writable n = true := by
  have hlen : (digits n).length ≤ k := (Nat.length_toDigits_le_iff (by decide) hk).mpr h
  simpa [writable] using Nat.le_trans hlen hle

/-- And what can be written is below the power of ten that the limit gives. -/
theorem lt_of_writable {n : Nat} (h : writable n = true) : n < tenTo maxDigits := by
  have hpow : ∀ k, 0 < k → (digits n).length ≤ k → n < tenTo k :=
    fun k hk hlen => (Nat.length_toDigits_le_iff (by decide) hk).mp hlen
  exact hpow maxDigits (by decide) (of_decide_eq_true h)

end Numeral

/-! ## Reading -/

namespace Version

/-- Texts with points between them, the first of them set apart. -/
theorem points_cons (w : List Char) (ws : List (List Char)) :
    points (w :: ws) = w ++ ws.flatMap (fun x => '.' :: x) := by
  unfold points
  induction ws generalizing w with
  | nil => simp [List.intercalate]
  | cons x ws ih =>
    have := ih x
    simp only [List.intercalate, List.intersperse] at this ⊢
    simp [this]

/-- A row of numbers is followed by something that continues neither its last number nor the row. -/
def EndsNumbers (p : Char → Bool) (r : List Char) : Prop := Stops p r ∧ Stops (· == '.') r

/-- A row of texts that each follow a point begins with a point, or the rest begins at once. -/
theorem stops_pointed {α : Type} {p : Char → Bool} (hp : p '.' = false) (f : α → List Char)
    (xs : List α) {r : List Char} (hr : Stops p r) :
    Stops p (xs.flatMap (fun x => '.' :: f x) ++ r) := by
  cases xs with
  | nil => exact hr
  | cons x xs => exact stops_cons hp _

theorem endsNumbers_nil (p : Char → Bool) : EndsNumbers p [] := ⟨stops_nil _, stops_nil _⟩

/-- A text that begins with a hyphen or a plus, or not at all, ends a row of numbers. -/
theorem endsNumbers_of_sign {s : List Char} (h : ∀ c, s.head? = some c → c = '-' ∨ c = '+') :
    EndsNumbers isDigit s := by
  constructor
  · intro c hc
    rcases h c hc with rfl | rfl <;> decide
  · intro c hc
    rcases h c hc with rfl | rfl <;> decide

theorem moreNumbers_points {p : Char → Bool} (hp : p '.' = false) {ds : List (List Char)}
    (hds : ∀ d ∈ ds, d ≠ [] ∧ ∀ c ∈ d, p c = true) {r : List Char} (hr : EndsNumbers p r) :
    moreNumbers p (ds.flatMap (fun x => '.' :: x) ++ r) = (ds, r) := by
  induction ds with
  | nil =>
    rw [List.flatMap_nil, List.nil_append, moreNumbers.eq_def]
    cases r with
    | nil => rfl
    | cons c r =>
      have hc : c ≠ '.' := by simpa using hr.2 c rfl
      split
      · next h => exact absurd (List.cons.inj h).1 hc
      · rfl
  | cons d ds ih =>
    obtain ⟨hne, hd⟩ := hds d List.mem_cons_self
    have ih := ih fun x hx => hds x (List.mem_cons_of_mem d hx)
    have hstop : Stops p (ds.flatMap (fun x => '.' :: x) ++ r) := stops_pointed hp id ds hr.1
    rw [List.flatMap_cons, List.cons_append, List.cons_append, List.append_assoc, moreNumbers,
      takeWhile_append_stop hd hstop, dropWhile_append_stop hd hstop, ih]
    simp [hne]

/-- A row of numbers with points between them is read as that row. -/
theorem numbers?_points {p : Char → Bool} (hp : p '.' = false) {ds : List (List Char)}
    (hne : ds ≠ []) (hds : ∀ d ∈ ds, d ≠ [] ∧ ∀ c ∈ d, p c = true) {r : List Char}
    (hr : EndsNumbers p r) : numbers? p (points ds ++ r) = some (ds, r) := by
  obtain ⟨d, ds, rfl⟩ := List.exists_cons_of_ne_nil hne
  obtain ⟨hdne, hd⟩ := hds d List.mem_cons_self
  have hmore := moreNumbers_points hp (fun x hx => hds x (List.mem_cons_of_mem d hx)) hr
  have hstop : Stops p (ds.flatMap (fun x => '.' :: x) ++ r) := stops_pointed hp id ds hr.1
  rw [points_cons, List.append_assoc, numbers?, takeWhile_append_stop hd hstop,
    dropWhile_append_stop hd hstop, hmore]
  simp [hdne]

/-- A row of ASCII digits within the limit. -/
def IsNumeral (d : List Char) : Prop :=
  (d ≠ [] ∧ ∀ c ∈ d, isAsciiDigit c = true) ∧ d.length ≤ Numeral.maxDigits

theorem isNumeral_digits {n : Nat} (h : Numeral.writable n = true) : IsNumeral (Numeral.digits n) :=
  ⟨⟨Numeral.digits_ne_nil n, fun _ hc => Numeral.isAsciiDigit_of_mem_digits hc⟩,
    by simpa [Numeral.writable] using h⟩

theorem isNumeral_of_mem_digits {ns : List Nat} (h : ∀ n ∈ ns, Numeral.writable n = true) :
    ∀ d ∈ ns.map Numeral.digits, IsNumeral d := by
  intro d hd
  obtain ⟨n, hn, rfl⟩ := List.mem_map.mp hd
  exact isNumeral_digits (h n hn)

theorem number_of_length_le {d : List Char} (h : d.length ≤ Numeral.maxDigits) :
    number d = .ok (Numeral.value d) := by
  rw [number, Numeral.read_ok_iff.mpr ⟨h, rfl⟩]

theorem mapM_number {ds : List (List Char)} (h : ∀ d ∈ ds, IsNumeral d) :
    ds.mapM number = .ok (ds.map Numeral.value) := by
  induction ds with
  | nil => rfl
  | cons d ds ih =>
    have hd := number_of_length_le (h d List.mem_cons_self).2
    rw [List.mapM_cons, hd, ih fun x hx => h x (List.mem_cons_of_mem d hx)]
    rfl

variable {ds : List (List Char)}

/-- Texts with points between them hold their own characters and points. -/
theorem mem_points_cases {ws : List (List Char)} {c : Char} (h : c ∈ points ws) :
    c = '.' ∨ ∃ w ∈ ws, c ∈ w := by
  cases ws with
  | nil => simp [points, List.intercalate] at h
  | cons w ws =>
    rw [points_cons, List.mem_append, List.mem_flatMap] at h
    rcases h with h | ⟨x, hx, h⟩
    · exact .inr ⟨w, List.mem_cons_self, h⟩
    · rcases List.mem_cons.mp h with rfl | h
      · exact .inl rfl
      · exact .inr ⟨x, List.mem_cons_of_mem w hx, h⟩

section
variable (h : ∀ d ∈ ds, d ≠ [] ∧ ∀ c ∈ d, isAsciiDigit c = true)
include h

/-- Every character of a written release is a digit or a point. -/
theorem mem_points {c : Char} (hc : c ∈ points ds) : isAsciiDigit c = true ∨ c = '.' := by
  rcases mem_points_cases hc with rfl | ⟨d, hd, hc⟩
  · exact .inr rfl
  · exact .inl ((h d hd).2 c hc)

theorem not_blank_of_mem_points : ∀ c ∈ points ds, isBlank c = false := by
  intro c hc
  rcases mem_points h hc with hd | rfl
  · exact isBlank_of_isAsciiDigit hd
  · rfl

/-- A written release begins with a digit. -/
theorem exists_head_points (hne : ds ≠ []) : ∃ c r, points ds = c :: r ∧ isAsciiDigit c = true := by
  obtain ⟨d, ds, rfl⟩ := List.exists_cons_of_ne_nil hne
  have hd := h d List.mem_cons_self
  obtain ⟨c, d, rfl⟩ := List.exists_cons_of_ne_nil hd.1
  exact ⟨c, _, by rw [points_cons, List.cons_append], hd.2 c List.mem_cons_self⟩

/-- What follows the first number of a release is the next one behind its point, or the rest. -/
theorem dropWhile_points (hne : ds ≠ []) {m : List Char} (hm : Stops isAsciiDigit m) :
    (points ds ++ m).dropWhile isAsciiDigit = ds.tail.flatMap (fun x => '.' :: x) ++ m := by
  obtain ⟨d, ds, rfl⟩ := List.exists_cons_of_ne_nil hne
  have hstop : Stops isAsciiDigit (ds.flatMap (fun x => '.' :: x) ++ m) := stops_pointed (by decide) id ds hm
  rw [points_cons, List.append_assoc, dropWhile_append_stop (h d List.mem_cons_self).2 hstop, List.tail_cons]

/-- A release does not begin with a letter that could be dropped. -/
theorem afterWord?_points (hne : ds ≠ []) (m : List Char) :
    (afterWord? ['v'] (points ds ++ m)).getD (points ds ++ m) = points ds ++ m := by
  obtain ⟨c, r, hcr, hc⟩ := exists_head_points h hne
  have hlow : c.toLower ≠ 'v' := by
    simpa using of_isAsciiDigit hc (fun c => c.toLower != 'v') (by decide)
  simp [hcr, afterWord?, hlow]

theorem trim_points_append {m : List Char} (hm : ∀ c ∈ m, isBlank c = false) :
    trim (points ds ++ m) = points ds ++ m :=
  (tight_of_all (List.forall_mem_append.mpr ⟨not_blank_of_mem_points h, hm⟩)).trim

end

/-- The parts of a written release: its numbers, and nothing else. -/
theorem parse?_points (hne : ds ≠ []) (h : ∀ d ∈ ds, IsNumeral d) :
    Draft.parse? (points ds) = some ⟨[], ds, none, none, none, []⟩ := by
  have hdigits := fun d hd => (h d hd).1
  have htrim : trim (points ds) = points ds := (tight_of_all (not_blank_of_mem_points hdigits)).trim
  have hv : (afterWord? ['v'] (points ds)).getD (points ds) = points ds := by
    simpa using afterWord?_points hdigits hne []
  have hdrop : (points ds).dropWhile isAsciiDigit = ds.tail.flatMap (fun x => '.' :: x) := by
    simpa using dropWhile_points hdigits hne (stops_nil isAsciiDigit)
  have hnum : numbers? isAsciiDigit (points ds) = some (ds, []) := by
    simpa using numbers?_points (by decide) hne hdigits (endsNumbers_nil _)
  have hphase : marker? phaseWords [] = none := rfl
  have hrevision : revision? [] = none := rfl
  have hdevelopment : marker? [("dev", ())] [] = none := rfl
  unfold Draft.parse?
  simp only [htrim, hv, hdrop]
  -- What follows the first number is a point or nothing, so there is no epoch.
  cases ds.tail with
  | nil => simp [hnum, hphase, hrevision, hdevelopment, label?]
  | cons e es => simp [hnum, hphase, hrevision, hdevelopment, label?]

/-- **A written release reads back.** -/
theorem parse_points (hne : ds ≠ []) (h : ∀ d ∈ ds, IsNumeral d) :
    parse (points ds) = .ok (ofRelease (ds.map Numeral.value)) := by
  rw [parse, parse?_points hne h]
  show Draft.version _ = _
  unfold Draft.version
  rw [mapM_number h]
  rfl

/-- **An installed version is read as its numbers and a respelled suffix.** -/
theorem parseInstalled_points_append (hne : ds ≠ []) (h : ∀ d ∈ ds, d ≠ [] ∧ ∀ c ∈ d, isAsciiDigit c = true)
    {m : List Char} (hsign : ∀ c, m.head? = some c → c = '-' ∨ c = '+') (hblank : ∀ c ∈ m, isBlank c = false) :
    parseInstalled (points ds ++ m) = parse (points ds ++ markers m) := by
  have htrim := trim_points_append h hblank
  have hdrop : (points ds ++ m).dropWhile (fun c => c == 'v' || c == '=') = points ds ++ m := by
    obtain ⟨c, r, hcr, hc⟩ := exists_head_points h hne
    rw [hcr]
    have hsign := of_isAsciiDigit hc (fun c => !(c == 'v' || c == '=')) (by decide)
    exact (stops_cons (by simpa using hsign) (r ++ m)).dropWhile
  have hnum : numbers? isDigit (points ds ++ m) = some (ds, m) := by
    have hds : ∀ d ∈ ds, d ≠ [] ∧ ∀ c ∈ d, isDigit c = true := fun d hd =>
      ⟨(h d hd).1, fun c hc => isDigit_of_isAsciiDigit ((h d hd).2 c hc)⟩
    exact numbers?_points (by decide) hne hds (endsNumbers_of_sign hsign)
  have hline : m.contains '\n' = false := by
    rw [← Bool.not_eq_true, List.contains_iff_mem]
    exact fun hmem => absurd (hblank _ hmem) (by decide)
  have htake : (points ds ++ m).take ((points ds ++ m).length - m.length) = points ds := by
    rw [List.length_append, Nat.add_sub_cancel, List.take_left]
  unfold parseInstalled
  simp only [htrim, hdrop, hnum, hline, htake]
  rfl

/-- A written release is read as the installed version that it is. -/
theorem parseInstalled_points (hne : ds ≠ []) (h : ∀ d ∈ ds, IsNumeral d) :
    parseInstalled (points ds) = .ok (ofRelease (ds.map Numeral.value)) := by
  have hmarkers : markers [] = [] := rfl
  have hread := parseInstalled_points_append hne (fun d hd => (h d hd).1) (m := []) nofun nofun
  rwa [hmarkers, List.append_nil, parse_points hne h] at hread

/-- The bound that a row of numbers sets. -/
theorem ofSemantic_release {ns : List Nat} (hne : ns ≠ [])
    (h : ∀ n ∈ ns, Numeral.writable n = true) : ofSemantic ns [] = .ok (ofRelease ns) := by
  have hall : ns.all Numeral.writable = true := List.all_eq_true.mpr h
  have hmarkers : markers [] = [] := rfl
  rw [ofSemantic, if_pos hall, hmarkers, List.append_nil,
    parse_points (by simpa using hne) (isNumeral_of_mem_digits h), Numeral.map_value_digits]

/-! ## Comparing -/

theorem significant_nil : significant [] = [] := rfl

/-- A number is dropped exactly if it is zero and nothing that counts follows. -/
theorem significant_cons (n : Nat) (ns : List Nat) :
    significant (n :: ns) = if significant ns = [] ∧ n = 0 then [] else n :: significant ns := by
  unfold significant
  rw [List.reverse_cons, List.dropWhile_append]
  cases h : ns.reverse.dropWhile (· == 0) with
  | nil => by_cases hn : n = 0 <;> simp [hn]
  | cons m ms => simp

theorem compare_nil_of_ne {ns : List Nat} (h : ns ≠ []) : compare [] ns = .lt := by
  obtain ⟨n, ns, rfl⟩ := List.exists_cons_of_ne_nil h
  rfl

theorem compare_of_ne_nil {ns : List Nat} (h : ns ≠ []) : compare ns [] = .gt := by
  obtain ⟨n, ns, rfl⟩ := List.exists_cons_of_ne_nil h
  rfl

theorem compare_zero_of_ne {n : Nat} (h : n ≠ 0) : compare 0 n = .lt :=
  Nat.compare_eq_lt.mpr (Nat.pos_of_ne_zero h)

theorem compare_of_ne_zero {n : Nat} (h : n ≠ 0) : compare n 0 = .gt :=
  Nat.compare_eq_gt.mpr (Nat.pos_of_ne_zero h)

/-- The zeros at the end make no difference between releases of one length. -/
theorem compare_significant {ms ns : List Nat} (h : ms.length = ns.length) :
    compare (significant ms) (significant ns) = compare ms ns := by
  induction ms generalizing ns with
  | nil => rw [List.eq_nil_of_length_eq_zero h.symm, significant_nil]
  | cons m ms ih =>
    cases ns with
    | nil => cases h
    | cons n ns =>
      rw [significant_cons, significant_cons, List.compare_cons_cons, ← ih (Nat.succ.inj h)]
      -- Each first number is dropped or kept. If only one is dropped, it is a zero before numbers that do
      -- not count, so the other row is the greater one either way.
      by_cases hm : significant ms = [] ∧ m = 0
      · by_cases hn : significant ns = [] ∧ n = 0
        · simp [hm, hn]
        · rw [if_pos hm, if_neg hn, hm.1, hm.2, List.compare_nil_cons]
          by_cases hz : n = 0
          · have hne : significant ns ≠ [] := fun he => hn ⟨he, hz⟩
            rw [hz, compare_nil_of_ne hne]
            rfl
          · rw [compare_zero_of_ne hz]
            rfl
      · by_cases hn : significant ns = [] ∧ n = 0
        · rw [if_neg hm, if_pos hn, hn.1, hn.2, List.compare_cons_nil]
          by_cases hz : m = 0
          · have hne : significant ms ≠ [] := fun he => hm ⟨he, hz⟩
            rw [hz, compare_of_ne_nil hne]
            rfl
          · rw [compare_of_ne_zero hz]
            rfl
        · rw [if_neg hm, if_neg hn, List.compare_cons_cons]

/-- **Releases of one length are ordered as their rows of numbers.** -/
theorem order_ofRelease {ms ns : List Nat} (h : ms.length = ns.length) :
    (ofRelease ms).order (ofRelease ns) = compare ms ns := by
  have hkey : ∀ r, (ofRelease r).key = [[0], significant r, [4], [0], [1]] := fun _ => rfl
  have hlast : compare [[4], [0], [1]] [[4], [0], [1]] = .eq := by decide
  unfold order
  have hfirst : compare [0] [0] = .eq := by decide
  rw [hkey, hkey, List.compare_cons_cons, hfirst, Ordering.eq_then,
    List.compare_cons_cons (x := significant ms) (y := significant ns), compare_significant h, hlast,
    Ordering.then_eq]

theorem compare_eq_lt_iff {ms ns : List Nat} : compare ms ns = .lt ↔ ms < ns := by
  induction ms generalizing ns with
  | nil => cases ns <;> simp
  | cons m ms ih =>
    cases ns with
    | nil => simp
    | cons n ns =>
      rw [List.compare_cons_cons, List.cons_lt_cons_iff, Ordering.then_eq_lt, ih, Nat.compare_eq_lt,
        Nat.compare_eq_eq]

theorem compare_eq_gt_iff {ms ns : List Nat} : compare ms ns = .gt ↔ ns < ms := by
  rw [Std.OrientedCmp.gt_iff_lt, compare_eq_lt_iff]

end Version

end LockAudit
