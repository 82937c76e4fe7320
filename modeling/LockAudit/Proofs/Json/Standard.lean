import LockAudit.Proofs.Binary64.Text
import LockAudit.Proofs.Json.Grammar
import LockAudit.Proofs.Json.Numbers

/-!
# `LockAudit.Proofs.Json.Standard` — when a written text is standard

Whatever a value is, both layouts write it in the grammar of the JSON standard, except for the binary64
values that the standard has no text for: the infinities and the value that is no number. Their words
stand outside strings, so a text with one of them is not of the standard.

* `isNumber_numberText` — a finite number is written as the standard writes numbers.
* `standard_compact_iff`, `standard_indented_iff` — a text is standard exactly if all numbers in the value
  are finite, at any depth.
-/

namespace LockAudit

/-- An integer, or a binary64 value that is neither infinite nor no number. -/
def Number.IsFinite : Number → Prop
  | .int _ => True
  | .float x => x.isSpecial = false

namespace Json

open LockAudit.Text

/-- All numbers in a value are finite, at any depth. -/
def AllFinite (v : Json) : Prop := ∀ n, v.HasNumber n → n.IsFinite

section

variable {n : Number} {vs : List Json} {ms : List (String × Json)}

@[simp] theorem allFinite_null : Json.null.AllFinite := nofun

@[simp] theorem allFinite_bool (b : Bool) : (Json.bool b).AllFinite := nofun

@[simp] theorem allFinite_str (s : String) : (Json.str s).AllFinite := nofun

@[simp] theorem allFinite_num_iff : (Json.num n).AllFinite ↔ n.IsFinite := by
  simp [AllFinite]

@[simp] theorem allFinite_arr_iff : (Json.arr vs).AllFinite ↔ ∀ v ∈ vs, v.AllFinite :=
  ⟨fun h _ hv n hn => h n (.item hv hn), fun h n hn => by
    obtain ⟨v, hv, hn⟩ := hasNumber_arr_iff.mp hn
    exact h v hv n hn⟩

@[simp] theorem allFinite_obj_iff : (Json.obj ms).AllFinite ↔ ∀ p ∈ ms, p.2.AllFinite :=
  ⟨fun h _ hp n hn => h n (.member hp hn), fun h n hn => by
    obtain ⟨p, hp, hn⟩ := hasNumber_obj_iff.mp hn
    exact h p hp n hn⟩

end

/-! ## Numbers -/

theorem isDigits_digits (n : Nat) : IsDigits (Numeral.digits n) :=
  ⟨Numeral.digits_ne_nil n, fun _ hc => Numeral.isAsciiDigit_of_mem_digits hc⟩

theorem isWhole_digits (n : Nat) : IsWhole (Numeral.digits n) := by
  refine ⟨isDigits_digits n, fun hzero => ?_⟩
  rcases Nat.eq_zero_or_pos n with rfl | hpos
  · rfl
  · exact absurd hzero (Numeral.head?_digits hpos)

theorem IsDigits.append {ds es : List Char} (hds : ∀ c ∈ ds, isAsciiDigit c = true) (hes : IsDigits es) :
    IsDigits (ds ++ es) :=
  ⟨List.append_ne_nil_of_right_ne_nil ds hes.1, List.forall_mem_append.mpr ⟨hds, hes.2⟩⟩

/-- Zeros are digits. -/
theorem isAsciiDigit_of_mem_replicate {n : Nat} {c : Char} (h : c ∈ List.replicate n '0') :
    isAsciiDigit c = true :=
  List.eq_of_mem_replicate h ▸ rfl

theorem isNumber_intText (n : Int) : IsNumber (intText n) := by
  unfold intText
  split
  · exact ⟨['-'], _, [], [], .inr rfl, isWhole_digits n.natAbs, .inl rfl, .inl rfl, by simp [Numeral.digits]⟩
  · exact ⟨[], _, [], [], .inl rfl, isWhole_digits n.natAbs, .inl rfl, .inl rfl, by simp [Numeral.digits]⟩

/-- A number without its sign. -/
def IsUnsigned (s : List Char) : Prop :=
  ∃ whole places exponent, IsWhole whole ∧ IsPlaces places ∧ IsExponent exponent ∧
    s = whole ++ (places ++ exponent)

theorem IsUnsigned.signed {s : List Char} (h : IsUnsigned s) (x : Binary64) : IsNumber (x.sign ++ s) := by
  obtain ⟨whole, places, exponent, hwhole, hplaces, hexponent, rfl⟩ := h
  refine ⟨x.sign, whole, places, exponent, ?_, hwhole, hplaces, hexponent, rfl⟩
  unfold Binary64.sign
  split
  · exact .inr rfl
  · exact .inl rfl

/-- Positional digits are a number if the digits do not begin with a zero that another digit would
    follow. -/
theorem isUnsigned_positional {ds : List Char} (hds : IsDigits ds) {point : Int}
    (hzero : ds.head? = some '0' → ds = ['0'] ∧ point = 1) :
    IsUnsigned (Binary64.positional ds point) := by
  unfold Binary64.positional
  split
  · refine ⟨['0'], '.' :: (List.replicate (-point).toNat '0' ++ ds), [], isWhole_digits 0, .inr ⟨_, ?_, rfl⟩,
      .inl rfl, by simp⟩
    exact hds.append fun c hc => isAsciiDigit_of_mem_replicate hc
  · next hpoint =>
    obtain ⟨d, ds, rfl⟩ := List.exists_cons_of_ne_nil hds.1
    obtain ⟨n, hn⟩ : ∃ n, point.toNat = n + 1 := Nat.exists_eq_succ_of_ne_zero (by omega)
    dsimp only
    rw [hn]
    refine ⟨_, _, [], ?_, .inr ⟨_, ?_, rfl⟩, .inl rfl, by rw [List.append_nil]⟩
    · refine ⟨⟨by simp, fun c hc => ?_⟩, fun hhead => ?_⟩
      · rcases List.mem_append.mp hc with hc | hc
        · exact hds.2 c (List.mem_of_mem_take hc)
        · exact isAsciiDigit_of_mem_replicate hc
      · rw [List.take_succ_cons, List.cons_append, List.head?_cons] at hhead
        obtain ⟨hone, rfl⟩ := hzero hhead
        obtain ⟨rfl, rfl⟩ := List.cons.inj hone
        obtain rfl : n = 0 := (Nat.succ.inj hn).symm
        rfl
    · split
      · exact isDigits_digits 0
      · next hlong =>
        refine ⟨?_, fun c hc => hds.2 c (List.mem_of_mem_drop hc)⟩
        rw [Ne, List.drop_eq_nil_iff]
        exact hlong

theorem isUnsigned_scientific {ds : List Char} (hds : IsDigits ds) (exponent : Int) :
    IsUnsigned (Binary64.scientific ds exponent) := by
  have hexponent : ∀ sign, sign = '+' ∨ sign = '-' → IsExponent
      ('e' :: sign :: Binary64.padded Binary64.style.exponentDigits (Nat.toDigits 10 exponent.natAbs)) := by
    intro sign hsign
    refine .inr ⟨'e', [sign], _, .inl rfl, by simpa using hsign, ?_, rfl⟩
    exact (isDigits_digits _).append fun c hc => isAsciiDigit_of_mem_replicate hc
  have hexponent := hexponent (if exponent < 0 then '-' else '+') (by split <;> simp)
  have hone : ∀ d, isAsciiDigit d = true → IsWhole [d] := fun d hd =>
    ⟨⟨by simp, by simpa using hd⟩, fun h => by simpa using h⟩
  unfold Binary64.scientific
  dsimp only
  split
  · exact absurd rfl hds.1
  · next d => exact ⟨[d], [], _, hone d (hds.2 d (by simp)), .inl rfl, hexponent, rfl⟩
  · next d r hr =>
    refine ⟨[d], '.' :: r, _, hone d (hds.2 d (by simp)), .inr ⟨r, ⟨?_, ?_⟩, rfl⟩, hexponent, rfl⟩
    · rintro rfl
      exact hr rfl
    · exact fun c hc => hds.2 c (List.mem_cons_of_mem d hc)

/-- **A finite value is written as a number.** -/
theorem isNumber_repr {x : Binary64} (h : x.isSpecial = false) : IsNumber x.repr := by
  have hnan : x.isNaN = false := by rw [Binary64.isNaN, h, Bool.false_and]
  unfold Binary64.repr
  rw [hnan, h, if_neg Bool.false_ne_true, if_neg Bool.false_ne_true]
  split
  · exact IsUnsigned.signed ⟨['0'], ['.', '0'], [], isWhole_digits 0, .inr ⟨_, isDigits_digits 0, rfl⟩,
      .inl rfl, rfl⟩ x
  · next hzero =>
    have hnormal := Binary64.shortest_around (Bool.not_eq_true _ ▸ hzero)
    dsimp only
    refine IsUnsigned.signed ?_ x
    split
    · refine isUnsigned_positional (isDigits_digits _) fun hhead => ?_
      rcases hnormal with hpos | hd
      · exact absurd hhead (Numeral.head?_digits hpos)
      · rw [hd]
        exact ⟨rfl, rfl⟩
    · exact isUnsigned_scientific (isDigits_digits _) _

/-- **A finite number is written as the standard writes numbers.** -/
theorem isNumber_numberText {n : Number} (h : n.IsFinite) : IsNumber (numberText n) := by
  cases n with
  | int k => exact isNumber_intText k
  | float x =>
    have hspecial : x.isSpecial = false := h
    have hnan : x.isNaN = false := by rw [Binary64.isNaN, hspecial, Bool.false_and]
    rw [numberText, hnan, hspecial, if_neg Bool.false_ne_true, if_neg Bool.false_ne_true]
    exact isNumber_repr hspecial

/-- Any other number is written with a letter that is not regular. -/
theorem exists_letter {n : Number} (h : ¬ n.IsFinite) :
    '"' ∉ numberText n ∧ ∃ c ∈ numberText n, c = 'N' ∨ c = 'I' := by
  cases n with
  | int k => exact absurd trivial h
  | float x =>
    have hspecial : x.isSpecial = true := Bool.not_eq_false _ ▸ h
    rw [numberText]
    split
    · exact ⟨by decide, 'N', by decide, .inl rfl⟩
    · rw [Binary64.sign]
      split
      · exact ⟨by decide, 'I', by decide, .inr rfl⟩
      · exact ⟨by decide, 'I', by decide, .inr rfl⟩

/-! ## Strings -/

theorem isStringBody_unitEscape {u : Nat} {s : List Char} (h : IsStringBody s) :
    IsStringBody (unitEscape u ++ s) := by
  have hdigit : ∀ k, (hexValue? (hexDigit (k % 16))).isSome = true := by
    intro k
    rw [hexValue?_hexDigit (Nat.mod_lt k (by decide))]
    rfl
  exact .unit (by simp [hdigit]) h

theorem mem_escapeLetters {e c : Char} (h : escaped? e = some c) : e ∈ escapeLetters := by
  unfold escaped? at h
  split at h
  all_goals first | decide | cases h

theorem isStringBody_escapes (s : List Char) : IsStringBody (s.flatMap escape) := by
  induction s with
  | nil => exact .nil
  | cons c s ih =>
    rw [List.flatMap_cons]
    rcases escape_cases c with ⟨he, hquote, hback, hplain⟩ | ⟨e, he, -, hletter, -⟩ | ⟨he, -⟩ |
      ⟨he, -⟩ <;> rw [he]
    · simp only [isPlain, Bool.and_eq_true, decide_eq_true_eq] at hplain
      exact .plain hplain.1 hquote hback ih
    · exact .letter (mem_escapeLetters hletter) ih
    · exact isStringBody_unitEscape ih
    · rw [List.append_assoc]
      exact isStringBody_unitEscape (isStringBody_unitEscape ih)

theorem isString_quoted (s : String) : IsString (quoted s) := ⟨_, isStringBody_escapes s.toList, rfl⟩

theorem isName_of_isString {s : List Char} (h : IsString s) : IsName s :=
  ⟨[], s, [], isBlank_nil, h, isBlank_nil, by simp⟩

/-! ## Values -/

theorem standard_items {α : Type} {vs : List α} {text : α → List Char} {b : List Char}
    (h : ∀ v ∈ vs, Standard (text v)) (hb : IsBlank b) :
    Standard ('[' :: commas (vs.map text) ++ b ++ [']']) :=
  .array (List.forall_mem_map.mpr h) hb

theorem standard_members {α : Type} (ms : List α) (name text : α → List Char) {b : List Char}
    (hname : ∀ p ∈ ms, IsName (name p)) (h : ∀ p ∈ ms, Standard (text p)) (hb : IsBlank b) :
    Standard ('{' :: commas (ms.map fun p => name p ++ ':' :: text p) ++ b ++ ['}']) := by
  have hobject := @Standard.object (ms.map fun p => (name p, text p)) b
    (List.forall_mem_map.mpr hname) (List.forall_mem_map.mpr h) hb
  rwa [List.map_map] at hobject

/-! ## What a text shows -/

/-- A text of a value ends outside its strings and has the texts of all numbers outside its strings. -/
structure Shows (s : List Char) (v : Json) : Prop where
  closed : Closed s
  subset : ∀ n, v.HasNumber n → bare (numberText n) ⊆ bare s

variable {s : List Char} {v : Json}

theorem Shows.cons {c : Char} (hc : c ≠ '"') (h : Shows s v) : Shows (c :: s) v := by
  refine ⟨h.closed.cons hc, fun n hn => ?_⟩
  rw [bare_cons hc]
  exact List.subset_cons_of_subset c (h.subset n hn)

theorem Shows.behind {r : List Char} (hr : Closed r) (h : Shows s v) : Shows (r ++ s) v := by
  refine ⟨hr.append h.closed, fun n hn => ?_⟩
  rw [hr]
  exact List.subset_append_of_subset_right _ (h.subset n hn)

theorem shows_number (n : Number) : Shows (numberText n) (.num n) := by
  refine ⟨?_, fun k hk => ?_⟩
  · by_cases h : n.IsFinite
    · exact (regular_of_isNumber (isNumber_numberText h)).closed
    · exact (closed_of_no_quote (exists_letter h).1).1
  · rw [hasNumber_num_iff.mp hk]
    exact List.Subset.refl _

/-- A list in brackets shows what one of its texts shows. -/
theorem shows_enclosed {α : Type} {xs : List α} {text : α → List Char} {part : α → Json}
    (h : ∀ x ∈ xs, Shows (text x) (part x)) {c : Char} (hc : c ≠ '"') {r : List Char} (hr : Closed r) :
    Closed (c :: commas (xs.map text) ++ r) ∧
      ∀ x ∈ xs, Shows (c :: commas (xs.map text) ++ r) (part x) := by
  obtain ⟨hclosed, hbare⟩ := closed_commas (List.forall_mem_map.mpr fun x hx => (h x hx).closed)
  have henclosed : Closed (c :: commas (xs.map text) ++ r) := (hclosed.append hr).cons hc
  refine ⟨henclosed, fun x hx => ⟨henclosed, fun n hn => ?_⟩⟩
  have hmem : bare (text x) ∈ (xs.map text).map bare := List.mem_map_of_mem (List.mem_map_of_mem hx)
  rw [List.cons_append, bare_cons hc, hclosed, hbare]
  exact List.subset_cons_of_subset c
    (List.subset_append_of_subset_left _ (List.Subset.trans ((h x hx).subset n hn) (infix_commas hmem).subset))

theorem shows_items {vs : List Json} {text : Json → List Char} (h : ∀ v ∈ vs, Shows (text v) v)
    {c : Char} (hc : c ≠ '"') {r : List Char} (hr : Closed r) :
    Shows (c :: commas (vs.map text) ++ r) (.arr vs) := by
  obtain ⟨hclosed, hparts⟩ := shows_enclosed h hc hr
  refine ⟨hclosed, fun n hn => ?_⟩
  obtain ⟨v, hv, hn⟩ := hasNumber_arr_iff.mp hn
  exact (hparts v hv).subset n hn

theorem shows_members {ms : List (String × Json)} (text : String × Json → List Char)
    (h : ∀ p ∈ ms, Shows (text p) p.2) {c : Char} (hc : c ≠ '"') {r : List Char} (hr : Closed r) :
    Shows (c :: commas (ms.map text) ++ r) (.obj ms) := by
  obtain ⟨hclosed, hparts⟩ := shows_enclosed h hc hr
  refine ⟨hclosed, fun n hn => ?_⟩
  obtain ⟨p, hp, hn⟩ := hasNumber_obj_iff.mp hn
  exact (hparts p hp).subset n hn

/-- **A text that shows its numbers is standard only if they are finite.** -/
theorem Shows.isFinite (h : Shows s v) (hs : Standard s) {n : Number} (hn : v.HasNumber n) :
    n.IsFinite := by
  by_contra hinfinite
  obtain ⟨hquote, c, hc, hletter⟩ := exists_letter hinfinite
  have hbare : c ∈ bare s := by
    refine h.subset n hn ?_
    rwa [(closed_of_no_quote hquote).2]
  obtain ⟨hN, hI⟩ := hs.regular.ne c hbare
  exact hletter.elim hN hI

/-! ## Compact texts -/

/-- **A value whose numbers are finite has a standard text.** -/
theorem standard_compactChars {v : Json} (h : v.AllFinite) :
    Standard (compactChars v) := by
  induction v using induction with
  | null => exact .null
  | bool b =>
    cases b with
    | true => exact .true
    | false => exact .false
  | num n => exact .number (isNumber_numberText (allFinite_num_iff.mp h))
  | str s => exact .string (isString_quoted s)
  | arr vs ih =>
    have hitems := standard_items (fun v hv => ih v hv (allFinite_arr_iff.mp h v hv)) isBlank_nil
    rwa [List.append_nil, ← compactItems_eq_map] at hitems
  | obj ms ih =>
    have hmembers := standard_members (Pairs.sort ms) (fun p => quoted p.1) (fun p => compactChars p.2)
      (fun p _ => isName_of_isString (isString_quoted p.1))
      (fun p hp => ih p (Pairs.mem_sort.mp hp) (allFinite_obj_iff.mp h p (Pairs.mem_sort.mp hp)))
      isBlank_nil
    rw [List.append_nil] at hmembers
    rw [compactChars_obj]
    exact hmembers

/-- A compact text shows its numbers. -/
theorem shows_compactChars (v : Json) : Shows (compactChars v) v := by
  induction v using induction with
  | null => exact ⟨(regular_of_all (by decide)).closed, nofun⟩
  | bool b => cases b <;> exact ⟨(regular_of_all (by decide)).closed, nofun⟩
  | num n => exact shows_number n
  | str s => exact ⟨(closed_of_isString (isString_quoted s)).1, nofun⟩
  | arr vs ih =>
    rw [compactChars, compactItems_eq_map]
    exact shows_items ih (by decide) (closed_of_no_quote (by decide)).1
  | obj ms ih =>
    rw [compactChars_obj]
    have hmembers : Shows ('{' :: commas ((Pairs.sort ms).map memberText) ++ ['}'])
        (.obj (Pairs.sort ms)) := by
      refine shows_members _ (fun p hp => ?_) (by decide) (closed_of_no_quote (by decide)).1
      exact ((ih p (Pairs.mem_sort.mp hp)).cons (by decide)).behind
        (closed_of_isString (isString_quoted p.1)).1
    refine ⟨hmembers.closed, fun n hn => hmembers.subset n ?_⟩
    obtain ⟨p, hp, hn⟩ := hasNumber_obj_iff.mp hn
    exact .member (Pairs.mem_sort.mpr hp) hn

/-- **A compact text is standard exactly if all numbers in the value are finite.** -/
theorem standard_compact_iff : Standard v.compact.toList ↔ v.AllFinite := by
  rw [compact, String.toList_ofList]
  exact ⟨fun h n => (shows_compactChars v).isFinite h, standard_compactChars⟩

/-! ## Indented texts -/

theorem indentedItems_eq_map (level : Nat) (vs : List Json) :
    indentedItems level vs = vs.map (indentedChars level) := by
  induction vs with
  | nil => rfl
  | cons v vs ih => rw [indentedItems, ih, List.map_cons]

theorem indentedMembers_eq_map (level : Nat) (ms : List (String × Json)) :
    indentedMembers level ms = ms.map fun p => quoted p.1 ++ ':' :: ' ' :: indentedChars level p.2 := by
  induction ms with
  | nil => rfl
  | cons p ms ih => rw [indentedMembers, ih, List.map_cons]

/-- The beginning of a line. -/
def lineStart (level : Nat) : List Char := '\n' :: List.replicate (2 * level) ' '

theorem isBlank_lineStart (level : Nat) : IsBlank (lineStart level) :=
  List.forall_mem_cons.mpr ⟨rfl, fun _ hc => List.eq_of_mem_replicate hc ▸ rfl⟩

/-- What stands before the last bracket of a block: the beginning of its line, unless the block is empty. -/
def blockEnd (level : Nat) (ts : List (List Char)) : List Char :=
  match ts with
  | [] => []
  | _ => lineStart level

theorem isBlank_blockEnd (level : Nat) (ts : List (List Char)) : IsBlank (blockEnd level ts) := by
  cases ts with
  | nil => exact isBlank_nil
  | cons t ts => exact isBlank_lineStart level

theorem block_eq (level : Nat) (o c : Char) (ts : List (List Char)) :
    block level o c ts =
      o :: commas (ts.map (lineStart (level + 1) ++ ·)) ++ blockEnd level ts ++ [c] := by
  cases ts <;> rfl

/-- **Nor do line ends take a text out of the standard.** -/
theorem standard_indentedChars {v : Json} (h : v.AllFinite) (level : Nat) :
    Standard (indentedChars level v) := by
  induction v using induction generalizing level with
  | null => exact .null
  | bool b =>
    cases b with
    | true => exact .true
    | false => exact .false
  | num n => exact .number (isNumber_numberText (allFinite_num_iff.mp h))
  | str s => exact .string (isString_quoted s)
  | arr vs ih =>
    rw [indentedChars, indentedItems_eq_map, block_eq, List.map_map]
    refine standard_items (fun v hv => ?_) (isBlank_blockEnd _ _)
    have hv := ih v hv (allFinite_arr_iff.mp h v hv) (level + 1)
    simpa using hv.padded (isBlank_lineStart (level + 1)) isBlank_nil
  | obj ms ih =>
    rw [indentedChars, indentedMembers_eq_map, block_eq, List.map_map]
    have hspace : IsBlank [' '] := List.forall_mem_singleton.mpr rfl
    have hmembers := standard_members ms (fun p => lineStart (level + 1) ++ quoted p.1)
      (fun p => ' ' :: indentedChars (level + 1) p.2) (fun p _ => ?_) (fun p hp => ?_)
      (isBlank_blockEnd level
        (ms.map fun p => quoted p.1 ++ ':' :: ' ' :: indentedChars (level + 1) p.2))
    · simpa [Function.comp_def] using hmembers
    · exact ⟨_, _, [], isBlank_lineStart (level + 1), isString_quoted p.1, isBlank_nil, by simp⟩
    · have hv := ih p hp (allFinite_obj_iff.mp h p hp) (level + 1)
      simpa using hv.padded hspace isBlank_nil

theorem closed_of_isBlank {b : List Char} (h : IsBlank b) : Closed b := (regular_of_isBlank h).closed

/-- An indented text shows its numbers as well. -/
theorem shows_indentedChars (v : Json) (level : Nat) : Shows (indentedChars level v) v := by
  induction v using induction generalizing level with
  | null => exact shows_compactChars .null
  | bool b =>
    cases b with
    | true => exact shows_compactChars (.bool true)
    | false => exact shows_compactChars (.bool false)
  | num n => exact shows_number n
  | str s => exact shows_compactChars (.str s)
  | arr vs ih =>
    rw [indentedChars, indentedItems_eq_map, block_eq, List.map_map, List.append_assoc]
    refine shows_items (fun v hv => ?_) (by decide) ?_
    · exact (ih v hv (level + 1)).behind (closed_of_isBlank (isBlank_lineStart _))
    · exact (closed_of_isBlank (isBlank_blockEnd _ _)).append (closed_of_no_quote (by decide)).1
  | obj ms ih =>
    rw [indentedChars, indentedMembers_eq_map, block_eq, List.map_map, List.append_assoc]
    refine shows_members _ (fun p hp => ?_) (by decide) ?_
    · exact ((((ih p hp (level + 1)).cons (by decide)).cons (by decide)).behind
        (closed_of_isString (isString_quoted p.1)).1).behind (closed_of_isBlank (isBlank_lineStart _))
    · exact (closed_of_isBlank (isBlank_blockEnd _ _)).append (closed_of_no_quote (by decide)).1

/-- **An indented text is standard exactly if all numbers in the value are finite.** -/
theorem standard_indented_iff : Standard v.indented.toList ↔ v.AllFinite := by
  rw [indented, String.toList_ofList]
  exact ⟨fun h n => (shows_indentedChars v 0).isFinite h, fun h => standard_indentedChars h 0⟩

end Json

end LockAudit
