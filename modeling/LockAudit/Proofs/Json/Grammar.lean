import LockAudit.Proofs.Json.RoundTrip

/-!
# `LockAudit.Proofs.Json.Grammar` — the texts of the JSON standard

The reader and the writer of this library know three numbers that the JSON standard does not: `NaN`,
`Infinity` and `-Infinity`. `Standard` is the grammar of the standard alone, in terms of texts and of
neither of the two.

That a text is *not* of the standard has to be seen from the text. Of a text that is made of whole tokens
only the characters outside its strings are looked at (`bare`); a text is `Closed` if its last string has
ended, so that what is bare in it does not depend on what follows.

* `Standard`, with `IsNumber`, `IsString` and `IsName` for its parts.
* `Closed.append` — two closed texts, one behind the other, are closed.
* `Standard.regular` — a text of the standard is closed and has no bare `N` or `I`.
-/

namespace LockAudit.Json

open LockAudit.Text

/-! ## The grammar -/

/-- Some digits. -/
def IsDigits (ds : List Char) : Prop := ds ≠ [] ∧ ∀ c ∈ ds, isAsciiDigit c = true

/-- Digits of an integer: a zero alone, or digits that begin with another. -/
def IsWhole (ds : List Char) : Prop := IsDigits ds ∧ (ds.head? = some '0' → ds = ['0'])

/-- Nothing, or a point with digits. -/
def IsPlaces (s : List Char) : Prop := s = [] ∨ ∃ ds, IsDigits ds ∧ s = '.' :: ds

/-- Nothing, or an exponent: a letter, perhaps a sign, and digits. -/
def IsExponent (s : List Char) : Prop :=
  s = [] ∨ ∃ e sign ds, (e = 'e' ∨ e = 'E') ∧ (sign = [] ∨ sign = ['+'] ∨ sign = ['-']) ∧ IsDigits ds ∧
    s = e :: (sign ++ ds)

/-- The text of a number. -/
def IsNumber (s : List Char) : Prop :=
  ∃ sign whole places exponent, (sign = [] ∨ sign = ['-']) ∧ IsWhole whole ∧ IsPlaces places ∧
    IsExponent exponent ∧ s = sign ++ (whole ++ (places ++ exponent))

/-- The letters that stand for a character behind a backslash. -/
def escapeLetters : List Char := ['"', '\\', '/', 'b', 'f', 'n', 'r', 't']

/-- What may stand between the quotes of a string. -/
inductive IsStringBody : List Char → Prop
  | nil : IsStringBody []
  | plain {c : Char} {s : List Char} (hlow : 0x20 ≤ c.toNat) (hquote : c ≠ '"') (hback : c ≠ '\\')
      (h : IsStringBody s) : IsStringBody (c :: s)
  | letter {e : Char} {s : List Char} (he : e ∈ escapeLetters) (h : IsStringBody s) :
      IsStringBody ('\\' :: e :: s)
  | unit {a b c d : Char} {s : List Char} (hdigits : ∀ x ∈ [a, b, c, d], (hexValue? x).isSome = true)
      (h : IsStringBody s) : IsStringBody ('\\' :: 'u' :: a :: b :: c :: d :: s)

/-- The text of a string. -/
def IsString (s : List Char) : Prop := ∃ body, IsStringBody body ∧ s = '"' :: body ++ ['"']

/-- The characters that may stand between tokens, in any number. -/
def IsBlank (s : List Char) : Prop := ∀ c ∈ s, isSpace c = true

theorem isBlank_nil : IsBlank [] := nofun

/-- The name of a member, up to its colon. -/
def IsName (s : List Char) : Prop :=
  ∃ before name after, IsBlank before ∧ IsString name ∧ IsBlank after ∧ s = before ++ name ++ after

/-- A text of the JSON standard: one value, with blanks around it. The items of an array are texts
    themselves, so the blanks around its commas are theirs; before the bracket there may be blanks even if
    there is no item. -/
inductive Standard : List Char → Prop
  | null : Standard "null".toList
  | true : Standard "true".toList
  | false : Standard "false".toList
  | number {s : List Char} (h : IsNumber s) : Standard s
  | string {s : List Char} (h : IsString s) : Standard s
  | array {ts : List (List Char)} {b : List Char} (h : ∀ t ∈ ts, Standard t) (hb : IsBlank b) :
      Standard ('[' :: commas ts ++ b ++ [']'])
  | object {ps : List (List Char × List Char)} {b : List Char} (hnames : ∀ p ∈ ps, IsName p.1)
      (h : ∀ p ∈ ps, Standard p.2) (hb : IsBlank b) :
      Standard ('{' :: commas (ps.map fun p => p.1 ++ ':' :: p.2) ++ b ++ ['}'])
  | padded {before s after : List Char} (hbefore : IsBlank before) (h : Standard s)
      (hafter : IsBlank after) : Standard (before ++ s ++ after)

/-! ## Outside strings -/

mutual

/-- The characters of a text that stand outside its strings. -/
def bare : List Char → List Char
  | [] => []
  | '"' :: r => bareBehind r
  | c :: r => c :: bare r

/-- The characters that stand outside strings behind the end of the string in which the text begins. -/
def bareBehind : List Char → List Char
  | [] => []
  | '"' :: r => bare r
  | '\\' :: _ :: r => bareBehind r
  | _ :: r => bareBehind r

end

variable {s t body r : List Char} {c : Char}

@[simp] theorem bare_nil : bare [] = [] := rfl

theorem bare_quote (r : List Char) : bare ('"' :: r) = bareBehind r := by rw [bare]

theorem bare_cons (h : c ≠ '"') (r : List Char) : bare (c :: r) = c :: bare r := by
  rw [bare]
  exact h

theorem bareBehind_quote (r : List Char) : bareBehind ('"' :: r) = bare r := by rw [bareBehind]

theorem bareBehind_back (c : Char) (r : List Char) : bareBehind ('\\' :: c :: r) = bareBehind r := by
  rw [bareBehind]

theorem bareBehind_cons (hquote : c ≠ '"') (hback : c ≠ '\\') (r : List Char) :
    bareBehind (c :: r) = bareBehind r := by
  rw [bareBehind]
  · exact hquote
  · exact fun _ _ h _ => hback h

/-- A text that ends outside its strings. -/
def Closed (s : List Char) : Prop := ∀ r, bare (s ++ r) = bare s ++ bare r

theorem closed_nil : Closed [] := fun _ => rfl

theorem Closed.append (hs : Closed s) (ht : Closed t) : Closed (s ++ t) := by
  intro r
  rw [List.append_assoc, hs, ht, hs, List.append_assoc]

theorem closed_of_no_quote (h : '"' ∉ s) : Closed s ∧ bare s = s := by
  induction s with
  | nil => exact ⟨closed_nil, rfl⟩
  | cons c s ih =>
    obtain ⟨hc, hs⟩ := List.ne_and_not_mem_of_not_mem_cons h
    replace hc := hc.symm
    obtain ⟨hclosed, hbare⟩ := ih hs
    refine ⟨fun r => ?_, by rw [bare_cons hc, hbare]⟩
    rw [List.cons_append, bare_cons hc, bare_cons hc, hclosed, List.cons_append]

theorem Closed.cons (hc : c ≠ '"') (hs : Closed s) : Closed (c :: s) :=
  (closed_of_no_quote (s := [c]) (by simpa using hc.symm)).1.append hs

/-- A string has ended where its body and a quote end. -/
theorem bareBehind_body (h : IsStringBody body) (r : List Char) :
    bareBehind (body ++ '"' :: r) = bare r := by
  induction h with
  | nil => exact bareBehind_quote r
  | plain _ hquote hback _ ih => rw [List.cons_append, bareBehind_cons hquote hback, ih]
  | letter _ _ ih => rw [List.cons_append, List.cons_append, bareBehind_back, ih]
  | @unit a b c d s hdigits _ ih =>
    have hplain : ∀ x ∈ [a, b, c, d], x ≠ '"' ∧ x ≠ '\\' := by
      intro x hx
      have hhex := hdigits x hx
      constructor
      · rintro rfl
        cases hhex
      · rintro rfl
        cases hhex
    simp only [List.mem_cons, List.not_mem_nil, or_false, forall_eq_or_imp, forall_eq] at hplain
    obtain ⟨ha, hb, hc, hd⟩ := hplain
    simp only [List.cons_append]
    rw [bareBehind_back, bareBehind_cons ha.1 ha.2, bareBehind_cons hb.1 hb.2,
      bareBehind_cons hc.1 hc.2, bareBehind_cons hd.1 hd.2, ih]

/-- Nothing of a string is bare. -/
theorem closed_of_isString (h : IsString s) : Closed s ∧ bare s = [] := by
  obtain ⟨body, hbody, rfl⟩ := h
  have happend : ∀ r, bare ('"' :: body ++ ['"'] ++ r) = bare r := by
    intro r
    rw [List.append_assoc, List.cons_append, List.singleton_append, bare_quote, bareBehind_body hbody]
  have hbare := happend []
  rw [List.append_nil] at hbare
  exact ⟨fun r => by rw [happend, hbare]; rfl, hbare⟩

/-- What is bare in a list with commas is what is bare in its texts. -/
theorem closed_commas {ts : List (List Char)} (h : ∀ t ∈ ts, Closed t) :
    Closed (commas ts) ∧ bare (commas ts) = commas (ts.map bare) := by
  induction ts with
  | nil => exact ⟨closed_nil, rfl⟩
  | cons t ts ih =>
    have ht := h t List.mem_cons_self
    obtain ⟨hclosed, hbare⟩ := ih fun u hu => h u (List.mem_cons_of_mem t hu)
    cases ts with
    | nil => exact ⟨by rwa [commas_singleton], by simp⟩
    | cons u ts =>
      rw [List.map_cons] at hbare ⊢
      rw [List.map_cons, commas_cons_cons, commas_cons_cons, ht, bare_cons (by decide), hbare]
      exact ⟨ht.append (hclosed.cons (by decide)), rfl⟩

theorem forall_mem_commas {P : Char → Prop} (hcomma : P ',') {ts : List (List Char)}
    (h : ∀ t ∈ ts, ∀ c ∈ t, P c) : ∀ c ∈ commas ts, P c := by
  induction ts with
  | nil => exact List.forall_mem_nil _
  | cons t ts ih =>
    have ht := h t List.mem_cons_self
    have hts := ih fun u hu => h u (List.mem_cons_of_mem t hu)
    cases ts with
    | nil => rwa [commas_singleton]
    | cons u ts =>
      rw [commas_cons_cons]
      exact List.forall_mem_append.mpr ⟨ht, List.forall_mem_cons.mpr ⟨hcomma, hts⟩⟩

/-! ## Regular texts -/

/-- A text that is closed and has no bare letter with which a number begins that the standard does not
    know. -/
structure Regular (s : List Char) : Prop where
  closed : Closed s
  ne : ∀ c ∈ bare s, c ≠ 'N' ∧ c ≠ 'I'

theorem regular_nil : Regular [] := ⟨closed_nil, nofun⟩

theorem Regular.append (hs : Regular s) (ht : Regular t) : Regular (s ++ t) := by
  refine ⟨hs.closed.append ht.closed, fun c hc => ?_⟩
  rw [hs.closed] at hc
  exact (List.mem_append.mp hc).elim (hs.ne c) (ht.ne c)

/-- A character that may stand bare in a text of the standard. -/
def mayStandBare (c : Char) : Bool := c != '"' && c != 'N' && c != 'I'

theorem regular_of_all (h : s.all mayStandBare = true) : Regular s := by
  simp only [List.all_eq_true, mayStandBare, Bool.and_eq_true, bne_iff_ne] at h
  obtain ⟨hclosed, hbare⟩ := closed_of_no_quote fun hquote => (h _ hquote).1.1 rfl
  refine ⟨hclosed, fun c hc => ?_⟩
  rw [hbare] at hc
  exact ⟨(h c hc).1.2, (h c hc).2⟩

theorem Regular.cons (hc : mayStandBare c = true) (hs : Regular s) : Regular (c :: s) :=
  (regular_of_all (s := [c]) (by simpa using hc)).append hs

theorem Regular.enclose {d : Char} (hc : mayStandBare c = true) (hs : Regular s)
    (hd : mayStandBare d = true) : Regular (c :: s ++ [d]) :=
  (hs.cons hc).append (regular_nil.cons hd)

theorem regular_of_isString (h : IsString s) : Regular s := by
  obtain ⟨hclosed, hbare⟩ := closed_of_isString h
  exact ⟨hclosed, by rw [hbare]; nofun⟩

theorem regular_of_isBlank (h : IsBlank s) : Regular s := by
  refine regular_of_all (List.all_eq_true.mpr fun c hc => ?_)
  have hspace := h c hc
  simp only [isSpace, Bool.or_eq_true, beq_iff_eq] at hspace
  rcases hspace with ((rfl | rfl) | rfl) | rfl <;> rfl

theorem regular_of_isName (h : IsName s) : Regular s := by
  obtain ⟨before, name, after, hbefore, hname, hafter, rfl⟩ := h
  exact ((regular_of_isBlank hbefore).append (regular_of_isString hname)).append
    (regular_of_isBlank hafter)

theorem regular_commas {ts : List (List Char)} (h : ∀ t ∈ ts, Regular t) : Regular (commas ts) := by
  obtain ⟨hclosed, hbare⟩ := closed_commas fun t ht => (h t ht).closed
  refine ⟨hclosed, ?_⟩
  rw [hbare]
  refine forall_mem_commas (by decide) fun t ht => ?_
  obtain ⟨u, hu, rfl⟩ := List.mem_map.mp ht
  exact (h u hu).ne

theorem regular_of_isDigits (h : IsDigits s) : Regular s :=
  regular_of_all (List.all_eq_true.mpr fun c hc => of_isAsciiDigit (h.2 c hc) mayStandBare (by decide))

theorem regular_of_isNumber (h : IsNumber s) : Regular s := by
  obtain ⟨sign, whole, places, exponent, hsign, hwhole, hplaces, hexponent, rfl⟩ := h
  refine .append ?_ ((regular_of_isDigits hwhole.1).append (.append ?_ ?_))
  · rcases hsign with rfl | rfl
    · exact regular_nil
    · exact regular_nil.cons rfl
  · rcases hplaces with rfl | ⟨ds, hds, rfl⟩
    · exact regular_nil
    · exact (regular_of_isDigits hds).cons rfl
  · rcases hexponent with rfl | ⟨e, sign, ds, he, hsign, hds, rfl⟩
    · exact regular_nil
    · have hdigits : Regular (sign ++ ds) := by
        refine .append ?_ (regular_of_isDigits hds)
        rcases hsign with rfl | rfl | rfl
        · exact regular_nil
        · exact regular_nil.cons rfl
        · exact regular_nil.cons rfl
      rcases he with rfl | rfl
      · exact hdigits.cons rfl
      · exact hdigits.cons rfl

/-- **A text of the standard has no bare `N` or `I`.** -/
theorem Standard.regular (h : Standard s) : Regular s := by
  induction h with
  | null => exact regular_of_all (by decide)
  | true => exact regular_of_all (by decide)
  | false => exact regular_of_all (by decide)
  | number h => exact regular_of_isNumber h
  | string h => exact regular_of_isString h
  | array _ hb ih => exact ((regular_commas ih).append (regular_of_isBlank hb)).enclose rfl rfl
  | object hnames _ hb ih =>
    refine (Regular.append (regular_commas fun t ht => ?_) (regular_of_isBlank hb)).enclose rfl rfl
    obtain ⟨p, hp, rfl⟩ := List.mem_map.mp ht
    exact (regular_of_isName (hnames p hp)).append ((ih p hp).cons rfl)
  | padded hbefore _ hafter ih =>
    exact ((regular_of_isBlank hbefore).append ih).append (regular_of_isBlank hafter)

end LockAudit.Json
