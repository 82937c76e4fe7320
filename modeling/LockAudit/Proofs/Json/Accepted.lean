import LockAudit.Proofs.Json.Tokens

/-!
# `LockAudit.Proofs.Json.Accepted` — the texts that are read

The reader takes more than the JSON standard does, three words for numbers, and in one respect less: the
digits of an integer may be too many. `Accepted` is the grammar of what it takes, in terms of texts and not
of the reader.

What a step has read is a text of the grammar at the front of what it was given (`ReadSteps`, by induction
over the bound). A text of the grammar is read in front of anything that does not extend a numeral
(`IsRead`, by induction over the grammar); since a text may end in blanks that the reader leaves, what it
leaves is known up to blanks.

* `readSteps` — what is read is accepted.
* `isRead_of_accepted` — what is accepted is read.
* `exists_parseChars_iff` — a text is read exactly if it is accepted.
-/

namespace LockAudit.Json

open LockAudit.Text

variable {s t r u : List Char} {v : Json}

/-! ## The grammar -/

/-- The words that stand for a value. -/
def valueWords : List (List Char) :=
  ["null".toList, "true".toList, "false".toList, "NaN".toList, "Infinity".toList, "-Infinity".toList]

/-- The text of a member: its name, a colon, and its value. -/
def pairText (p : List Char × List Char) : List Char := p.1 ++ ':' :: p.2

/-- A text that is read: one value, with blanks around it. -/
inductive Accepted : List Char → Prop
  | word {s : List Char} (h : s ∈ valueWords) : Accepted s
  | numeral {s : List Char} (h : IsNumeral s) : Accepted s
  | string {s : List Char} (h : IsString s) : Accepted s
  | array (ts : List (List Char)) {b : List Char} (h : ∀ t ∈ ts, Accepted t) (hb : IsBlank b) :
      Accepted ('[' :: commas ts ++ b ++ [']'])
  | object (ps : List (List Char × List Char)) {b : List Char} (hnames : ∀ p ∈ ps, IsName p.1)
      (h : ∀ p ∈ ps, Accepted p.2) (hb : IsBlank b) :
      Accepted ('{' :: commas (ps.map pairText) ++ b ++ ['}'])
  | padded {before s after : List Char} (hbefore : IsBlank before) (h : Accepted s)
      (hafter : IsBlank after) : Accepted (before ++ s ++ after)

/-! ## Blanks -/

theorem exists_blank (s : List Char) : ∃ b, IsBlank b ∧ s = b ++ blanks s :=
  ⟨s.takeWhile isSpace, fun _ hc => List.all_eq_true.mp List.all_takeWhile _ hc, by simp [blanks]⟩

theorem blanks_blank_append {b : List Char} (hb : IsBlank b) (r : List Char) :
    blanks (b ++ r) = blanks r :=
  List.dropWhile_append_of_pos hb

theorem blanks_append_of_cons {c : Char} {w : List Char} (h : blanks s = c :: w) (r : List Char) :
    blanks (s ++ r) = c :: (w ++ r) := by
  have h' : s.dropWhile isSpace = c :: w := h
  rw [blanks, List.dropWhile_append, h']
  rfl

theorem stops_blank_append {b : List Char} (hb : IsBlank b) (hr : Stops extendsNumeral r) :
    Stops extendsNumeral (b ++ r) := by
  cases b with
  | nil => exact hr
  | cons c b =>
    refine stops_cons ?_ _
    have hc := hb c List.mem_cons_self
    simp only [isSpace, Bool.or_eq_true, beq_iff_eq] at hc
    rcases hc with ((rfl | rfl) | rfl) | rfl <;> rfl

theorem exists_commas_append (t : List Char) (ts : List (List Char)) :
    ∃ rest, commas (t :: ts) = t ++ rest := by
  cases ts with
  | nil => exact ⟨[], by rw [commas_singleton, List.append_nil]⟩
  | cons u ts => exact ⟨_, commas_cons_cons t u ts⟩

theorem append_commas_cons (b t : List Char) (ts : List (List Char)) :
    b ++ commas (t :: ts) = commas ((b ++ t) :: ts) := by
  cases ts with
  | nil => rw [commas_singleton, commas_singleton]
  | cons u ts => rw [commas_cons_cons, commas_cons_cons, List.append_assoc]

theorem IsName.blank_append {b : List Char} (hb : IsBlank b) (h : IsName s) : IsName (b ++ s) := by
  obtain ⟨before, name, after, hbefore, hname, hafter, rfl⟩ := h
  exact ⟨b ++ before, name, after, List.forall_mem_append.mpr ⟨hb, hbefore⟩, hname, hafter, by simp⟩

/-! ## What is read is accepted -/

theorem Accepted.append_blank {b : List Char} (h : Accepted u) (hb : IsBlank b) : Accepted (u ++ b) :=
  .padded isBlank_nil h hb

theorem Accepted.blank_append {b : List Char} (hb : IsBlank b) (h : Accepted u) : Accepted (b ++ u) :=
  List.append_nil (b ++ u) ▸ .padded hb h isBlank_nil

/-- The blanks behind an accepted text can be counted to it. -/
theorem Accepted.exists_append (h : Accepted u) (t : List Char) :
    ∃ w, Accepted w ∧ u ++ t = w ++ blanks t := by
  obtain ⟨b, hb, ht⟩ := exists_blank t
  exact ⟨u ++ b, h.append_blank hb, by rw [List.append_assoc, ← ht]⟩

/-- The blanks in front of an accepted text can be counted to it. -/
theorem Accepted.exists_of_blanks (h : Accepted u) (hs : blanks s = u ++ t) :
    ∃ w, Accepted w ∧ s = w ++ t := by
  obtain ⟨b, hb, hsplit⟩ := exists_blank s
  exact ⟨b ++ u, h.blank_append hb, by rw [List.append_assoc, ← hs, ← hsplit]⟩

/-- What the reader's steps with one bound read. -/
structure ReadSteps (n : Nat) : Prop where
  value {s t : List Char} {v : Json} (h : value n s = .ok (v, t)) : ∃ u, Accepted u ∧ s = u ++ t
  members {s t : List Char} {ms : List (String × Json)} (h : members n s = .ok (ms, t)) :
    ∃ p ps, (∀ q ∈ p :: ps, IsName q.1) ∧ (∀ q ∈ p :: ps, Accepted q.2) ∧
      s = commas ((p :: ps).map pairText) ++ '}' :: t
  items {s t : List Char} {vs : List Json} (h : items n s = .ok (vs, t)) :
    ∃ u us, (∀ w ∈ u :: us, Accepted w) ∧ s = commas (u :: us) ++ ']' :: t

variable {n : Nat}

/-- Members in braces are an object, with blanks in front of the first. -/
theorem exists_braces {p : List Char × List Char} {ps : List (List Char × List Char)}
    (hnames : ∀ q ∈ p :: ps, IsName q.1) (h : ∀ q ∈ p :: ps, Accepted q.2)
    (hr : blanks r = commas ((p :: ps).map pairText) ++ '}' :: t) :
    ∃ u, Accepted u ∧ '{' :: r = u ++ t := by
  obtain ⟨b, hb, hsplit⟩ := exists_blank r
  rw [hr, List.map_cons, ← List.append_assoc, append_commas_cons] at hsplit
  rw [List.forall_mem_cons] at hnames h
  refine ⟨_, .object ((b ++ p.1, p.2) :: ps) ?_ ?_ isBlank_nil, ?_⟩
  · exact List.forall_mem_cons.mpr ⟨hnames.1.blank_append hb, hnames.2⟩
  · exact List.forall_mem_cons.mpr h
  · rw [hsplit]
    simp [pairText]

/-- Items in brackets are an array, with blanks in front of the first. -/
theorem exists_brackets {us : List (List Char)} (h : ∀ w ∈ u :: us, Accepted w)
    (hr : blanks r = commas (u :: us) ++ ']' :: t) : ∃ u, Accepted u ∧ '[' :: r = u ++ t := by
  obtain ⟨b, hb, hsplit⟩ := exists_blank r
  rw [hr, ← List.append_assoc, append_commas_cons] at hsplit
  rw [List.forall_mem_cons] at h
  refine ⟨_, .array ((b ++ u) :: us) ?_ isBlank_nil, ?_⟩
  · exact List.forall_mem_cons.mpr ⟨h.1.blank_append hb, h.2⟩
  · rw [hsplit]
    simp

theorem accepted_of_value (h : ReadSteps n) (hv : Json.value (n + 1) s = .ok (v, t)) :
    ∃ u, Accepted u ∧ s = u ++ t := by
  unfold Json.value at hv
  split at hv
  · split at hv
    · next hx =>
      cases hv
      obtain ⟨body, hbody, rfl⟩ := isStringBody_of_string hx
      exact ⟨_, .string ⟨body, hbody, rfl⟩, by simp⟩
    · cases hv
  · next r =>
    split at hv
    · next hend =>
      cases hv
      obtain ⟨b, hb, hr⟩ := exists_blank r
      rw [hend] at hr
      exact ⟨_, .object [] (List.forall_mem_nil _) (List.forall_mem_nil _) hb, by simp [hr]⟩
    · split at hv
      · next hms =>
        cases hv
        obtain ⟨p, ps, hnames, hps, htext⟩ := h.members hms
        exact exists_braces hnames hps htext
      · cases hv
  · next r =>
    split at hv
    · next hend =>
      cases hv
      obtain ⟨b, hb, hr⟩ := exists_blank r
      rw [hend] at hr
      exact ⟨_, .array [] (List.forall_mem_nil _) hb, by simp [hr]⟩
    · split at hv
      · next hvs =>
        cases hv
        obtain ⟨u, us, hus, htext⟩ := h.items hvs
        exact exists_brackets hus htext
      · cases hv
  -- What is left are the words, and numbers.
  · cases hv
    exact ⟨"null".toList, .word (by decide), rfl⟩
  · cases hv
    exact ⟨"true".toList, .word (by decide), rfl⟩
  · cases hv
    exact ⟨"false".toList, .word (by decide), rfl⟩
  · cases hv
    exact ⟨"NaN".toList, .word (by decide), rfl⟩
  · cases hv
    exact ⟨"Infinity".toList, .word (by decide), rfl⟩
  · cases hv
    exact ⟨"-Infinity".toList, .word (by decide), rfl⟩
  · obtain ⟨u, hu, rfl⟩ := isNumeral_of_number hv
    exact ⟨u, .numeral hu, rfl⟩

theorem accepted_of_members {ms : List (String × Json)} (h : ReadSteps n)
    (hms : Json.members (n + 1) s = .ok (ms, t)) :
    ∃ p ps, (∀ q ∈ p :: ps, IsName q.1) ∧ (∀ q ∈ p :: ps, Accepted q.2) ∧
      s = commas ((p :: ps).map pairText) ++ '}' :: t := by
  unfold Json.members at hms
  split at hms
  · split at hms
    · cases hms
    · next t₀ hx =>
      obtain ⟨body, hbody, rfl⟩ := isStringBody_of_string hx
      split at hms
      · next t₁ hcolon =>
        obtain ⟨b, hb, ht₀⟩ := exists_blank t₀
        rw [hcolon] at ht₀
        have hname : IsName ('"' :: body ++ ['"'] ++ b) :=
          ⟨[], _, b, isBlank_nil, ⟨body, hbody, rfl⟩, hb, by simp⟩
        split at hms
        · cases hms
        · next v t₂ hv =>
          obtain ⟨u, hu, hu₁⟩ := h.value hv
          obtain ⟨u, hu, rfl⟩ := hu.exists_of_blanks hu₁
          obtain ⟨u, hu, hu₂⟩ := hu.exists_append t₂
          rw [hu₂] at ht₀
          split at hms
          · next hend =>
            cases hms
            refine ⟨('"' :: body ++ ['"'] ++ b, u), [], ?_, ?_, ?_⟩
            · exact List.forall_mem_singleton.mpr hname
            · exact List.forall_mem_singleton.mpr hu
            · rw [hend] at ht₀
              simp [ht₀, pairText]
          · next t₃ hcomma =>
            split at hms
            · next hrest =>
              cases hms
              obtain ⟨p, ps, hnames, hps, htext⟩ := h.members hrest
              obtain ⟨b', hb', ht₃⟩ := exists_blank t₃
              rw [List.forall_mem_cons] at hnames hps
              refine ⟨('"' :: body ++ ['"'] ++ b, u), (b' ++ p.1, p.2) :: ps, ?_, ?_, ?_⟩
              · exact List.forall_mem_cons.mpr
                  ⟨hname, List.forall_mem_cons.mpr ⟨hnames.1.blank_append hb', hnames.2⟩⟩
              · exact List.forall_mem_cons.mpr ⟨hu, List.forall_mem_cons.mpr hps⟩
              · rw [List.map_cons] at htext
                rw [htext, ← List.append_assoc, append_commas_cons] at ht₃
                rw [hcomma, ht₃] at ht₀
                rw [ht₀, List.map_cons, List.map_cons, commas_cons_cons]
                simp [pairText]
            · cases hms
          · cases hms
      · cases hms
  · cases hms

theorem accepted_of_items {vs : List Json} (h : ReadSteps n)
    (hvs : Json.items (n + 1) s = .ok (vs, t)) :
    ∃ u us, (∀ w ∈ u :: us, Accepted w) ∧ s = commas (u :: us) ++ ']' :: t := by
  unfold Json.items at hvs
  split at hvs
  · cases hvs
  · next v t₀ hv =>
    obtain ⟨u, hu, rfl⟩ := h.value hv
    obtain ⟨u, hu, hu₀⟩ := hu.exists_append t₀
    rw [hu₀]
    split at hvs
    · next hend =>
      cases hvs
      exact ⟨u, [], List.forall_mem_singleton.mpr hu, by rw [hend, commas_singleton]⟩
    · next t₁ hcomma =>
      split at hvs
      · next hrest =>
        cases hvs
        obtain ⟨w, ws, hws, htext⟩ := h.items hrest
        obtain ⟨b, hb, ht₁⟩ := exists_blank t₁
        rw [List.forall_mem_cons] at hws
        refine ⟨u, (b ++ w) :: ws, ?_, ?_⟩
        · exact List.forall_mem_cons.mpr
            ⟨hu, List.forall_mem_cons.mpr ⟨hws.1.blank_append hb, hws.2⟩⟩
        · rw [htext, ← List.append_assoc, append_commas_cons] at ht₁
          rw [hcomma, ht₁, commas_cons_cons]
          simp
      · cases hvs
    · cases hvs

/-- **Every step of the reader** reads an accepted text. -/
theorem readSteps (n : Nat) : ReadSteps n := by
  induction n with
  | zero => exact ⟨nofun, nofun, nofun⟩
  | succ n ih => exact ⟨accepted_of_value ih, accepted_of_members ih, accepted_of_items ih⟩

/-! ## What is accepted is read -/

/-- A text is read in front of anything that does not extend a numeral, with whatever blanks around it. The
    bound is one that its length provides. -/
def IsRead (s : List Char) : Prop :=
  ∀ n r, 2 * s.length ≤ n → Stops extendsNumeral r →
    ∃ v t, value (n + 1) (blanks (s ++ r)) = .ok (v, t) ∧ blanks t = blanks r

/-- An accepted text is not blank, and does not begin with a bracket that closes. -/
theorem Accepted.exists_head (h : Accepted s) :
    ∃ c w, blanks s = c :: w ∧ isSpace c = false ∧ c ≠ ']' := by
  have hfirst : ∀ {c w}, isSpace c = false → c ≠ ']' →
      ∃ d x, blanks (c :: w) = d :: x ∧ isSpace d = false ∧ d ≠ ']' :=
    fun {c w} hc hne => ⟨c, w, blanks_cons hc w, hc, hne⟩
  induction h with
  | word h =>
    simp only [valueWords, List.mem_cons, List.not_mem_nil, or_false] at h
    rcases h with rfl | rfl | rfl | rfl | rfl | rfl <;> exact hfirst rfl (by decide)
  | numeral h =>
    obtain ⟨sign, whole, p, x, hsign, hwhole, -, -, rfl, -⟩ := h
    obtain ⟨d, ds, rfl⟩ := List.exists_cons_of_ne_nil hwhole.1.1
    have hd := of_isAsciiDigit (hwhole.1.2 d List.mem_cons_self) (fun c => !isSpace c && c != ']')
      (by decide)
    simp only [Bool.and_eq_true, Bool.not_eq_true', bne_iff_ne] at hd
    rcases hsign with rfl | rfl
    · exact hfirst hd.1 hd.2
    · exact hfirst rfl (by decide)
  | string h =>
    obtain ⟨body, -, rfl⟩ := h
    exact hfirst rfl (by decide)
  | array => exact hfirst rfl (by decide)
  | object => exact hfirst rfl (by decide)
  | @padded before s after hbefore _ _ ih =>
    obtain ⟨c, w, hs, hc, hne⟩ := ih
    refine ⟨c, w ++ after, ?_, hc, hne⟩
    rw [List.append_assoc, blanks_blank_append hbefore, blanks_append_of_cons hs]

theorem value_isNumeral (h : IsNumeral s) (n : Nat) (r : List Char) :
    value (n + 1) (s ++ r) = number (s ++ r) := by
  obtain ⟨sign, whole, p, x, hsign, hwhole, -, -, rfl, -⟩ := h
  obtain ⟨d, ds, rfl⟩ := List.exists_cons_of_ne_nil hwhole.1.1
  have hd := hwhole.1.2 d List.mem_cons_self
  rcases hsign with rfl | rfl
  · exact value_digit hd n _
  · exact value_minus_digit hd n _

theorem blanks_isNumeral (h : IsNumeral s) (r : List Char) : blanks (s ++ r) = s ++ r := by
  obtain ⟨sign, whole, p, x, hsign, hwhole, -, -, rfl, -⟩ := h
  obtain ⟨d, ds, rfl⟩ := List.exists_cons_of_ne_nil hwhole.1.1
  have hd := of_isAsciiDigit (hwhole.1.2 d List.mem_cons_self) (fun c => !isSpace c) (by decide)
  rw [Bool.not_eq_true'] at hd
  rcases hsign with rfl | rfl
  · exact blanks_cons hd _
  · exact blanks_cons rfl _

/-- Items are read one by one, up to the bracket. -/
theorem items_isRead {ts : List (List Char)} {b : List Char} (hne : ts ≠ [])
    (hread : ∀ t ∈ ts, IsRead t) (hb : IsBlank b) {n : Nat} (hn : 2 * (commas ts).length ≤ n)
    (r : List Char) : ∃ vs, items (n + 2) (blanks (commas ts ++ (b ++ ']' :: r))) = .ok (vs, r) := by
  induction ts generalizing n with
  | nil => exact absurd rfl hne
  | cons t ts ih =>
    have ht := hread t List.mem_cons_self
    cases ts with
    | nil =>
      rw [commas_singleton] at hn ⊢
      obtain ⟨v, t', hv, ht'⟩ := ht n (b ++ ']' :: r) hn
        (stops_blank_append hb (stops_cons rfl r))
      rw [blanks_blank_append hb, blanks_cons (c := ']') rfl] at ht'
      rw [items, hv]
      simp only [ht']
      exact ⟨_, rfl⟩
    | cons u ts =>
      rw [commas_cons_cons, List.length_append, List.length_cons] at hn
      obtain ⟨m, rfl⟩ : ∃ m, n = m + 1 := Nat.exists_eq_succ_of_ne_zero (by omega)
      obtain ⟨vs, hvs⟩ := ih (List.cons_ne_nil u ts) (fun w hw => hread w (List.mem_cons_of_mem t hw))
        (n := m) (by omega)
      obtain ⟨v, t', hv, ht'⟩ := ht (m + 1) (',' :: (commas (u :: ts) ++ (b ++ ']' :: r)))
        (by omega) (stops_cons rfl _)
      rw [blanks_cons (c := ',') rfl] at ht'
      rw [commas_cons_cons, List.append_assoc, List.cons_append, items, hv]
      simp only [ht', hvs]
      exact ⟨_, rfl⟩

/-- A name is read, up to its colon. -/
theorem exists_isName (h : IsName s) : ∃ body w, IsStringBody body ∧
    (∀ r, blanks (s ++ r) = '"' :: (body ++ '"' :: (w ++ r))) ∧ IsBlank w := by
  obtain ⟨before, name, after, hbefore, ⟨body, hbody, rfl⟩, hafter, rfl⟩ := h
  refine ⟨body, after, hbody, fun r => ?_, hafter⟩
  rw [List.append_assoc, List.append_assoc, blanks_blank_append hbefore, List.append_assoc,
    List.cons_append, blanks_cons (c := '"') rfl]
  simp

/-- A member is read if its value is, and what goes on behind it. -/
theorem members_pairText {p : List Char × List Char} (hname : IsName p.1) {n : Nat} {rest : List Char}
    (hv : value n (blanks (p.2 ++ rest)) = .ok (v, t))
    (ht : blanks t = '}' :: r ∨ ∃ u ms, blanks t = ',' :: u ∧ members n (blanks u) = .ok (ms, r)) :
    ∃ ms, members (n + 1) (blanks (pairText p ++ rest)) = .ok (ms, r) := by
  obtain ⟨body, w, hbody, hblanks, hw⟩ := exists_isName hname
  have htext : pairText p ++ rest = p.1 ++ ':' :: (p.2 ++ rest) := by simp [pairText]
  obtain ⟨cs, hcs⟩ := string_isStringBody _ hbody (w ++ ':' :: (p.2 ++ rest))
  rw [htext, hblanks, members, hcs]
  simp only [blanks_blank_append hw, blanks_cons (c := ':') rfl, hv]
  rcases ht with hend | ⟨u, ms, hcomma, hms⟩
  · simp only [hend]
    exact ⟨_, rfl⟩
  · simp only [hcomma, hms]
    exact ⟨_, rfl⟩

/-- Members are read one by one, up to the brace. -/
theorem members_isRead {ps : List (List Char × List Char)} {b : List Char} (hne : ps ≠ [])
    (hnames : ∀ p ∈ ps, IsName p.1) (hread : ∀ p ∈ ps, IsRead p.2) (hb : IsBlank b) {n : Nat}
    (hn : 2 * (commas (ps.map pairText)).length ≤ n) (r : List Char) :
    ∃ ms, members (n + 2) (blanks (commas (ps.map pairText) ++ (b ++ '}' :: r))) = .ok (ms, r) := by
  induction ps generalizing n with
  | nil => exact absurd rfl hne
  | cons p ps ih =>
    have hp := hread p List.mem_cons_self
    have hname := hnames p List.mem_cons_self
    have hlen : p.2.length ≤ (pairText p).length := by
      simp only [pairText, List.length_append, List.length_cons]
      omega
    cases ps with
    | nil =>
      rw [List.map_singleton, commas_singleton] at hn ⊢
      obtain ⟨v, t', hv, ht'⟩ := hp n (b ++ '}' :: r) (by omega)
        (stops_blank_append hb (stops_cons rfl r))
      rw [blanks_blank_append hb, blanks_cons (c := '}') rfl] at ht'
      exact members_pairText hname hv (.inl ht')
    | cons q ps =>
      rw [List.map_cons, List.map_cons, commas_cons_cons, List.length_append, List.length_cons] at hn
      rw [← List.map_cons] at hn
      obtain ⟨m, rfl⟩ : ∃ m, n = m + 1 := Nat.exists_eq_succ_of_ne_zero (by omega)
      obtain ⟨ms, hms⟩ := ih (List.cons_ne_nil q ps) (fun x hx => hnames x (List.mem_cons_of_mem p hx))
        (fun x hx => hread x (List.mem_cons_of_mem p hx)) (n := m) (by omega)
      obtain ⟨v, t', hv, ht'⟩ := hp (m + 1) (',' :: (commas ((q :: ps).map pairText) ++ (b ++ '}' :: r)))
        (by omega) (stops_cons rfl _)
      rw [blanks_cons (c := ',') rfl] at ht'
      rw [List.map_cons, List.map_cons, commas_cons_cons, ← List.map_cons, List.append_assoc,
        List.cons_append]
      exact members_pairText hname hv (.inr ⟨_, ms, ht', hms⟩)

theorem blanks_blanks (s : List Char) : blanks (blanks s) = blanks s := by
  obtain ⟨b, hb, hs⟩ := exists_blank s
  exact (blanks_blank_append hb (blanks s)).symm.trans (congrArg blanks hs.symm)

/-- Blanks behind an opening bracket make no difference. -/
theorem value_bracket_blanks (n : Nat) (s : List Char) :
    value (n + 1) ('[' :: s) = value (n + 1) ('[' :: blanks s) := by
  rw [value, value, blanks_blanks]

theorem value_brace_blanks (n : Nat) (s : List Char) :
    value (n + 1) ('{' :: s) = value (n + 1) ('{' :: blanks s) := by
  rw [value, value, blanks_blanks]

/-- **An accepted text is read**, by induction over the grammar. -/
theorem isRead_of_accepted (h : Accepted s) : IsRead s := by
  induction h with
  | word h =>
    intro n r _ _
    simp only [valueWords, List.mem_cons, List.not_mem_nil, or_false] at h
    rcases h with rfl | rfl | rfl | rfl | rfl | rfl <;> exact ⟨_, r, rfl, rfl⟩
  | @numeral s h =>
    intro n r _ hr
    obtain ⟨v, hv⟩ := number_isNumeral h hr
    exact ⟨v, r, by rw [blanks_isNumeral h, value_isNumeral h, hv], rfl⟩
  | string h =>
    intro n r _ _
    obtain ⟨body, hbody, rfl⟩ := h
    have htext : '"' :: body ++ ['"'] ++ r = '"' :: (body ++ '"' :: r) := by simp
    obtain ⟨cs, hcs⟩ := string_isStringBody ('"' :: (body ++ '"' :: r)).length hbody r
    refine ⟨.str (String.ofList cs), r, ?_, rfl⟩
    rw [htext, blanks_cons (c := '"') rfl, value, hcs]
  | @array ts b h hb ih =>
    intro n r hn _
    have htext : '[' :: commas ts ++ b ++ [']'] ++ r = '[' :: (commas ts ++ (b ++ ']' :: r)) := by simp
    rw [htext, blanks_cons (c := '[') rfl, value_bracket_blanks]
    cases ts with
    | nil =>
      rw [commas_nil, List.nil_append, blanks_blank_append hb, blanks_cons (c := ']') rfl]
      exact ⟨.arr [], r, rfl, rfl⟩
    | cons t ts =>
      -- The two brackets pay for the step to the items and for the first step of theirs.
      simp only [List.length_append, List.length_cons, List.length_nil] at hn
      obtain ⟨m, rfl⟩ : ∃ m, n = m + 2 := Nat.exists_eq_add_of_le' (by omega)
      obtain ⟨vs, hvs⟩ := items_isRead (List.cons_ne_nil t ts) ih hb (n := m) (by omega) r
      obtain ⟨c, w, ht, hc, hne⟩ := (h t List.mem_cons_self).exists_head
      obtain ⟨rest, hrest⟩ := exists_commas_append t ts
      rw [hrest, List.append_assoc, blanks_append_of_cons ht] at hvs ⊢
      rw [value_bracket hc hne, hvs]
      exact ⟨.arr vs, r, rfl, rfl⟩
  | @object ps b hnames h hb ih =>
    intro n r hn _
    have htext : '{' :: commas (ps.map pairText) ++ b ++ ['}'] ++ r =
        '{' :: (commas (ps.map pairText) ++ (b ++ '}' :: r)) := by simp
    rw [htext, blanks_cons (c := '{') rfl, value_brace_blanks]
    cases ps with
    | nil =>
      rw [List.map_nil, commas_nil, List.nil_append, blanks_blank_append hb, blanks_cons (c := '}') rfl]
      exact ⟨.obj [], r, rfl, rfl⟩
    | cons p ps =>
      simp only [List.length_append, List.length_cons, List.length_nil] at hn
      obtain ⟨m, rfl⟩ : ∃ m, n = m + 2 := Nat.exists_eq_add_of_le' (by omega)
      obtain ⟨ms, hms⟩ := members_isRead (List.cons_ne_nil p ps) hnames ih hb (n := m) (by omega) r
      obtain ⟨body, w, -, hname, -⟩ := exists_isName (hnames p List.mem_cons_self)
      obtain ⟨rest, hrest⟩ := exists_commas_append (pairText p) (ps.map pairText)
      rw [List.map_cons, hrest, pairText, List.append_assoc, List.append_assoc, hname] at hms ⊢
      rw [value_brace (by decide) (by decide), hms]
      exact ⟨.obj (Pairs.ofList ms), r, rfl, rfl⟩
  | @padded before s after hbefore h hafter ih =>
    intro n r hn hr
    simp only [List.length_append] at hn
    obtain ⟨v, t, hv, ht⟩ := ih n (after ++ r) (by omega) (stops_blank_append hafter hr)
    refine ⟨v, t, ?_, ht.trans (blanks_blank_append hafter r)⟩
    rw [List.append_assoc, List.append_assoc, blanks_blank_append hbefore, hv]

/-! ## Whole texts -/

/-- **A text is read exactly if it is accepted.** -/
theorem exists_parseChars_iff : (∃ v, parseChars s = .ok v) ↔ Accepted s := by
  constructor
  · rintro ⟨v, h⟩
    unfold parseChars whole at h
    split at h
    · next hw =>
      split at hw
      · cases hw
      · next t hv =>
        split at hw
        · next hend =>
          obtain ⟨u, hu, hs⟩ := (readSteps _).value hv
          obtain ⟨u, hu, rfl⟩ := hu.exists_of_blanks hs
          obtain ⟨u, hu, hs⟩ := hu.exists_append t
          rw [hs, hend, List.append_nil]
          exact hu
        · cases hw
    · cases h
  · intro h
    obtain ⟨v, t, hv, ht⟩ := isRead_of_accepted h (2 * s.length) [] (Nat.le_refl _) (stops_nil _)
    rw [List.append_nil] at hv
    refine ⟨v, ?_⟩
    simp only [parseChars, whole, hv, ht]
    rfl

end LockAudit.Json
