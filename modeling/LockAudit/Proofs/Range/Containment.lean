import LockAudit.Proofs.Range.Alternatives
import LockAudit.Proofs.Range.Reading

/-!
# `LockAudit.Proofs.Range.Containment` — containment is decided as the meaning says

Whether a release lies in a range is decided on texts: the range is cut at the signs `||`, its
alternatives at blanks, the blanks behind operators taken away first. Whatever spaces a range is written
with, these cuts find the parts that it was put together from.

* `joinOperators_text` — joining takes away the spaces behind a sign and nothing else;
* `words_joinOperators`, `words_listText`, `words_hyphenText` — the words of an alternative, by which the
  two kinds of alternatives are told apart;
* `constraints_text` — an alternative is read as what it means;
* `alternatives_text` — a range is cut into its alternatives;
* `satisfies_iff_admits` — so a release lies in a range exactly if the range admits it.
-/

namespace LockAudit.Range

open LockAudit.Text

namespace Spelled

/-! ## Signs -/

/-- The characters that signs are written with. -/
def signChars : List Char := ['<', '>', '=', '^', '~']

/-- What is so of these characters one by one is so of every sign's. -/
theorem Sign.forall_mem_text (s : Sign) {p : Char → Bool} (h : signChars.all p = true) :
    ∀ x ∈ s.text, p x = true := by
  have hall : s.text.all signChars.contains = true := by cases s <;> rfl
  intro x hx
  have hmem : x ∈ signChars := List.contains_iff_mem.mp (List.all_eq_true.mp hall x hx)
  exact List.all_eq_true.mp h x hmem

theorem Sign.not_blank (s : Sign) : ∀ x ∈ s.text, isBlank x = false := by
  intro x hx
  have h := s.forall_mem_text (p := fun x => !isBlank x) (by decide) x hx
  exact (Bool.not_eq_true' _).mp h

theorem Sign.text_ne_nil {s : Sign} (h : s ≠ .none) : s.text ≠ [] := by
  cases s with
  | none => exact absurd rfl h
  | _ => exact List.cons_ne_nil _ _

/-! ## Joining -/

theorem forall_mem_spaces {n : Nat} {p : Char → Prop} (h : p ' ') : ∀ c ∈ spaces n, p c := by
  intro c hc
  rw [(List.mem_replicate.mp hc).2]
  exact h

theorem blank_spaces {n : Nat} : ∀ c ∈ spaces n, isBlank c = true :=
  forall_mem_spaces (by decide)

theorem spaces_succ_append (n : Nat) (r : List Char) : spaces (n + 1) ++ r = ' ' :: (spaces n ++ r) :=
  rfl

/-- Joining leaves a text as it is as long as no operator comes. -/
theorem joinOperators_append {s : List Char} (hs : ∀ c ∈ s, isOperatorChar c = false)
    (r : List Char) : joinOperators (s ++ r) = s ++ joinOperators r := by
  induction s with
  | nil => rfl
  | cons c s ih =>
    have hc := hs c List.mem_cons_self
    have ih := ih fun x hx => hs x (List.mem_cons_of_mem c hx)
    rw [List.cons_append, joinOperators, if_neg (by simp [hc]), ih]
    rfl

/-- Without operators there is nothing to join. -/
theorem joinOperators_of_all {s : List Char} (hs : ∀ c ∈ s, isOperatorChar c = false) : joinOperators s = s := by
  have h := joinOperators_append hs []
  rwa [List.append_nil, joinOperators, List.append_nil] at h

theorem joinOperators_cons {c : Char} (hc : isOperatorChar c = true) (r : List Char) :
    joinOperators (c :: r) = c :: joinOperators (r.dropWhile isBlank) := by
  rw [joinOperators, if_pos hc]

/-- Behind a sign the blanks are dropped. -/
theorem joinOperators_sign {s : Sign} (hs : s ≠ .none) (r : List Char) :
    joinOperators (s.text ++ r) = s.text ++ joinOperators (r.dropWhile isBlank) := by
  -- A sign has one or two characters, and an operator may end with each of them.
  have hone : ∀ {x : Char}, isOperatorChar x = true →
      joinOperators ([x] ++ r) = [x] ++ joinOperators (r.dropWhile isBlank) :=
    fun hx => joinOperators_cons hx r
  have htwo : ∀ {x y : Char}, isOperatorChar x = true → isOperatorChar y = true →
      isBlank y = false →
      joinOperators ([x, y] ++ r) = [x, y] ++ joinOperators (r.dropWhile isBlank) := by
    intro x y hx hy hblank
    show joinOperators (x :: y :: r) = x :: y :: _
    rw [joinOperators_cons hx, (stops_cons hblank r).dropWhile, joinOperators_cons hy]
    rfl
  cases s with
  | none => exact absurd rfl hs
  | equal | less | greater | caret | tilde => exact hone rfl
  | lessEqual | greaterEqual | tildeGreater => exact htwo rfl rfl rfl

/-- **Joining takes away the spaces behind a sign**, and goes on behind the bound. -/
theorem joinOperators_text (c : Comparator) (r : List Char) :
    joinOperators (c.text ++ r) = c.token ++ joinOperators r := by
  have hbound : joinOperators (c.bound.text ++ r) = c.bound.text ++ joinOperators r :=
    joinOperators_append c.bound.not_operator r
  have hstop : Stops isBlank (c.bound.text ++ r) := by
    obtain ⟨x, s, hxs, -⟩ := c.bound.exists_head
    rw [hxs]
    exact stops_cons (c.bound.not_blank x (by rw [hxs]; exact List.mem_cons_self)) _
  rw [Comparator.text, Comparator.token, Comparator.gapText]
  by_cases hs : c.sign = .none
  · rw [if_pos hs, hs]
    exact hbound
  · rw [if_neg hs, List.append_assoc, List.append_assoc, joinOperators_sign hs,
      dropWhile_append_stop blank_spaces hstop, hbound, List.append_assoc]

/-! ## Words -/

/-- What stands behind a comparator in a list. -/
def restText (n : Nat) (cs : List (Comparator × Nat)) : List Char :=
  if cs = [] then [] else spaces (n + 1) ++ listText cs

theorem listText_cons (c : Comparator) (n : Nat) (cs : List (Comparator × Nat)) :
    listText ((c, n) :: cs) = c.text ++ restText n cs := by
  cases cs with
  | nil => exact (List.append_nil _).symm
  | cons d cs => exact List.append_assoc ..

theorem joinOperators_restText (n : Nat) (cs : List (Comparator × Nat)) :
    joinOperators (restText n cs) =
      if cs = [] then [] else spaces (n + 1) ++ joinOperators (listText cs) := by
  have hspaces : ∀ c ∈ spaces (n + 1), isOperatorChar c = false := forall_mem_spaces (by decide)
  unfold restText
  split
  · rw [joinOperators]
  · exact joinOperators_append hspaces _

theorem stops_restText (n : Nat) (cs : List (Comparator × Nat)) :
    Stops (fun c => !isBlank c) (restText n cs) := by
  unfold restText
  split
  · exact stops_nil _
  · exact stops_cons (by decide) _

theorem words_restText (n : Nat) (cs : List (Comparator × Nat)) :
    words (restText n cs) = words (listText cs) := by
  unfold restText
  split
  · next h => rw [h]; rfl
  · exact words_blanks_append blank_spaces _

namespace Comparator

variable (c : Comparator)

/-- The words of a comparator: its sign stands apart if there are spaces behind it. -/
def words : List (List Char) :=
  if c.sign = .none ∨ c.gap = 0 then [c.token] else [c.sign.text, c.bound.text]

theorem isWord_token : IsWord c.token := by
  refine ⟨by simp [token, c.bound.isWord.1], ?_⟩
  intro x hx
  rcases List.mem_append.mp hx with hx | hx
  · exact c.sign.not_blank x hx
  · exact c.bound.not_blank x hx

theorem words_text_append {r : List Char} (hr : Stops (fun x => !isBlank x) r) :
    Text.words (c.text ++ r) = c.words ++ Text.words r := by
  unfold words
  split
  · next h =>
    -- Without a sign, or with the bound right behind it, nothing sets the two apart.
    have htext : c.text = c.token := by
      rcases h with h | h
      · simp [text, token, gapText, h]
      · simp [text, token, gapText, h, spaces]
    rw [htext, words_append_stop c.isWord_token hr]
    rfl
  · next h =>
    obtain ⟨hsign, hgap⟩ := not_or.mp h
    obtain ⟨n, hn⟩ := Nat.exists_eq_succ_of_ne_zero hgap
    have hword : IsWord c.sign.text := ⟨Sign.text_ne_nil hsign, c.sign.not_blank⟩
    rw [text, gapText, if_neg hsign, hn, List.append_assoc, List.append_assoc, spaces_succ_append,
      words_append_cons hword (by decide), words_blanks_append blank_spaces,
      words_append_stop c.bound.isWord hr]
    rfl

/-- No word of a comparator is a hyphen alone. -/
theorem hyphen_not_mem_words : ['-'] ∉ c.words := by
  obtain ⟨x, r, hxr, hne⟩ := c.bound.exists_head
  have hbound : ['-'] ≠ c.bound.text := by
    rw [hxr]
    intro h
    exact hne (List.cons.inj h).1.symm
  have hsign : ['-'] ≠ c.sign.text := by
    cases c.sign <;> decide
  have htoken : ['-'] ≠ c.token := by
    rw [token]
    cases hs : c.sign with
    | none => exact hbound
    | _ => simp [Sign.text]
  unfold words
  split
  · exact fun h => htoken (List.mem_singleton.mp h)
  · simp [hsign, hbound]

end Comparator

/-- The words of a list of comparators. -/
theorem words_listText (cs : List (Comparator × Nat)) :
    words (listText cs) = cs.flatMap fun c => c.1.words := by
  induction cs with
  | nil => rfl
  | cons c cs ih =>
    rw [listText_cons, c.1.words_text_append (stops_restText c.2 cs), words_restText, ih]
    rfl

/-- Once joined, each comparator is one word. -/
theorem words_joinOperators (cs : List (Comparator × Nat)) :
    words (joinOperators (listText cs)) = (cs.map Prod.fst).map Comparator.token := by
  induction cs with
  | nil => rw [show listText [] = [] from rfl, joinOperators]; rfl
  | cons c cs ih =>
    have hjoin := joinOperators_restText c.2 cs
    have hstop : Stops (fun x => !isBlank x) (joinOperators (restText c.2 cs)) := by
      rw [hjoin]
      split
      · exact stops_nil _
      · exact stops_cons (by decide) _
    have hrest : words (joinOperators (restText c.2 cs)) = words (joinOperators (listText cs)) := by
      rw [hjoin]
      split
      · next h => rw [h, show listText [] = [] from rfl, joinOperators]
      · exact words_blanks_append blank_spaces _
    rw [listText_cons, joinOperators_text, words_append_stop c.1.isWord_token hstop, hrest, ih]
    rfl

/-- Two words with a hyphen between them, and spaces around it. -/
theorem words_hyphen {low high : List Char} (hlow : IsWord low) (hhigh : IsWord high) (left right : Nat) :
    words (low ++ spaces (left + 1) ++ ['-'] ++ spaces (right + 1) ++ high) = [low, ['-'], high] := by
  have hyphenWord : IsWord ['-'] := by
    refine ⟨List.cons_ne_nil _ _, ?_⟩
    intro c hc
    rw [List.mem_singleton.mp hc]
    decide
  simp only [List.append_assoc]
  rw [spaces_succ_append, words_append_cons hlow (by decide), words_blanks_append blank_spaces,
    spaces_succ_append, words_append_cons hyphenWord (by decide), words_blanks_append blank_spaces,
    words_of_isWord hhigh]

/-- The words of a hyphen range. -/
theorem words_hyphenText (low high : Bound) (left right : Nat) :
    words (Alternative.text (.hyphen low left right high)) = [low.text, ['-'], high.text] :=
  words_hyphen low.isWord high.isWord left right

/-! ## Alternatives -/

/-- The constraints of a hyphen range: not before its lower end, not behind its upper one. -/
theorem hyphen_text (low high : Bound) :
    ∃ cs, hyphen low.text high.text = .ok cs ∧
      Says cs (fun v => Sign.Meets .greaterEqual low.numbers v ∧
        Sign.Meets .lessEqual high.numbers v) := by
  obtain ⟨cs, hcs, hlow⟩ := expand_says low.numbers_length_le low.countable .greaterEqual
  obtain ⟨ds, hds, hhigh⟩ := expand_says high.numbers_length_le high.countable .lessEqual
  have hcs : expand .ge ⟨low.numbers, []⟩ = .ok cs := hcs
  have hds : hyphenEnd ⟨high.numbers, []⟩ = .ok ds :=
    (hyphenEnd_eq_expand high.numbers_length_le high.countable).trans hds
  refine ⟨cs ++ ds, ?_, hlow.append hhigh⟩
  rw [hyphen, high.parse_text, low.parse_text]
  show (expand .ge ⟨low.numbers, []⟩ >>= fun least =>
    hyphenEnd ⟨high.numbers, []⟩ >>= fun greatest => pure (least ++ greatest)) = _
  rw [hcs, hds]
  rfl

/-- **An alternative is read as what it means.** -/
theorem constraints_text (a : Alternative) :
    ∃ cs, constraints a.text = .ok cs ∧ Says cs a.Admits := by
  cases a with
  | hyphen low left right high =>
    obtain ⟨cs, hcs, hmeans⟩ := hyphen_text low high
    refine ⟨cs, ?_, hmeans⟩
    rw [constraints, words_hyphenText]
    exact hcs
  | all cs =>
    obtain ⟨ds, hds, hmeans⟩ := comparators_tokens (cs.map Prod.fst)
    refine ⟨ds, ?_, hmeans.congr fun v _ => ?_⟩
    · -- A hyphen range is told by the hyphen between its ends, and no comparator has such a word.
      have hno : ['-'] ∉ words (listText cs) := by
        rw [words_listText, List.mem_flatMap]
        rintro ⟨c, -, hc⟩
        exact c.1.hyphen_not_mem_words hc
      unfold constraints
      split
      · next low high h =>
        rw [Alternative.text] at h
        rw [h] at hno
        simp at hno
      · rw [Alternative.text, words_joinOperators, hds]
    · simp [Alternative.Admits]

/-! ## Unions -/

theorem Comparator.tight_text (c : Comparator) : Tight c.text := by
  by_cases hs : c.sign = .none
  · rw [text, gapText, if_pos hs, hs]
    exact c.bound.tight
  · have hsign : Tight c.sign.text := tight_of_all c.sign.not_blank
    exact hsign.append c.bound.tight (Sign.text_ne_nil hs) c.bound.isWord.1 _

theorem Comparator.text_ne_nil (c : Comparator) : c.text ≠ [] := by
  simp [text, c.bound.isWord.1]

theorem tight_listText (cs : List (Comparator × Nat)) : Tight (listText cs) := by
  induction cs with
  | nil => exact tight_nil
  | cons c cs ih =>
    rw [listText_cons, restText]
    cases cs with
    | nil =>
      rw [if_pos rfl, List.append_nil]
      exact c.1.tight_text
    | cons d cs =>
      have hne : listText (d :: cs) ≠ [] := by
        rw [listText_cons]
        simp [d.1.text_ne_nil]
      rw [if_neg (List.cons_ne_nil d cs), ← List.append_assoc]
      exact c.1.tight_text.append ih c.1.text_ne_nil hne _

/-- An alternative has no blanks around it, so those that are there belong to the range. -/
theorem Alternative.tight_text (a : Alternative) : Tight a.text := by
  cases a with
  | all cs => exact tight_listText cs
  | hyphen low left right high =>
    have h := low.tight.append high.tight low.isWord.1 high.isWord.1
      (spaces (left + 1) ++ ['-'] ++ spaces (right + 1))
    rw [text]
    simpa only [List.append_assoc] using h

theorem not_bar_spaces {n : Nat} : ∀ c ∈ spaces n, c ≠ '|' := forall_mem_spaces (by decide)

theorem Bound.not_bar (b : Bound) : ∀ c ∈ b.text, c ≠ '|' := by
  intro c h
  have hp := b.isPlain_of_mem h
  simp only [isPlain, Bool.and_eq_true, bne_iff_ne] at hp
  exact hp.2

theorem Comparator.not_bar (c : Comparator) : ∀ x ∈ c.text, x ≠ '|' := by
  intro x h
  have hsign : ∀ y ∈ c.sign.text, (y != '|') = true := c.sign.forall_mem_text (by decide)
  rw [text, gapText, List.mem_append, List.mem_append] at h
  rcases h with (h | h) | h
  · exact bne_iff_ne.mp (hsign x h)
  · split at h
    · cases h
    · exact not_bar_spaces x h
  · exact c.bound.not_bar x h

theorem not_bar_listText (cs : List (Comparator × Nat)) : ∀ x ∈ listText cs, x ≠ '|' := by
  intro x h
  induction cs with
  | nil => cases h
  | cons c cs ih =>
    rw [listText_cons, restText, List.mem_append] at h
    rcases h with h | h
    · exact c.1.not_bar x h
    · split at h
      · cases h
      · rcases List.mem_append.mp h with h | h
        · exact not_bar_spaces x h
        · exact ih h

theorem Spaced.not_bar (a : Spaced) : ∀ x ∈ a.text, x ≠ '|' := by
  intro x h
  rw [text, List.mem_append, List.mem_append] at h
  rcases h with (h | h) | h
  · exact not_bar_spaces x h
  · cases ha : a.alternative with
    | all cs =>
      rw [ha] at h
      exact not_bar_listText cs x h
    | hyphen low left right high =>
      rw [ha] at h
      simp only [Alternative.text, List.mem_append, List.mem_singleton] at h
      rcases h with (((h | h) | rfl) | h) | h
      · exact low.not_bar x h
      · exact not_bar_spaces x h
      · decide
      · exact not_bar_spaces x h
      · exact high.not_bar x h
  · exact not_bar_spaces x h

theorem Spaced.not_bar_getLast (a : Spaced) : a.text.getLast? ≠ some '|' :=
  fun h => a.not_bar '|' (List.mem_of_getLast? h) rfl

theorem cut_unionText (a : Spaced) (as : List Spaced) :
    cut (unionText a as) = (a :: as).map Spaced.text := by
  induction as generalizing a with
  | nil => exact cut_of_all a.not_bar
  | cons b as ih =>
    rw [unionText, cut_append a.not_bar_getLast, cut_of_all a.not_bar, ih]
    rfl

/-- **A range is cut into its alternatives.** -/
theorem alternatives_text (u : Union) :
    Range.alternatives u.text = u.alternatives.map fun a => a.alternative.text := by
  rw [Range.alternatives, Union.text, cut_unionText, List.map_map]
  refine List.map_congr_left fun a _ => ?_
  exact trim_blanks_append a.alternative.tight_text blank_spaces
    blank_spaces

/-- One of some alternatives admits a release exactly if the reading of their texts finds one. -/
theorem admits_text {v : List Nat} (hv : v.length = 3) (as : List Spaced) :
    admits (Version.ofRelease v) (as.map fun a => a.alternative.text) =
      .ok (decide (∃ a ∈ as, a.alternative.Admits v)) := by
  induction as with
  | nil => simp [admits]
  | cons a as ih =>
    obtain ⟨cs, hcs, hmeans⟩ := constraints_text a.alternative
    have hmeans := hmeans v hv
    rw [List.map_cons, admits, hcs]
    show (if cs.all (·.admits (Version.ofRelease v)) = true then Except.ok true else _) = _
    rw [ih]
    -- Alternatives are tried from the left, and the first that admits the release decides.
    by_cases ha : a.alternative.Admits v
    · rw [if_pos (hmeans.mpr ha)]
      simp [ha]
    · rw [if_neg (mt hmeans.mp ha)]
      simp [ha]

/-! ## Containment -/

theorem Digits.isNumeral (d : Digits) : Version.IsNumeral d.row :=
  ⟨⟨d.row_ne, d.row_ascii⟩, Nat.le_of_lt d.row_short⟩

/-- A release is read as its three numbers. -/
theorem Release.parseInstalled_text (r : Release) :
    Version.parseInstalled r.text = .ok (Version.ofRelease r.numbers) := by
  refine Version.parseInstalled_points (List.cons_ne_nil _ _) ?_
  intro d hd
  simp only [List.mem_cons, List.not_mem_nil, or_false] at hd
  rcases hd with rfl | rfl | rfl
  · exact r.major.isNumeral
  · exact r.minor.isNumeral
  · exact r.patch.isNumeral

end Spelled

open Spelled

/-- **Containment is decided as the meaning says.** Whether a release lies in a range is decided without
    an error, and it does exactly if one of the range's alternatives admits its three numbers. -/
theorem satisfies_iff_admits (v : Release) (u : Union) :
    satisfies (String.ofList v.text) (some (String.ofList u.text)) =
      .ok (decide (u.Admits v.numbers)) := by
  unfold satisfies
  rw [String.toList_ofList, v.parseInstalled_text]
  show admits (Version.ofRelease v.numbers) (Range.alternatives (String.ofList u.text).toList) = _
  rw [String.toList_ofList, alternatives_text]
  exact admits_text rfl u.alternatives

example : satisfies "1.2.9" (some "^0.3 ||  >= 1.2   <1.3.x ") = .ok true := by cbv

example : satisfies "1.2.9" (some "> v1.2 || 0.9 - 1.2.8") = .ok false := by cbv

end LockAudit.Range
