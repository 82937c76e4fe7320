import LockAudit.Proofs.Range.Grammar
import LockAudit.Proofs.Version.Release

/-!
# `LockAudit.Proofs.Range.Bounds` — the constraints of a comparator mean what its sign says

A comparator is turned into constraints by filling its bound up with zeros and by counting up the last
number that it holds fixed. On releases both kinds of edge can be forgotten:

* `lt_zeros_iff` — to lie before a bound filled up with zeros is to lie before it in its own numbers;
* `lt_succLast_zeros_iff` — to lie before the first release behind all those that begin with some numbers
  is not to lie behind these numbers.

With these, `expand_says` shows sign by sign that the constraints hold of a release exactly if the
comparator does.
-/

namespace LockAudit.Range

open Spelled

/-! ## Edges -/

theorem not_lt_zeros {v : List Nat} {m : Nat} (h : v.length = m) : ¬ v < List.replicate m 0 := by
  induction v generalizing m with
  | nil =>
    subst h
    simp
  | cons x v ih =>
    subst h
    rw [List.length_cons, List.replicate_succ, List.cons_lt_cons_iff]
    rintro (hx | ⟨-, hv⟩)
    · exact Nat.not_lt_zero x hx
    · exact ih rfl hv

/-- **The lower edge.** The zeros that fill a bound up do not matter. -/
theorem lt_zeros_iff {q v : List Nat} {m : Nat} (h : v.length = q.length + m) :
    v < q ++ List.replicate m 0 ↔ v.take q.length < q := by
  induction q generalizing v with
  | nil =>
    have := not_lt_zeros (v := v) (m := m) (by simpa using h)
    simp [this]
  | cons a q ih =>
    cases v with
    | nil =>
      simp only [List.length_nil, List.length_cons] at h
      omega
    | cons x v =>
      have hlen : v.length = q.length + m := by
        simp only [List.length_cons] at h
        omega
      rw [List.cons_append, List.cons_lt_cons_iff, List.length_cons, List.take_succ_cons,
        List.cons_lt_cons_iff, ih hlen]

theorem succLast_length (q : List Nat) : (succLast q).length = q.length := by
  fun_induction succLast q with
  | case1 => rfl
  | case2 n => rfl
  | case3 n ns _ ih => rw [List.length_cons, ih, List.length_cons]

/-- **The upper edge.** What lies before the successor does not lie behind the numbers themselves. -/
theorem lt_succLast_zeros_iff {q v : List Nat} {m : Nat} (hq : q ≠ [])
    (h : v.length = q.length + m) :
    v < succLast q ++ List.replicate m 0 ↔ ¬ q < v.take q.length := by
  induction q generalizing v with
  | nil => exact absurd rfl hq
  | cons a q ih =>
    cases v with
    | nil =>
      simp only [List.length_nil, List.length_cons] at h
      omega
    | cons x v =>
      have hlen : v.length = q.length + m := by
        simp only [List.length_cons] at h
        omega
      rw [List.length_cons, List.take_succ_cons, List.cons_lt_cons_iff]
      cases q with
      | nil =>
        -- The last number is counted up, so everything that begins with it still lies before.
        have hz := not_lt_zeros (v := v) (m := m) (by simpa using hlen)
        rw [show succLast [a] = [a + 1] from rfl, List.cons_append, List.nil_append,
          List.cons_lt_cons_iff]
        simp only [List.length_nil, List.take_zero, List.lt_irrefl, and_false, or_false, hz]
        omega
      | cons b q =>
        -- Up to the last number both sides compare the same numbers.
        have ih := ih (List.cons_ne_nil b q) hlen
        rw [show succLast (a :: b :: q) = a :: succLast (b :: q) from rfl, List.cons_append,
          List.cons_lt_cons_iff, ih]
        rcases Nat.lt_trichotomy x a with hx | rfl | hx
        · simp [hx, Nat.lt_asymm hx, Nat.ne_of_gt hx]
        · simp
        · simp [hx, Nat.lt_asymm hx, Nat.ne_of_gt hx]

/-- What agrees less with a bound than its first numbers do lies before it. -/
theorem lt_of_take_lt {p v : List Nat} {k : Nat} (h : v.take k < p.take k) : v < p := by
  induction k generalizing p v with
  | zero => simp at h
  | succ k ih =>
    cases p with
    | nil => simp at h
    | cons a p =>
      cases v with
      | nil => exact List.nil_lt_cons a p
      | cons x v =>
        rw [List.take_succ_cons, List.take_succ_cons, List.cons_lt_cons_iff] at h
        rw [List.cons_lt_cons_iff]
        rcases h with h | ⟨h, h'⟩
        · exact .inl h
        · exact .inr ⟨h, ih h'⟩

/-- Lists that do not lie before one another are the same. -/
theorem eq_of_not_lt {u w : List Nat} (h : ¬ u < w) (h' : ¬ w < u) : u = w :=
  List.le_antisymm h' h

/-! ## Constraints on releases -/

/-- How two rows of numbers of one length stand in a relation. -/
def Relation.Relates : Relation → List Nat → List Nat → Prop
  | .lt, v, b => v < b
  | .le, v, b => ¬ b < v
  | .gt, v, b => b < v
  | .ge, v, b => ¬ v < b
  | .eq, v, b => v = b

/-- A constraint to a release holds of a release of that length exactly if their numbers are in the
    relation. -/
theorem admits_ofRelease {v b : List Nat} (h : v.length = b.length) (r : Relation) :
    (Constraint.mk r (Version.ofRelease b)).admits (Version.ofRelease v) = true ↔ r.Relates v b := by
  unfold Constraint.admits
  rw [Version.order_ofRelease h]
  cases r with
  | lt => exact Ordering.isLT_iff_eq_lt.trans Version.compare_eq_lt_iff
  | gt => exact Ordering.isGT_iff_eq_gt.trans Version.compare_eq_gt_iff
  | eq => exact Ordering.isEq_iff_eq_eq.trans Std.compare_eq_iff_eq
  | le =>
    show (compare v b).isLE = true ↔ ¬ b < v
    rw [← Version.compare_eq_gt_iff]
    cases compare v b <;> simp
  | ge =>
    show (compare v b).isGE = true ↔ ¬ v < b
    rw [← Version.compare_eq_lt_iff]
    cases compare v b <;> simp

/-- No release lies before the release zero. -/
theorem not_admits_zero (v : List Nat) :
    (Constraint.mk .lt (Version.ofRelease [0])).admits (Version.ofRelease v) = false := by
  have hkey : ∀ r, (Version.ofRelease r).key = [[0], Version.significant r, [4], [0], [1]] :=
    fun _ => rfl
  have hzero : Version.significant [0] = [] := by decide
  unfold Constraint.admits Version.order
  -- Of the release zero no number counts, and nothing comes before an empty row.
  rw [hkey, hkey, hzero]
  cases Version.significant v with
  | nil => decide
  | cons n ns => rfl

/-! ## Comparators -/

/-- The operator that a sign stands for. -/
def Spelled.Sign.operator : Sign → Operator
  | .none | .equal => .same
  | .less => .lt
  | .lessEqual => .le
  | .greater => .gt
  | .greaterEqual => .ge
  | .caret => .caret
  | .tilde | .tildeGreater => .tilde

/-- A number that can be written, and the next one too. -/
def Countable (n : Nat) : Prop := Numeral.writable n = true ∧ Numeral.writable (n + 1) = true

theorem countable_zero : Countable 0 := ⟨by decide, by decide⟩

/-- A row of digits that is shorter than the longest numeral leaves room to count up. -/
theorem countable_value {ds : List Char} (h : ds.length < Numeral.maxDigits) :
    Countable (Numeral.value ds) := by
  have hlt : Numeral.value ds < tenTo ds.length := Numeral.value_lt_tenTo ds
  have hsucc : tenTo (ds.length + 1) = tenTo ds.length * 10 := tenTo_succ _
  have hpos : 0 < ds.length + 1 := Nat.succ_pos _
  constructor
  · exact Numeral.writable_of_lt (by omega) hpos h
  · exact Numeral.writable_of_lt (by omega) hpos h

theorem writable_succLast {q : List Nat} (h : ∀ n ∈ q, Countable n) :
    ∀ n ∈ succLast q, Numeral.writable n = true := by
  induction q with
  | nil => simp [succLast]
  | cons a q ih =>
    cases q with
    | nil =>
      intro n hn
      rw [List.mem_singleton.mp hn]
      exact (h a List.mem_cons_self).2
    | cons b q =>
      intro n hn
      rcases List.mem_cons.mp hn with rfl | hn
      · exact (h _ List.mem_cons_self).1
      · exact ih (fun x hx => h x (List.mem_cons_of_mem a hx)) n hn

theorem writable_padded {q : List Nat} (h : ∀ n ∈ q, Numeral.writable n = true) :
    ∀ n ∈ padded q, Numeral.writable n = true := by
  intro n hn
  rcases List.mem_append.mp hn with hn | hn
  · exact h n hn
  · rw [(List.mem_replicate.mp hn).2]
    exact countable_zero.1

theorem padded_ne_nil {q : List Nat} : padded q ≠ [] := by
  intro h
  have hlen := congrArg List.length h
  simp only [padded, List.length_append, List.length_replicate, List.length_nil] at hlen
  omega

theorem padded_length {q : List Nat} (h : q.length ≤ 3) : (padded q).length = 3 := by
  simp only [padded, List.length_append, List.length_replicate]
  omega

/-- The least release that begins with some numbers. -/
def least (ns : List Nat) : Version := Version.ofRelease (padded ns)

/-- The first release behind all that begin with some numbers. -/
def behind (ns : List Nat) : Version := Version.ofRelease (padded (succLast ns))

section
variable {ns : List Nat} (hcount : ∀ n ∈ ns, Countable n)
include hcount

theorem lower_eq : Partial.lower ⟨ns, []⟩ = .ok (least ns) :=
  Version.ofSemantic_release padded_ne_nil (writable_padded fun n hn => (hcount n hn).1)

theorem upper_eq (k : Nat) : Partial.upper ⟨ns, []⟩ k = .ok (behind (ns.take k)) :=
  Version.ofSemantic_release padded_ne_nil
    (writable_padded (writable_succLast fun n hn => hcount n (List.mem_of_mem_take hn)))

/-- The constraints of an operator and a bound that has numbers. -/
theorem expand_of_ne (hne : ns ≠ []) (op : Operator) :
    expand op ⟨ns, []⟩ = .ok (match op with
      | .caret => [⟨.ge, least ns⟩, ⟨.lt, behind (ns.take (caretWidth ⟨ns, []⟩))⟩]
      | .tilde => [⟨.ge, least ns⟩, ⟨.lt, behind (ns.take (tildeWidth ⟨ns, []⟩))⟩]
      | .lt => [⟨.lt, least ns⟩]
      | .ge => [⟨.ge, least ns⟩]
      | .le => if ns.length = 3 then [⟨.le, least ns⟩] else [⟨.lt, behind (ns.take ns.length)⟩]
      | .gt => if ns.length = 3 then [⟨.gt, least ns⟩] else [⟨.ge, behind (ns.take ns.length)⟩]
      | .same =>
        if ns.length = 3 then [⟨.eq, least ns⟩]
        else [⟨.ge, least ns⟩, ⟨.lt, behind (ns.take ns.length)⟩]) := by
  obtain ⟨n, r, rfl⟩ := List.exists_cons_of_ne_nil hne
  have hlower := lower_eq hcount
  have hupper := upper_eq hcount
  by_cases h3 : (n :: r).length = 3
  · cases op <;> simp only [expand, hlower, hupper, if_pos h3] <;> rfl
  · cases op <;> simp only [expand, hlower, hupper, if_neg h3] <;> rfl

end

/-- Constraints that hold of a release of three numbers exactly if something is so of these numbers. -/
def Says (cs : List Constraint) (p : List Nat → Prop) : Prop :=
  ∀ v, v.length = 3 → (cs.all (·.admits (Version.ofRelease v)) = true ↔ p v)

theorem says_nil : Says [] (fun _ => True) := fun v _ => by simp

theorem says_zero : Says [⟨.lt, Version.ofRelease [0]⟩] (fun _ => False) := by
  intro v _
  simp [not_admits_zero]

theorem says_one {b : List Nat} (hb : b.length = 3) (r : Relation) :
    Says [⟨r, Version.ofRelease b⟩] (fun v => r.Relates v b) := by
  intro v hv
  rw [List.all_cons, List.all_nil, Bool.and_true]
  exact admits_ofRelease (hv.trans hb.symm) r

theorem Says.append {cs ds : List Constraint} {p q : List Nat → Prop} (hc : Says cs p)
    (hd : Says ds q) : Says (cs ++ ds) (fun v => p v ∧ q v) := by
  intro v hv
  rw [List.all_append, Bool.and_eq_true, hc v hv, hd v hv]

theorem Says.congr {cs : List Constraint} {p q : List Nat → Prop} (hc : Says cs p)
    (h : ∀ v, v.length = 3 → (p v ↔ q v)) : Says cs q :=
  fun v hv => (hc v hv).trans (h v hv)

section
variable {ns : List Nat} (hlen : ns.length ≤ 3)
include hlen

theorem lt_padded_iff {v : List Nat} (hv : v.length = 3) :
    v < padded ns ↔ v.take ns.length < ns :=
  lt_zeros_iff (by omega)

/-- What begins with the first numbers of a bound ends where their successor begins. -/
theorem lt_upper_iff {v : List Nat} (hv : v.length = 3) {k : Nat} (hk : 0 < k)
    (hle : k ≤ ns.length) :
    v < padded (succLast (ns.take k)) ↔ ¬ ns.take k < v.take k := by
  have htake : (ns.take k).length = k := by
    rw [List.length_take]
    omega
  have hne : ns.take k ≠ [] := by
    intro h
    rw [h] at htake
    exact absurd htake (by simp; omega)
  have hedge := lt_succLast_zeros_iff (q := ns.take k) (v := v) (m := 3 - k) hne (by omega)
  rw [htake] at hedge
  rw [padded, succLast_length, htake]
  exact hedge

/-- Between a bound and the end of what begins with its first numbers lies what begins with them and is
    not before the bound. -/
theorem between_iff {v : List Nat} (hv : v.length = 3) {k : Nat} (hk : 0 < k) (hle : k ≤ ns.length) :
    (¬ v < padded ns ∧ v < padded (succLast (ns.take k))) ↔
      (¬ v < padded ns ∧ v.take k = ns.take k) := by
  rw [lt_upper_iff hlen hv hk hle]
  refine and_congr_right fun hlow => ?_
  constructor
  · intro hup
    -- What lies before the first numbers of a bound lies before the bound, so both edges meet.
    have hcut : (padded ns).take k = ns.take k := by
      rw [padded, List.take_append_of_le_length hle]
    have hlow' : ¬ v.take k < ns.take k := by
      intro h
      rw [← hcut] at h
      exact hlow (lt_of_take_lt h)
    exact eq_of_not_lt hlow' hup
  · intro heq
    rw [heq]
    exact List.lt_irrefl _

end

/-- The number of components that a caret holds fixed is the one that the meaning gives. -/
theorem caretWidth_eq {ns suffix} (hne : ns ≠ []) (hlen : ns.length ≤ 3) :
    caretWidth ⟨ns, suffix⟩ = caretFixed ns := by
  match ns, hne, hlen with
  | [a], _, _ => by_cases ha : a = 0 <;> simp [caretWidth, caretFixed, ha]
  | [a, b], _, _ =>
    by_cases ha : a = 0 <;> by_cases hb : b = 0 <;>
      simp [caretWidth, caretFixed, ha, hb, Nat.pos_iff_ne_zero]
  | [a, b, c], _, _ =>
    by_cases ha : a = 0 <;> by_cases hb : b = 0 <;> by_cases hc : c = 0 <;>
      simp [caretWidth, caretFixed, ha, hb, hc, Nat.pos_iff_ne_zero]

section
variable {ns : List Nat} (hlen : ns.length ≤ 3)
include hlen

theorem says_least (r : Relation) : Says [⟨r, least ns⟩] (fun v => r.Relates v (padded ns)) :=
  says_one (padded_length hlen) r

theorem says_behind (r : Relation) (k : Nat) :
    Says [⟨r, behind (ns.take k)⟩] (fun v => r.Relates v (padded (succLast (ns.take k)))) := by
  refine says_one (padded_length ?_) r
  rw [succLast_length, List.length_take]
  omega

theorem says_between {k : Nat} (hk : 0 < k) (hle : k ≤ ns.length) :
    Says [⟨.ge, least ns⟩, ⟨.lt, behind (ns.take k)⟩]
      (fun v => ¬ v < padded ns ∧ v.take k = ns.take k) :=
  ((says_least hlen .ge).append (says_behind hlen .lt k)).congr
    fun _ hv => between_iff hlen hv hk hle

end

/-- A sign before a bound without numbers: nothing is less or greater, and all else holds. -/
theorem expand_says_nil (sign : Sign) :
    ∃ cs, expand sign.operator ⟨[], []⟩ = .ok cs ∧ Says cs (sign.Meets []) := by
  have hlow : ∀ v : List Nat, v.length = 3 → ¬ v < padded [] := fun v hv => not_lt_zeros hv
  have htrue : (∀ v : List Nat, v.length = 3 → sign.Meets [] v) → Says [] (sign.Meets []) :=
    fun h => says_nil.congr fun v hv => (iff_true_intro (h v hv)).symm
  have hfalse : (∀ v : List Nat, v.length = 3 → ¬ sign.Meets [] v) →
      Says [⟨.lt, Version.ofRelease [0]⟩] (sign.Meets []) :=
    fun h => says_zero.congr fun v hv => (iff_false_left id).mpr (h v hv)
  cases sign with
  | none | equal => exact ⟨[], rfl, htrue fun v _ => List.take_zero⟩
  | less => exact ⟨_, rfl, hfalse hlow⟩
  | greater => exact ⟨_, rfl, hfalse fun v _ => List.not_lt_nil _⟩
  | lessEqual => exact ⟨[], rfl, htrue fun v _ => List.not_lt_nil _⟩
  | greaterEqual => exact ⟨[], rfl, htrue hlow⟩
  | caret | tilde | tildeGreater => exact ⟨[], rfl, htrue fun v hv => ⟨hlow v hv, rfl⟩⟩

section
variable {ns : List Nat} (hlen : ns.length ≤ 3) (hcount : ∀ n ∈ ns, Countable n)
include hlen hcount

/-- **Every sign means what it says.** The constraints of a sign and a bound exist, and hold of a release
    exactly if the comparator does. -/
theorem expand_says (sign : Sign) :
    ∃ cs, expand sign.operator ⟨ns, []⟩ = .ok cs ∧ Says cs (sign.Meets ns) := by
  by_cases hne : ns = []
  · subst hne
    exact expand_says_nil sign
  have hpos : 0 < ns.length := List.length_pos_iff.mpr hne
  have hlow : ∀ v : List Nat, v.length = 3 → (v < padded ns ↔ v.take ns.length < ns) :=
    fun v hv => lt_padded_iff hlen hv
  have hupp : ∀ v : List Nat, v.length = 3 →
      (v < padded (succLast (ns.take ns.length)) ↔ ¬ ns < v.take ns.length) := by
    intro v hv
    have h := lt_upper_iff hlen hv hpos (Nat.le_refl _)
    rw [List.take_length] at h ⊢
    exact h
  -- With three numbers nothing is filled up and nothing is cut, so both sides speak of `ns` and `v`.
  have hfull : ns.length = 3 → ∀ v : List Nat, v.length = 3 →
      padded ns = ns ∧ v.take ns.length = v := by
    intro h3 v hv
    constructor
    · simp [padded, h3]
    · rw [h3, ← hv, List.take_length]
  refine ⟨_, expand_of_ne hcount hne _, ?_⟩
  cases sign with
  | less => exact says_least hlen .lt
  | greaterEqual => exact says_least hlen .ge
  | caret =>
    show Says [⟨.ge, least ns⟩, ⟨.lt, behind (ns.take (caretWidth ⟨ns, []⟩))⟩] _
    rw [caretWidth_eq hne hlen]
    refine says_between hlen ?_ ?_
    · exact Nat.lt_min.mpr ⟨hpos, Nat.succ_pos _⟩
    · exact Nat.min_le_left _ _
  | tilde | tildeGreater =>
    show Says [⟨.ge, least ns⟩, ⟨.lt, behind (ns.take (min 2 ns.length))⟩] _
    rw [Nat.min_comm]
    refine says_between hlen ?_ ?_
    · exact Nat.lt_min.mpr ⟨hpos, Nat.succ_pos _⟩
    · exact Nat.min_le_left _ _
  | lessEqual =>
    show Says (if ns.length = 3 then _ else _) _
    split
    · next h3 =>
      refine (says_least hlen .le).congr fun v hv => ?_
      show ¬ padded ns < v ↔ ¬ ns < v.take ns.length
      rw [(hfull h3 v hv).1, (hfull h3 v hv).2]
    · exact (says_behind hlen .lt ns.length).congr hupp
  | greater =>
    show Says (if ns.length = 3 then _ else _) _
    split
    · next h3 =>
      refine (says_least hlen .gt).congr fun v hv => ?_
      show padded ns < v ↔ ns < v.take ns.length
      rw [(hfull h3 v hv).1, (hfull h3 v hv).2]
    · refine (says_behind hlen .ge ns.length).congr fun v hv => ?_
      show ¬ v < _ ↔ ns < v.take ns.length
      rw [hupp v hv, Decidable.not_not]
  | none | equal =>
    show Says (if ns.length = 3 then _ else _) _
    split
    · next h3 =>
      refine (says_least hlen .eq).congr fun v hv => ?_
      show v = padded ns ↔ v.take ns.length = ns
      rw [(hfull h3 v hv).1, (hfull h3 v hv).2]
    · refine (says_between hlen hpos (Nat.le_refl _)).congr fun v hv => ?_
      show ¬ v < padded ns ∧ v.take ns.length = ns.take ns.length ↔ v.take ns.length = ns
      rw [hlow v hv, List.take_length, and_iff_right_iff_imp]
      intro heq
      rw [heq]
      exact List.lt_irrefl ns

/-- The upper end of a hyphen range is the constraint of `<=`. -/
theorem hyphenEnd_eq_expand : hyphenEnd ⟨ns, []⟩ = expand .le ⟨ns, []⟩ := by
  by_cases hne : ns = []
  · subst hne
    rfl
  rw [expand_of_ne hcount hne]
  obtain ⟨n, r, rfl⟩ := List.exists_cons_of_ne_nil hne
  by_cases h3 : (n :: r).length = 3
  · simp only [hyphenEnd, lower_eq hcount, if_pos h3]
    rfl
  · simp only [hyphenEnd, upper_eq hcount, if_neg h3]
    rfl

end

end LockAudit.Range
