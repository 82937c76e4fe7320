import LockAudit.Proofs.Json.Numbers
import LockAudit.Proofs.Payload.Nodes

/-!
# `LockAudit.Proofs.Payload.Preorder` — entries by their paths, and in order

The entries of an audit request, and those of a payload, are nested objects under the key `dependencies`.
Two questions can be asked of such a value, and neither depends on how trees are read or written: which
entry stands at a path (`Json.at?`), and which entries there are, one after the other, an entry before
those below it (`Json.preorder`).

* `below_induction` — induction over entries: an entry may use what holds of those below it.
* `mem_preorder_iff` — the listing has exactly the entries that stand at some path.
* `pairwise_preorder` — the listing of a sorted value is in the order of its paths. Paths are compared key by
  key, and a path comes before those that continue it.
-/

namespace LockAudit.Json

/-! ## Paths -/

/-- The entries directly below a value, each with its key. -/
def entries (j : Json) : List (String × Json) :=
  match j.member? "dependencies" with
  | some (.obj es) => es
  | _ => []

/-- The entry to which a path of keys leads. The empty path leads to the value itself. -/
def at? (j : Json) : List String → Option Json
  | [] => some j
  | key :: path => (Pairs.get? key j.entries).bind (at? · path)

variable {j entry c : Json} {key : String} {path : List String} {es : List (String × Json)}

theorem entries_of_member? (h : j.member? "dependencies" = some (.obj es)) : j.entries = es := by
  rw [entries, h]

theorem entries_eq_nil (h : ∀ es, j.member? "dependencies" ≠ some (.obj es)) : j.entries = [] := by
  unfold entries
  split
  · next es hes => exact absurd hes (h es)
  · rfl

/-- An entry stands in the object of dependencies. -/
theorem member?_of_mem_entries {e : String × Json} (h : e ∈ j.entries) :
    j.member? "dependencies" = some (.obj j.entries) := by
  by_cases hes : ∃ es, j.member? "dependencies" = some (.obj es)
  · obtain ⟨es, hes⟩ := hes
    rw [entries_of_member? hes, hes]
  · rw [entries_eq_nil fun es heq => hes ⟨es, heq⟩] at h
    cases h

theorem at?_cons_iff : j.at? (key :: path) = some entry ↔
    ∃ c, Pairs.get? key j.entries = some c ∧ c.at? path = some entry :=
  Option.bind_eq_some_iff

theorem entries_sorted (j : Json) : j.sorted.entries = Pairs.sort (sortedMembers j.entries) := by
  unfold entries
  rw [member?_sorted]
  cases j.member? "dependencies" with
  | none => simp [sortedMembers, Pairs.sort]
  | some v => cases v <;> simp [sorted, sortedMembers, Pairs.sort]

theorem get?_entries_sorted (key : String) (j : Json) :
    Pairs.get? key j.sorted.entries = (Pairs.get? key j.entries).map sorted := by
  rw [entries_sorted, Pairs.get?_sort, get?_sortedMembers]

/-- Sorting moves no entry to another path. -/
theorem at?_sorted (path : List String) (j : Json) : j.sorted.at? path = (j.at? path).map sorted := by
  induction path generalizing j with
  | nil => rfl
  | cons key path ih =>
    rw [at?, at?, get?_entries_sorted]
    cases Pairs.get? key j.entries with
    | none => rfl
    | some c => exact ih c

theorem Distinct.member? {name : String} (hj : j.Distinct) (h : j.member? name = some c) : c.Distinct := by
  cases hj with
  | obj _ hms => exact hms _ (Pairs.mem_of_get? h)
  | _ => cases h

/-- In a value with distinct names, the entries below each entry have distinct keys. -/
theorem Distinct.entries (hj : j.Distinct) :
    (j.entries.map (·.1)).Nodup ∧ ∀ e ∈ j.entries, e.2.Distinct := by
  by_cases hes : ∃ es, j.member? "dependencies" = some (.obj es)
  · obtain ⟨es, hes⟩ := hes
    rw [entries_of_member? hes]
    cases hj.member? hes with
    | obj hnames hmembers => exact ⟨hnames, hmembers⟩
  · rw [entries_eq_nil fun es heq => hes ⟨es, heq⟩]
    exact ⟨List.nodup_nil, List.forall_mem_nil _⟩

theorem Distinct.at? (hj : j.Distinct) (h : j.at? path = some c) : c.Distinct := by
  induction path generalizing j with
  | nil =>
    obtain rfl : j = c := Option.some.inj h
    exact hj
  | cons key path ih =>
    obtain ⟨d, hd, hat⟩ := at?_cons_iff.mp h
    exact ih (hj.entries.2 _ (Pairs.mem_of_get? hd)) hat

/-- Induction over entries: an entry may use what holds of all entries directly below it. -/
@[elab_as_elim]
theorem below_induction {motive : Json → Prop} (step : ∀ j, (∀ e ∈ j.entries, motive e.2) → motive j)
    (j : Json) : motive j := by
  -- An entry stands two levels below the one above it, so each object brings along its members.
  suffices h : motive j ∧ ∀ es, j = .obj es → ∀ e ∈ es, motive e.2 from h.1
  induction j using Json.induction with
  | obj ms ih =>
    refine ⟨step _ fun e he => ?_, fun es heq e he => ?_⟩
    · exact (ih _ (Pairs.mem_of_get? (member?_of_mem_entries he))).2 _ rfl e he
    · cases heq
      exact (ih e he).1
  | _ => exact ⟨step _ fun e he => absurd he List.not_mem_nil, fun es heq => by cases heq⟩

/-! ## The listing -/

/-- An entry as it is seen from above a key. -/
def behind (key : String) (e : List String × Json) : List String × Json := (key :: e.1, e.2)

mutual

/-- The entries that stand in a value at any depth, each with its path: an entry comes before those below
    it, and entries of one object come in the object's order. -/
def preorder : Json → List (List String × Json)
  | .obj members => preorderMembers members
  | _ => []

/-- The entries in the member `dependencies`. -/
def preorderMembers : List (String × Json) → List (List String × Json)
  | [] => []
  | (name, value) :: r =>
    if name = "dependencies" then
      match value with
      | .obj es => preorderEntries es
      | _ => []
    else preorderMembers r

/-- Entries and all below them. -/
def preorderEntries : List (String × Json) → List (List String × Json)
  | [] => []
  | (key, entry) :: r => ([key], entry) :: entry.preorder.map (behind key) ++ preorderEntries r

end

theorem preorder_eq (j : Json) : j.preorder = preorderEntries j.entries := by
  cases j with
  | obj ms =>
    rw [preorder]
    induction ms with
    | nil => rfl
    | cons m ms ih =>
      obtain ⟨name, value⟩ := m
      by_cases hname : name = "dependencies"
      · cases value <;> simp [preorderMembers, preorderEntries, entries, member?, Pairs.get?, hname]
      · have hrest : preorderMembers ((name, value) :: ms) = preorderMembers ms := by
          cases value <;> simp [preorderMembers, hname]
        rw [hrest, ih]
        simp [entries, member?, Pairs.get?, hname]
  | _ => rfl

theorem preorderEntries_eq_flatMap (es : List (String × Json)) :
    preorderEntries es = es.flatMap fun e => ([e.1], e.2) :: e.2.preorder.map (behind e.1) := by
  induction es with
  | nil => rfl
  | cons e es ih => rw [preorderEntries, ih, List.flatMap_cons]

/-- An entry of the listing stands directly below the value, or below an entry that does. -/
theorem mem_preorder_cases {e : List String × Json} :
    e ∈ j.preorder ↔ ∃ key c, (key, c) ∈ j.entries ∧ (e = ([key], c) ∨ ∃ b ∈ c.preorder, e = behind key b) := by
  rw [preorder_eq, preorderEntries_eq_flatMap, List.mem_flatMap]
  constructor
  · rintro ⟨⟨key, c⟩, hc, h⟩
    rcases List.mem_cons.mp h with h | h
    · exact ⟨key, c, hc, .inl h⟩
    · obtain ⟨b, hb, rfl⟩ := List.mem_map.mp h
      exact ⟨key, c, hc, .inr ⟨b, hb, rfl⟩⟩
  · rintro ⟨key, c, hc, rfl | ⟨b, hb, rfl⟩⟩
    · exact ⟨_, hc, List.mem_cons_self⟩
    · exact ⟨_, hc, List.mem_cons_of_mem _ (List.mem_map_of_mem hb)⟩

/-- Every path of the listing has a key. -/
theorem ne_nil_of_mem_preorder {e : List String × Json} (h : e ∈ j.preorder) : e.1 ≠ [] := by
  obtain ⟨key, c, -, rfl | ⟨b, -, rfl⟩⟩ := mem_preorder_cases.mp h
  · exact List.cons_ne_nil _ _
  · exact List.cons_ne_nil _ _

/-- **The listing has every entry that stands at a path**, and no other. -/
theorem mem_preorder_iff (hj : j.Distinct) :
    (path, entry) ∈ j.preorder ↔ path ≠ [] ∧ j.at? path = some entry := by
  induction j using below_induction generalizing path entry with
  | step j ih =>
    obtain ⟨hkeys, hbelow⟩ := hj.entries
    rw [mem_preorder_cases]
    constructor
    · rintro ⟨key, c, hc, h | ⟨⟨rest, e⟩, he, h⟩⟩
      · cases h
        exact ⟨List.cons_ne_nil _ _, at?_cons_iff.mpr ⟨_, Pairs.get?_of_mem hkeys hc, rfl⟩⟩
      · cases h
        have hat := ((ih _ hc (hbelow _ hc)).mp he).2
        exact ⟨List.cons_ne_nil _ _, at?_cons_iff.mpr ⟨c, Pairs.get?_of_mem hkeys hc, hat⟩⟩
    · rintro ⟨hne, hat⟩
      cases path with
      | nil => exact absurd rfl hne
      | cons key rest =>
        obtain ⟨c, hget, hat⟩ := at?_cons_iff.mp hat
        have hc := Pairs.mem_of_get? hget
        refine ⟨key, c, hc, ?_⟩
        by_cases hrest : rest = []
        · subst hrest
          cases hat
          exact .inl rfl
        · exact .inr ⟨_, (ih _ hc (hbelow _ hc)).mpr ⟨hrest, hat⟩, rfl⟩

/-- **The listing of a sorted value is in the order of its paths.** -/
theorem pairwise_preorder (hj : j.Distinct) :
    (j.sorted.preorder.map (·.1)).Pairwise (· < ·) := by
  induction j using below_induction with
  | step j ih =>
    obtain ⟨hkeys, hbelow⟩ := hj.entries
    have hkeys' : ((sortedMembers j.entries).map (·.1)).Nodup := by rwa [sortedMembers_names]
    rw [List.pairwise_map, preorder_eq, preorderEntries_eq_flatMap, List.pairwise_flatMap, entries_sorted]
    constructor
    · rintro ⟨key, c⟩ hc
      obtain ⟨b, hb, rfl⟩ := mem_sortedMembers (Pairs.mem_sort.mp hc)
      refine List.pairwise_cons.mpr ⟨?_, ?_⟩
      · intro e he
        obtain ⟨d, hd, rfl⟩ := List.mem_map.mp he
        obtain ⟨next, rest, hpath⟩ := List.exists_cons_of_ne_nil (ne_nil_of_mem_preorder hd)
        refine List.cons_lt_cons_iff.mpr (.inr ⟨rfl, ?_⟩)
        rw [hpath]
        exact List.nil_lt_cons next rest
      · rw [List.pairwise_map]
        refine (List.pairwise_map.mp (ih _ hb (hbelow _ hb))).imp ?_
        intro d e hde
        exact List.cons_lt_cons_iff.mpr (.inr ⟨rfl, hde⟩)
    · -- Entries under different keys are told apart by these keys.
      refine (Pairs.pairwise_lt_sort hkeys').imp ?_
      intro a b hab d hd e he
      have hhead : ∀ {a : String × Json} {d}, d ∈ ([a.1], a.2) :: a.2.preorder.map (behind a.1) →
          ∃ rest, d.1 = a.1 :: rest := by
        intro a d hd
        rcases List.mem_cons.mp hd with rfl | hd
        · exact ⟨[], rfl⟩
        · obtain ⟨c, -, rfl⟩ := List.mem_map.mp hd
          exact ⟨c.1, rfl⟩
      obtain ⟨restd, hrestd⟩ := hhead hd
      obtain ⟨reste, hreste⟩ := hhead he
      rw [hrestd, hreste]
      exact List.cons_lt_cons_iff.mpr (.inl hab)

end LockAudit.Json
