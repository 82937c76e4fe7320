import LockAudit.Json.Value
import LockAudit.Json.Writer
import LockAudit.Numeral
import LockAudit.Proofs.Json.Pairs

/-!
# `LockAudit.Proofs.Json.Exact` — values that a text can carry

A value survives being written and read if all its numbers are integers that are not too long, and the
names in each of its objects are distinct (`Exact`). Writing it puts members in the order of their names,
so what is read is the sorted value. Sorting moves members and changes nothing (`equal_sorted`), where
`equal` compares objects by what stands under their names.
-/

namespace LockAudit

namespace Json

/-! ## Items and members -/

theorem compactItems_eq_map (vs : List Json) : compactItems vs = vs.map compactChars := by
  induction vs with
  | nil => rfl
  | cons v vs ih => rw [compactItems, ih, List.map_cons]

theorem compactMembers_eq_map (ms : List (String × Json)) :
    compactMembers ms = ms.map fun p => (p.1, compactChars p.2) := by
  induction ms with
  | nil => rfl
  | cons m ms ih => rw [compactMembers, ih, List.map_cons]

theorem sortedItems_eq_map (vs : List Json) : sortedItems vs = vs.map sorted := by
  induction vs with
  | nil => rfl
  | cons v vs ih => rw [sortedItems, ih, List.map_cons]

theorem sortedMembers_eq_map (ms : List (String × Json)) :
    sortedMembers ms = ms.map fun p => (p.1, sorted p.2) := by
  induction ms with
  | nil => rfl
  | cons m ms ih => rw [sortedMembers, ih, List.map_cons]

/-- It does not matter whether members are sorted before or after what is below them. -/
theorem sorted_obj (ms : List (String × Json)) :
    (Json.obj ms).sorted = .obj ((Pairs.sort ms).map fun p => (p.1, sorted p.2)) := by
  rw [sorted, sortedMembers_eq_map, Pairs.sort_map]

/-- A value whose numbers are integers that can be written, with distinct names in every object. -/
inductive Exact : Json → Prop
  | null : Exact .null
  | bool (b : Bool) : Exact (.bool b)
  | int {n : Int} (h : Numeral.writable n.natAbs = true) : Exact (.num (.int n))
  | str (s : String) : Exact (.str s)
  | arr {vs : List Json} (h : ∀ v ∈ vs, Exact v) : Exact (.arr vs)
  | obj {ms : List (String × Json)} (hnames : (ms.map (·.1)).Nodup) (h : ∀ p ∈ ms, Exact p.2) :
      Exact (.obj ms)

/-! ## Equality -/

mutual

/-- Equality of values. Objects are equal if they have as many members, and under every name of one the
    other has an equal value. -/
def equal : Json → Json → Bool
  | .null, .null => true
  | .bool a, .bool b => a == b
  | .num a, .num b => a == b
  | .str a, .str b => a == b
  | .arr vs, .arr ws => equalItems vs ws
  | .obj ms, .obj ns => ms.length == ns.length && equalMembers ms ns
  | _, _ => false

/-- Equality of items, one by one. -/
def equalItems : List Json → List Json → Bool
  | [], [] => true
  | v :: vs, w :: ws => equal v w && equalItems vs ws
  | _, _ => false

/-- Whether each member has an equal value under its name. -/
def equalMembers : List (String × Json) → List (String × Json) → Bool
  | [], _ => true
  | (k, v) :: ms, ns => (match Pairs.get? k ns with
      | some w => equal v w
      | none => false) && equalMembers ms ns

end

theorem equalItems_map {vs : List Json} {f g : Json → Json} (h : ∀ v ∈ vs, equal (f v) (g v) = true) :
    equalItems (vs.map f) (vs.map g) = true := by
  induction vs with
  | nil => rfl
  | cons v vs ih =>
    rw [List.map_cons, List.map_cons, equalItems, h v List.mem_cons_self,
      ih fun w hw => h w (List.mem_cons_of_mem v hw)]
    rfl

theorem equalMembers_of_get? {ms ns : List (String × Json)}
    (h : ∀ p ∈ ms, ∃ w, Pairs.get? p.1 ns = some w ∧ equal p.2 w = true) :
    equalMembers ms ns = true := by
  induction ms with
  | nil => rfl
  | cons p ms ih =>
    obtain ⟨k, v⟩ := p
    obtain ⟨w, hw, heq⟩ := h (k, v) List.mem_cons_self
    have hrest := ih fun q hq => h q (List.mem_cons_of_mem _ hq)
    simp only [equalMembers, hw, heq, hrest, Bool.and_self]

/-- **A sorted value is equal to the value.** -/
theorem equal_sorted {v : Json} (h : Exact v) : equal v.sorted v = true := by
  induction h with
  | null => rfl
  | bool b => exact beq_self_eq_true b
  | int h => exact beq_self_eq_true _
  | str s => exact beq_self_eq_true s
  | @arr vs _ ih =>
    rw [sorted, sortedItems_eq_map, equal]
    have hmap : equalItems (vs.map sorted) (vs.map id) = true := equalItems_map ih
    rwa [List.map_id] at hmap
  | @obj ms hnames _ ih =>
    rw [sorted_obj, equal, List.length_map, (Pairs.sort_perm ms).length_eq, beq_self_eq_true,
      Bool.true_and]
    refine equalMembers_of_get? fun p hp => ?_
    obtain ⟨q, hq, rfl⟩ := List.mem_map.mp hp
    have hq : q ∈ ms := Pairs.mem_sort.mp hq
    exact ⟨q.2, Pairs.get?_of_mem hnames hq, ih q hq⟩

end Json

end LockAudit
