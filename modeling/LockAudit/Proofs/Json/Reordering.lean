import Mathlib.Data.List.Nodup
import Mathlib.Data.List.Perm.Subperm
import LockAudit.Proofs.Json.Exact

/-!
# `LockAudit.Proofs.Json.Reordering` — values that differ in the order of members

An object lists its members in some order, and equality of values (`Json.equal`) looks members up by name
and so does not see it. The sorted form does not see it either:

* `Json.Distinct` — no object in a value has two members of one name, as in every value that was read.
* `Json.sorted_eq_of_equal` — equal values of this kind have one sorted form.
* `Json.equal_of_sorted_eq` — and no others have it.
* `Json.compact_eq_of_equal` — so equal values have one compact text.
-/

namespace LockAudit.Json

/-- A value in which the names of each object are distinct. Unlike `Exact` it may have any numbers. -/
inductive Distinct : Json → Prop
  | null : Distinct .null
  | bool (b : Bool) : Distinct (.bool b)
  | num (n : Number) : Distinct (.num n)
  | str (s : String) : Distinct (.str s)
  | arr {vs : List Json} (h : ∀ v ∈ vs, Distinct v) : Distinct (.arr vs)
  | obj {ms : List (String × Json)} (hnames : (ms.map (·.1)).Nodup) (h : ∀ p ∈ ms, Distinct p.2) :
      Distinct (.obj ms)

variable {v w : Json} {vs ws : List Json} {ms ns : List (String × Json)}

/-! ## What is equal -/

theorem items_of_equal (h : equal (.arr vs) w = true) : ∃ ws, w = .arr ws ∧ equalItems vs ws = true := by
  cases w with
  | arr ws => exact ⟨ws, rfl, by rwa [equal] at h⟩
  | _ => simp [equal] at h

theorem members_of_equal (h : equal (.obj ms) w = true) :
    ∃ ns, w = .obj ns ∧ ms.length = ns.length ∧ equalMembers ms ns = true := by
  cases w with
  | obj ns =>
    rw [equal, Bool.and_eq_true, beq_iff_eq] at h
    exact ⟨ns, rfl, h⟩
  | _ => simp [equal] at h

theorem exists_of_equalMembers (h : equalMembers ms ns = true) :
    ∀ p ∈ ms, ∃ w, Pairs.get? p.1 ns = some w ∧ equal p.2 w = true := by
  induction ms with
  | nil => simp
  | cons m ms ih =>
    obtain ⟨k, v⟩ := m
    rw [equalMembers, Bool.and_eq_true] at h
    obtain ⟨hhead, hrest⟩ := h
    intro p hp
    rcases List.mem_cons.mp hp with rfl | hp
    · cases hw : Pairs.get? k ns with
      | none => simp [hw] at hhead
      | some w => exact ⟨w, rfl, by simpa [hw] using hhead⟩
    · exact ih hrest p hp

/-! ## One sorted form -/

theorem sortedItems_eq_of_equalItems (hsame : ∀ v ∈ vs, ∀ w, equal v w = true → v.sorted = w.sorted)
    (h : equalItems vs ws = true) : sortedItems vs = sortedItems ws := by
  induction vs generalizing ws with
  | nil =>
    cases ws with
    | nil => rfl
    | cons w ws => simp [equalItems] at h
  | cons v vs ih =>
    cases ws with
    | nil => simp [equalItems] at h
    | cons w ws =>
      rw [equalItems, Bool.and_eq_true] at h
      have hhead := hsame v List.mem_cons_self w h.1
      have hrest := ih (fun u hu => hsame u (List.mem_cons_of_mem v hu)) h.2
      rw [sortedItems, sortedItems, hhead, hrest]

/-- Members of equal objects are the same once what is below them is sorted, up to their order. -/
theorem sortedMembers_perm_of_equalMembers (hnames : (ms.map (·.1)).Nodup)
    (hsame : ∀ p ∈ ms, ∀ w, equal p.2 w = true → p.2.sorted = w.sorted)
    (hlen : ms.length = ns.length) (h : equalMembers ms ns = true) :
    (sortedMembers ms).Perm (sortedMembers ns) := by
  have hsub : sortedMembers ms ⊆ sortedMembers ns := by
    rw [sortedMembers_eq_map, sortedMembers_eq_map]
    intro q hq
    obtain ⟨p, hp, rfl⟩ := List.mem_map.mp hq
    obtain ⟨w, hw, heq⟩ := exists_of_equalMembers h p hp
    rw [hsame p hp w heq]
    exact List.mem_map_of_mem (f := fun p : String × Json => (p.1, sorted p.2)) (Pairs.mem_of_get? hw)
  -- The names are distinct, so nothing is counted twice, and the lengths agree.
  have hnodup : (sortedMembers ms).Nodup := by
    refine List.Nodup.of_map (·.1) ?_
    rwa [sortedMembers_names]
  have hlength : (sortedMembers ms).length = (sortedMembers ns).length := by
    rw [sortedMembers_eq_map, sortedMembers_eq_map, List.length_map, List.length_map, hlen]
  exact (List.subperm_of_subset hnodup hsub).perm_of_length_le (Nat.le_of_eq hlength.symm)

/-- **Equal values have one sorted form**, whatever the orders in which their objects list members. -/
theorem sorted_eq_of_equal (hv : v.Distinct) (h : equal v w = true) : v.sorted = w.sorted := by
  induction hv generalizing w with
  | null => cases w <;> simp_all [equal]
  | bool b => cases w <;> simp_all [equal]
  | num n => cases w <;> simp_all [equal]
  | str s => cases w <;> simp_all [equal]
  | arr _ ih =>
    obtain ⟨ws, rfl, hitems⟩ := items_of_equal h
    have hsame := fun v hv w => ih v hv (w := w)
    rw [sorted, sorted, sortedItems_eq_of_equalItems hsame hitems]
  | @obj ms hnames _ ih =>
    obtain ⟨ns, rfl, hlen, hmembers⟩ := members_of_equal h
    have hsame := fun p hp w => ih p hp (w := w)
    have hperm := sortedMembers_perm_of_equalMembers hnames hsame hlen hmembers
    have hnodup : ((sortedMembers ms).map (·.1)).Nodup := by rwa [sortedMembers_names]
    rw [sorted, sorted, Pairs.sort_eq_of_perm hperm hnodup]

/-! ## What has one sorted form -/

theorem items_of_sorted_eq (h : (Json.arr vs).sorted = w.sorted) :
    ∃ ws, w = .arr ws ∧ vs.map sorted = ws.map sorted := by
  cases w with
  | arr ws =>
    rw [sorted, sorted, sortedItems_eq_map, sortedItems_eq_map, Json.arr.injEq] at h
    exact ⟨ws, rfl, h⟩
  | _ => simp [sorted] at h

theorem members_of_sorted_eq (h : (Json.obj ms).sorted = w.sorted) :
    ∃ ns, w = .obj ns ∧ Pairs.sort (sortedMembers ms) = Pairs.sort (sortedMembers ns) := by
  cases w with
  | obj ns =>
    rw [sorted, sorted, Json.obj.injEq] at h
    exact ⟨ns, rfl, h⟩
  | _ => simp [sorted] at h

theorem equalItems_of_sorted_eq (hequal : ∀ v ∈ vs, ∀ w, v.sorted = w.sorted → equal v w = true)
    (h : vs.map sorted = ws.map sorted) : equalItems vs ws = true := by
  induction vs generalizing ws with
  | nil =>
    rw [List.map_nil, eq_comm, List.map_eq_nil_iff] at h
    rw [h, equalItems]
  | cons v vs ih =>
    obtain ⟨w, ws, rfl, hw, hws⟩ := List.map_eq_cons_iff.mp h.symm
    rw [equalItems, hequal v List.mem_cons_self w hw.symm,
      ih (fun u hu => hequal u (List.mem_cons_of_mem v hu)) hws.symm, Bool.and_self]

/-- **Values with one sorted form are equal**: sorting forgets nothing but the order of members. -/
theorem equal_of_sorted_eq (hv : v.Distinct) (h : v.sorted = w.sorted) : equal v w = true := by
  induction hv generalizing w with
  | null => cases w <;> simp_all [equal, sorted]
  | bool b => cases w <;> simp_all [equal, sorted]
  | num n => cases w <;> simp_all [equal, sorted]
  | str s => cases w <;> simp_all [equal, sorted]
  | arr _ ih =>
    obtain ⟨ws, rfl, hitems⟩ := items_of_sorted_eq h
    exact equalItems_of_sorted_eq (fun v hv w => ih v hv) hitems
  | @obj ms hnames _ ih =>
    obtain ⟨ns, rfl, hmembers⟩ := members_of_sorted_eq h
    have hperm : (sortedMembers ms).Perm (sortedMembers ns) :=
      (Pairs.sort_perm _).symm.trans (hmembers ▸ Pairs.sort_perm _)
    have hnodup : (ns.map (·.1)).Nodup := by
      rw [← sortedMembers_names, ← (hperm.map _).nodup_iff, sortedMembers_names]
      exact hnames
    have hlength : ms.length = ns.length := by
      have hlength := hperm.length_eq
      rwa [sortedMembers_eq_map, sortedMembers_eq_map, List.length_map, List.length_map] at hlength
    rw [equal, hlength, beq_self_eq_true, Bool.true_and]
    refine equalMembers_of_get? fun p hp => ?_
    have hmem : (p.1, p.2.sorted) ∈ sortedMembers ns := by
      rw [← hperm.mem_iff, sortedMembers_eq_map]
      exact List.mem_map_of_mem (f := fun p : String × Json => (p.1, sorted p.2)) hp
    rw [sortedMembers_eq_map] at hmem
    obtain ⟨q, hq, hqp⟩ := List.mem_map.mp hmem
    obtain ⟨hname, hvalue⟩ := Prod.mk.inj hqp
    exact ⟨q.2, hname ▸ Pairs.get?_of_mem hnodup hq, ih p hp hvalue.symm⟩

/-! ## The compact text -/

mutual

/-- **The compact text of a value is that of its sorted form**: whatever is copied into a value unsorted,
    writing it puts members in order. -/
theorem compactChars_sorted (v : Json) : compactChars v.sorted = compactChars v := by
  match v with
  | .arr vs => rw [sorted, compactChars, compactItems_sorted, compactChars]
  | .obj ms =>
    rw [sorted, compactChars, compactMembers_eq_map, Pairs.sort_map, Pairs.sort_sort,
      ← Pairs.sort_map, ← compactMembers_eq_map, compactMembers_sorted, compactChars]
  | .null | .bool _ | .num _ | .str _ => rfl

theorem compactItems_sorted (vs : List Json) : compactItems (sortedItems vs) = compactItems vs := by
  match vs with
  | [] => rfl
  | v :: vs => rw [sortedItems, compactItems, compactChars_sorted v, compactItems_sorted vs, compactItems]

theorem compactMembers_sorted (ms : List (String × Json)) :
    compactMembers (sortedMembers ms) = compactMembers ms := by
  match ms with
  | [] => rfl
  | (k, v) :: ms =>
    rw [sortedMembers, compactMembers, compactChars_sorted v, compactMembers_sorted ms, compactMembers]

end

/-- **Equal values have one compact text.** -/
theorem compact_eq_of_equal (hv : v.Distinct) (h : equal v w = true) : v.compact = w.compact := by
  rw [compact, compact, ← compactChars_sorted v, ← compactChars_sorted w, sorted_eq_of_equal hv h]

end LockAudit.Json
