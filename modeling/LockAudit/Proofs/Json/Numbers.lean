import LockAudit.Proofs.Json.Reordering

/-!
# `LockAudit.Proofs.Json.Numbers` — the numbers in a value

Texts, truth values and null can be written whatever they are. What may go wrong with a value are its
numbers, so the questions that the library asks of a whole value are questions about the numbers that
stand in it, at any depth (`HasNumber`).

* `induction` — induction over values with all items and members at once. So `sorted_sorted`.
* `hasNumber_sorted_iff` — sorting moves numbers and loses none.
* `exact_iff` — a value is `Exact` if its names are distinct and all its numbers are integers that can be
  written.
-/

namespace LockAudit.Json

/-! ## Induction -/

/-- Induction over values: an array may use what holds of its items, an object what holds of the values
    of its members. -/
@[elab_as_elim]
theorem induction {motive : Json → Prop} (null : motive .null) (bool : ∀ b, motive (.bool b))
    (num : ∀ n, motive (.num n)) (str : ∀ s, motive (.str s))
    (arr : ∀ vs, (∀ v ∈ vs, motive v) → motive (.arr vs))
    (obj : ∀ ms, (∀ p ∈ ms, motive p.2) → motive (.obj ms)) (v : Json) : motive v := by
  match v with
  | .null => exact null
  | .bool b => exact bool b
  | .num n => exact num n
  | .str s => exact str s
  | .arr vs => exact arr vs fun v _ => induction null bool num str arr obj v
  | .obj ms =>
    refine obj ms fun p hp => ?_
    have hsize : sizeOf p.2 < 1 + sizeOf ms := by
      have hmem := List.sizeOf_lt_of_mem hp
      have hvalue : sizeOf p.2 < sizeOf p := by
        obtain ⟨k, v⟩ := p
        simp only [Prod.mk.sizeOf_spec]
        omega
      omega
    exact induction null bool num str arr obj p.2

/-- Sorting what is sorted changes nothing. -/
theorem sorted_sorted (v : Json) : v.sorted.sorted = v.sorted := by
  induction v using Json.induction with
  | arr vs ih =>
    simp only [sorted, sortedItems_eq_map, List.map_map, arr.injEq]
    exact List.map_congr_left ih
  | obj ms ih =>
    simp only [sorted_obj, Pairs.sort_map, Pairs.sort_sort, List.map_map, obj.injEq]
    refine List.map_congr_left fun p hp => ?_
    exact congrArg (Prod.mk p.1) (ih p (Pairs.mem_sort.mp hp))
  | _ => simp [sorted]

/-! ## Numbers at any depth -/

/-- A number stands in a value, at any depth. -/
inductive HasNumber (n : Number) : Json → Prop
  | here : HasNumber n (.num n)
  | item {vs : List Json} {v : Json} (hv : v ∈ vs) (h : HasNumber n v) : HasNumber n (.arr vs)
  | member {ms : List (String × Json)} {p : String × Json} (hp : p ∈ ms) (h : HasNumber n p.2) :
      HasNumber n (.obj ms)

variable {n k : Number} {v : Json} {vs : List Json} {ms : List (String × Json)}

@[simp] theorem hasNumber_num_iff : (Json.num k).HasNumber n ↔ n = k :=
  ⟨fun h => by cases h; rfl, fun h => h ▸ .here⟩

@[simp] theorem hasNumber_arr_iff : (Json.arr vs).HasNumber n ↔ ∃ v ∈ vs, v.HasNumber n :=
  ⟨fun h => by cases h with | item hv h => exact ⟨_, hv, h⟩, fun ⟨_, hv, h⟩ => .item hv h⟩

@[simp] theorem hasNumber_obj_iff : (Json.obj ms).HasNumber n ↔ ∃ p ∈ ms, p.2.HasNumber n :=
  ⟨fun h => by cases h with | member hp h => exact ⟨_, hp, h⟩, fun ⟨_, hp, h⟩ => .member hp h⟩

@[simp] theorem not_hasNumber_null : ¬ Json.null.HasNumber n := nofun

@[simp] theorem not_hasNumber_bool (b : Bool) : ¬ (Json.bool b).HasNumber n := nofun

@[simp] theorem not_hasNumber_str (s : String) : ¬ (Json.str s).HasNumber n := nofun

/-- A value has the same numbers when its members are sorted. -/
theorem hasNumber_sorted_iff : v.sorted.HasNumber n ↔ v.HasNumber n := by
  induction v using induction with
  | null | bool _ | num _ | str _ => exact Iff.rfl
  | arr vs ih =>
    rw [sorted, sortedItems_eq_map, hasNumber_arr_iff, hasNumber_arr_iff]
    constructor
    · rintro ⟨w, hw, h⟩
      obtain ⟨v, hv, rfl⟩ := List.mem_map.mp hw
      exact ⟨v, hv, (ih v hv).mp h⟩
    · rintro ⟨v, hv, h⟩
      exact ⟨v.sorted, List.mem_map_of_mem hv, (ih v hv).mpr h⟩
  | obj ms ih =>
    rw [sorted_obj, hasNumber_obj_iff, hasNumber_obj_iff]
    constructor
    · rintro ⟨q, hq, h⟩
      obtain ⟨p, hp, rfl⟩ := List.mem_map.mp hq
      have hp : p ∈ ms := Pairs.mem_sort.mp hp
      exact ⟨p, hp, (ih p hp).mp h⟩
    · rintro ⟨p, hp, h⟩
      have hmem := List.mem_map_of_mem (f := fun p : String × Json => (p.1, p.2.sorted))
        (Pairs.mem_sort.mpr hp)
      exact ⟨_, hmem, (ih p hp).mpr h⟩

/-! ## Exact values -/

theorem Distinct.sorted (h : v.Distinct) : v.sorted.Distinct := by
  induction h with
  | null => exact .null
  | bool b => exact .bool b
  | num n => exact .num n
  | str s => exact .str s
  | @arr vs _ ih =>
    rw [Json.sorted, sortedItems_eq_map]
    refine .arr fun w hw => ?_
    obtain ⟨v, hv, rfl⟩ := List.mem_map.mp hw
    exact ih v hv
  | @obj ms hnames _ ih =>
    rw [sorted_obj]
    refine .obj ?_ fun q hq => ?_
    · rw [List.map_map]
      exact Pairs.nodup_sort.mpr hnames
    · obtain ⟨p, hp, rfl⟩ := List.mem_map.mp hq
      exact ih p (Pairs.mem_sort.mp hp)

/-- An integer that can be written. -/
def IsWritable (n : Number) : Prop := ∃ k : Int, n = .int k ∧ Numeral.writable k.natAbs = true

/-- **A value is exact if its names are distinct and its numbers are integers** that can be written. -/
theorem exact_iff : v.Exact ↔ v.Distinct ∧ ∀ n, v.HasNumber n → IsWritable n := by
  constructor
  · intro h
    induction h with
    | null => exact ⟨.null, nofun⟩
    | bool b => exact ⟨.bool b, nofun⟩
    | @int k h => exact ⟨.num _, fun n hn => ⟨k, hasNumber_num_iff.mp hn, h⟩⟩
    | str s => exact ⟨.str s, nofun⟩
    | arr _ ih =>
      refine ⟨.arr fun v hv => (ih v hv).1, fun n hn => ?_⟩
      obtain ⟨v, hv, hn⟩ := hasNumber_arr_iff.mp hn
      exact (ih v hv).2 n hn
    | obj hnames _ ih =>
      refine ⟨.obj hnames fun p hp => (ih p hp).1, fun n hn => ?_⟩
      obtain ⟨p, hp, hn⟩ := hasNumber_obj_iff.mp hn
      exact (ih p hp).2 n hn
  · rintro ⟨h, hnumbers⟩
    induction h with
    | null => exact .null
    | bool b => exact .bool b
    | num n =>
      obtain ⟨k, rfl, hk⟩ := hnumbers n .here
      exact .int hk
    | str s => exact .str s
    | arr _ ih => exact .arr fun v hv => ih v hv fun n hn => hnumbers n (.item hv hn)
    | obj hnames _ ih => exact .obj hnames fun p hp => ih p hp fun n hn => hnumbers n (.member hp hn)

end LockAudit.Json
