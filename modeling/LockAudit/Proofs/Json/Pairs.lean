import LockAudit.Json.Value
import LockAudit.Proofs.Sorting

/-!
# `LockAudit.Proofs.Json.Pairs` — rows of pairs with names

An object is a row of pairs, and so are most tables of the library. Three things are done to such rows:
they are looked up (`get?`), sorted by name (`sort`) and put together (`ofList`).

* `pairwise_sort`, `filter_sort` — sorting puts names in order, and keeps the order of pairs of one name.
* `get?_sort` — so it changes nothing about what is found.
* `sort_eq_of_perm` — under distinct names there is one sorted row for all orders of the same pairs, and
  `get?_of_perm` — all of them say the same.
* `ofList_of_nodup`, `nodup_ofList` — putting pairs together makes names distinct.
-/

namespace LockAudit.Pairs

variable {α β : Type} {ps qs : List (String × α)} {name : String} {value : α}

/-! ## Looking up -/

theorem mem_of_get? (h : get? name ps = some value) : (name, value) ∈ ps := by
  induction ps with
  | nil => cases h
  | cons p ps ih =>
    obtain ⟨k, v⟩ := p
    by_cases hk : k = name
    · subst hk
      simp only [get?, if_true, Option.some.injEq] at h
      rw [h]
      exact List.mem_cons_self
    · rw [get?, if_neg hk] at h
      exact List.mem_cons_of_mem _ (ih h)

/-- Under distinct names, a pair is found by its name. -/
theorem get?_of_mem (h : (ps.map (·.1)).Nodup) (hp : (name, value) ∈ ps) :
    get? name ps = some value := by
  induction ps with
  | nil => cases hp
  | cons p ps ih =>
    obtain ⟨k, v⟩ := p
    rw [List.map_cons, List.nodup_cons] at h
    rcases List.mem_cons.mp hp with heq | hp
    · cases heq
      simp [get?]
    · have hk : k ≠ name := fun hk => h.1 (hk ▸ List.mem_map_of_mem (f := (·.1)) hp)
      rw [get?, if_neg hk, ih h.2 hp]

theorem isSome_get?_iff : (get? name ps).isSome = true ↔ name ∈ ps.map (·.1) := by
  induction ps with
  | nil => simp [get?]
  | cons p ps ih =>
    obtain ⟨k, v⟩ := p
    by_cases hk : k = name
    · simp [get?, hk]
    · simp only [get?, if_neg hk, ih, List.map_cons, List.mem_cons]
      exact ⟨.inr, fun h => h.resolve_left (Ne.symm hk)⟩

theorem get?_eq_head? (name : String) (ps : List (String × α)) :
    get? name ps = ((ps.filter fun p => p.1 = name).head?).map (·.2) := by
  induction ps with
  | nil => rfl
  | cons p ps ih =>
    by_cases h : p.1 = name
    · simp [get?, h]
    · simp [get?, h, ih]

theorem get?_append (name : String) (ps qs : List (String × α)) :
    get? name (ps ++ qs) = (get? name ps).or (get? name qs) := by
  induction ps with
  | nil => rfl
  | cons p ps ih =>
    obtain ⟨k, v⟩ := p
    by_cases hk : k = name
    · simp [get?, hk]
    · simp [get?, hk, ih]

theorem get?_eq_none_iff : get? name ps = none ↔ name ∉ ps.map (·.1) := by
  rw [← isSome_get?_iff, Option.not_isSome_iff_eq_none]

/-- A pair of another name makes no difference to what is found. -/
theorem get?_insert_of_ne {k : String} (h : k ≠ name) (before after : List (String × α)) (v : α) :
    get? name (before ++ (k, v) :: after) = get? name (before ++ after) := by
  rw [get?_append, get?_append, get?, if_neg h]

/-- A pair is found unless one of the same name stands before it. -/
theorem get?_insert_self (name : String) (before after : List (String × α)) (value : α) :
    get? name (before ++ (name, value) :: after) = (get? name before).or (some value) := by
  rw [get?_append, get?, if_pos rfl]

/-! ## Sorting -/

theorem sort_map (f : α → β) (ps : List (String × α)) :
    sort (ps.map fun p => (p.1, f p.2)) = (sort ps).map fun p => (p.1, f p.2) :=
  (List.map_mergeSort (f := fun p : String × α => (p.1, f p.2)) fun _ _ _ _ => rfl).symm

theorem mem_sort {p : String × α} : p ∈ sort ps ↔ p ∈ ps := (sort_perm ps).mem_iff

theorem nodup_sort : ((sort ps).map (·.1)).Nodup ↔ (ps.map (·.1)).Nodup :=
  ((sort_perm ps).map _).nodup_iff

/-- The order by which pairs are sorted, as a relation that can be decided. -/
theorem byName_trans (a b c : String × α) (hab : decide (a.1 ≤ b.1) = true)
    (hbc : decide (b.1 ≤ c.1) = true) : decide (a.1 ≤ c.1) = true := by
  rw [decide_eq_true_eq] at *
  exact String.le_trans hab hbc

theorem byName_total (a b : String × α) : (decide (a.1 ≤ b.1) || decide (b.1 ≤ a.1)) = true := by
  rw [Bool.or_eq_true, decide_eq_true_eq, decide_eq_true_eq]
  exact String.le_total a.1 b.1

/-- Sorted pairs stand in the order of their names. -/
theorem pairwise_sort (ps : List (String × α)) : (sort ps).Pairwise fun a b => a.1 ≤ b.1 := by
  have h := List.pairwise_mergeSort byName_trans byName_total ps
  exact h.imp fun hab => of_decide_eq_true hab

/-- Sorted pairs with distinct names stand in strict order. -/
theorem pairwise_lt_sort (h : (ps.map (·.1)).Nodup) : (sort ps).Pairwise fun a b => a.1 < b.1 := by
  have hne : (sort ps).Pairwise fun a b => a.1 ≠ b.1 := List.pairwise_map.mp (nodup_sort.mpr h)
  refine ((pairwise_sort ps).and hne).imp ?_
  rintro a b ⟨hle, hne⟩
  exact String.not_le.mp fun hge => hne (String.le_antisymm hle hge)

/-- Sorting what is sorted changes nothing. -/
theorem sort_sort (ps : List (String × α)) : sort (sort ps) = sort ps :=
  List.mergeSort_of_pairwise ((pairwise_sort ps).imp fun h => decide_eq_true h)

/-- Pairs of one name keep their order when pairs are sorted by name. -/
theorem filter_sort (name : String) (ps : List (String × α)) :
    (sort ps).filter (fun p => p.1 = name) = ps.filter fun p => p.1 = name := by
  refine Sorting.filter_mergeSort byName_trans byName_total ?_ ps
  intro a b ha hb
  rw [decide_eq_true_eq] at ha hb
  rw [ha, hb]
  exact decide_eq_true (String.le_refl name)

@[simp] theorem get?_sort (name : String) (ps : List (String × α)) :
    get? name (sort ps) = get? name ps := by
  rw [get?_eq_head?, get?_eq_head?, filter_sort]

/-- Leaving out pairs by their names leaves the others to be found. -/
theorem get?_filter (keep : String → Bool) (name : String) (ps : List (String × α)) :
    get? name (ps.filter fun p => keep p.1) = if keep name then get? name ps else none := by
  induction ps with
  | nil => simp [get?]
  | cons p ps ih =>
    obtain ⟨k, v⟩ := p
    by_cases hname : k = name
    · subst hname
      cases hkeep : keep k <;> simp [get?, hkeep, ih]
    · cases hkeep : keep k <;> simp [get?, hkeep, hname, ih]

/-- Of pairs with distinct names, a value that is left out is not replaced by another. -/
theorem get?_filter_value (h : (ps.map (·.1)).Nodup) (keep : α → Bool) (name : String) :
    get? name (ps.filter fun p => keep p.2) = (get? name ps).filter keep := by
  induction ps with
  | nil => rfl
  | cons p ps ih =>
    obtain ⟨k, v⟩ := p
    rw [List.map_cons, List.nodup_cons] at h
    by_cases hk : k = name
    · subst hk
      cases hkeep : keep v with
      | true => simp [get?, hkeep, Option.filter]
      | false =>
        have hnone : get? k ps = none := get?_eq_none_iff.mpr h.1
        simp [get?, hkeep, ih h.2, hnone, Option.filter]
    · cases hkeep : keep v <;> simp [get?, hkeep, hk, ih h.2]

theorem get?_map (f : α → β) (name : String) (ps : List (String × α)) :
    get? name (ps.map fun p => (p.1, f p.2)) = (get? name ps).map f := by
  induction ps with
  | nil => rfl
  | cons p ps ih =>
    obtain ⟨k, v⟩ := p
    by_cases hk : k = name
    · simp [get?, hk]
    · simp [get?, hk, ih]

/-- Of pairs with distinct names, two of one name are one pair. -/
theorem eq_of_name_eq (h : (ps.map (·.1)).Nodup) {a b : String × α} (ha : a ∈ ps) (hb : b ∈ ps)
    (hname : a.1 = b.1) : a = b := by
  have ha' := get?_of_mem h (show (a.1, a.2) ∈ ps from ha)
  have hb' := get?_of_mem h (show (b.1, b.2) ∈ ps from hb)
  rw [hname, hb', Option.some.injEq] at ha'
  exact Prod.ext hname ha'.symm

/-- **Pairs with distinct names have one sorted row**, in whatever order they are given. -/
theorem sort_eq_of_perm (h : ps.Perm qs) (hnames : (ps.map (·.1)).Nodup) : sort ps = sort qs := by
  have hperm : (sort ps).Perm (sort qs) := (sort_perm ps).trans (h.trans (sort_perm qs).symm)
  refine List.Perm.eq_of_pairwise ?_ (pairwise_sort ps) (pairwise_sort qs) hperm
  intro a b ha hb hab hba
  have hb : b ∈ ps := h.mem_iff.mpr (mem_sort.mp hb)
  exact eq_of_name_eq hnames (mem_sort.mp ha) hb (String.le_antisymm hab hba)

/-- The order of pairs with distinct names does not matter for what is found. -/
theorem get?_of_perm (h : ps.Perm qs) (hnames : (ps.map (·.1)).Nodup) (name : String) :
    get? name ps = get? name qs := by
  rw [← get?_sort name ps, sort_eq_of_perm h hnames, get?_sort]

/-! ## Putting together -/

theorem put_of_not_mem (h : name ∉ ps.map (·.1)) (value : α) :
    put name value ps = ps ++ [(name, value)] := by
  induction ps with
  | nil => rfl
  | cons p ps ih =>
    obtain ⟨k, v⟩ := p
    obtain ⟨hk, h⟩ := not_or.mp (mt List.mem_cons.mpr h)
    rw [put, if_neg (Ne.symm hk), ih h]
    rfl

theorem foldl_put (acc ps : List (String × α)) (h : ((acc ++ ps).map (·.1)).Nodup) :
    ps.foldl (fun acc p => put p.1 p.2 acc) acc = acc ++ ps := by
  induction ps generalizing acc with
  | nil => simp
  | cons p ps ih =>
    have hp : p.1 ∉ acc.map (·.1) := by
      rw [List.map_append, List.map_cons] at h
      intro hmem
      exact (List.nodup_append.mp h).2.2 _ hmem _ List.mem_cons_self rfl
    rw [List.foldl_cons, put_of_not_mem hp, ih _ (by simpa using h), List.append_assoc]
    rfl

/-- Pairs of distinct names stay as they are. -/
theorem ofList_of_nodup (h : (ps.map (·.1)).Nodup) : ofList ps = ps := foldl_put [] ps h

/-- Putting a pair adds its name, unless it is there. -/
theorem names_put (name : String) (value : α) (ps : List (String × α)) :
    (put name value ps).map (·.1) =
      if name ∈ ps.map (·.1) then ps.map (·.1) else ps.map (·.1) ++ [name] := by
  induction ps with
  | nil => rfl
  | cons p ps ih =>
    obtain ⟨k, v⟩ := p
    by_cases hk : k = name
    · simp [put, hk]
    · rw [put, if_neg hk, List.map_cons, ih]
      by_cases hmem : name ∈ ps.map (·.1)
      · simp [hmem]
      · simp [hmem, Ne.symm hk]

theorem nodup_put (h : (ps.map (·.1)).Nodup) (name : String) (value : α) :
    ((put name value ps).map (·.1)).Nodup := by
  rw [names_put]
  split
  · exact h
  · next hmem =>
    refine List.nodup_append.mpr ⟨h, by simp, ?_⟩
    intro a ha b hb hab
    rw [hab, List.mem_singleton.mp hb] at ha
    exact hmem ha

theorem nodup_foldl_put (ps : List (String × α)) {acc : List (String × α)}
    (h : (acc.map (·.1)).Nodup) :
    ((ps.foldl (fun acc p => put p.1 p.2 acc) acc).map (·.1)).Nodup := by
  induction ps generalizing acc with
  | nil => exact h
  | cons p ps ih => exact ih (nodup_put h p.1 p.2)

/-- Pairs that were put together have distinct names. -/
theorem nodup_ofList (ps : List (String × α)) : ((ofList ps).map (·.1)).Nodup :=
  nodup_foldl_put ps List.nodup_nil

theorem mem_put {p : String × α} (h : p ∈ put name value ps) : p = (name, value) ∨ p ∈ ps := by
  induction ps with
  | nil => exact .inl (List.mem_singleton.mp h)
  | cons q ps ih =>
    obtain ⟨k, v⟩ := q
    by_cases hk : k = name
    · rw [put, if_pos hk, List.mem_cons] at h
      rcases h with h | h
      · exact .inl (h.trans (by rw [hk]))
      · exact .inr (List.mem_cons_of_mem _ h)
    · rw [put, if_neg hk, List.mem_cons] at h
      rcases h with h | h
      · exact .inr (h ▸ List.mem_cons_self)
      · rcases ih h with h | h
        · exact .inl h
        · exact .inr (List.mem_cons_of_mem _ h)

theorem mem_foldl_put (ps : List (String × α)) {acc : List (String × α)} {p : String × α}
    (h : p ∈ ps.foldl (fun acc p => put p.1 p.2 acc) acc) : p ∈ acc ∨ p ∈ ps := by
  induction ps generalizing acc with
  | nil => exact .inl h
  | cons q ps ih =>
    rcases ih h with h | h
    · rcases mem_put h with rfl | h
      · exact .inr List.mem_cons_self
      · exact .inl h
    · exact .inr (List.mem_cons_of_mem _ h)

/-- Putting pairs together brings in no pair. -/
theorem mem_of_mem_ofList {p : String × α} (h : p ∈ ofList ps) : p ∈ ps :=
  (mem_foldl_put ps h).resolve_left List.not_mem_nil

end LockAudit.Pairs
