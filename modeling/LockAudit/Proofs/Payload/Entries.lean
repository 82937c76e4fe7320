import LockAudit.Proofs.Payload.Levels
import LockAudit.Proofs.Payload.Preorder

/-!
# `LockAudit.Proofs.Payload.Entries` — what reading an entry says

`Levels` takes the reading of a request apart into levels. Here each level is related to the entries that
stand in it, under their keys and as they were written.

* `node_ok_iff` — an entry is read exactly if it has what it must have, and the node has nothing else.
* `get?_readEach`, `get?_of_readEach` — a level has the entries that are not left out, and each is read alone.
* `readEach_error` — a level that cannot be read has a first entry by name that cannot be read.
-/

namespace LockAudit.Payload

open Json (sortedMembers)

variable {skip : Bool} {path : List String} {key version : String} {entry c : Json} {n : Node} {f : Fault}
  {ms es : List (String × Json)} {ns : List (String × Node)} {integrity : Option String}
  {requires : Option (List (String × Json))} {dev : Option Bool} {dependencies : Option (List (String × Node))}

/-! ## One entry -/

theorem entryVersion_ok_iff : entryVersion path ms = .ok version ↔
    Pairs.get? "version" ms = some (.str version) ∧ version ≠ "" := by
  unfold entryVersion
  split
  · next s hs =>
    rw [hs]
    by_cases he : s = ""
    · simp only [if_pos he, Option.some.injEq, Json.str.injEq, reduceCtorEq, false_iff, not_and]
      intro h
      simp [← h, he]
    · simp only [if_neg he, Except.ok.injEq, Option.some.injEq, Json.str.injEq]
      exact ⟨fun h => ⟨h, h ▸ he⟩, fun h => h.1⟩
  · next hno =>
    refine iff_of_false (by simp) ?_
    rintro ⟨h, -⟩
    exact hno version h

theorem entryRequires_ok_iff : entryRequires path ms = .ok requires ↔
    Pairs.get? "requires" ms = requires.map Json.obj := by
  unfold entryRequires
  split
  · next h => cases requires <;> simp [h]
  · next rs h => cases requires <;> simp [h]
  · next v hno h =>
    rw [h]
    refine iff_of_false (by simp) ?_
    cases requires with
    | none => simp
    | some rs => simpa using hno rs

theorem readBelow_ok_iff {v : Option Json} : readBelow skip path v = .ok dependencies ↔
    (v = none ∧ dependencies = none) ∨
      ∃ es ns, v = some (.obj es) ∧ dependencies = some ns ∧ readEach skip path (Pairs.sort es) = .ok ns := by
  unfold readBelow
  split
  · cases dependencies <;> simp
  · next es =>
    constructor
    · intro h
      obtain ⟨ns, hns, h⟩ := exists_of_map_ok h
      exact .inr ⟨es, ns, rfl, h.symm, hns⟩
    · rintro (⟨h, -⟩ | ⟨es', ns, h, rfl, hns⟩)
      · cases h
      · cases h
        rw [hns]
        rfl
  · next hno =>
    refine iff_of_false (by simp) ?_
    rintro (⟨h, -⟩ | ⟨es, -, h, -⟩)
    · cases h
    · exact hno es (Option.some.inj h)

/-- Optional values with equal images are both there or both missing. -/
theorem rel_of_map_eq {α β γ : Type} {f : α → γ} {g : β → γ} {o : Option α} {o' : Option β}
    (h : o.map f = o'.map g) : Option.Rel (fun a b => f a = g b) o o' := by
  cases o with
  | none =>
    cases o' with
    | none => exact .none
    | some b => cases h
  | some a =>
    cases o' with
    | none => cases h
    | some b => exact .some (Option.some.inj h)

theorem exists_of_sorted_eq_obj {v : Json} {rs : List (String × Json)} (h : v.sorted = .obj rs) :
    ∃ raw, v = .obj raw ∧ Pairs.sort (sortedMembers raw) = rs := by
  cases v with
  | obj raw =>
    rw [Json.sorted, Json.obj.injEq] at h
    exact ⟨raw, rfl, h⟩
  | _ => simp [Json.sorted] at h

/-- **An entry is read exactly if it has what it must have.** It is an object with a version that is not
    empty; what it requires and what is below it are objects, if they are there. -/
theorem node_ok_iff : node skip path entry.sorted = .ok (.mk version integrity requires dev dependencies) ↔
    ∃ ms, entry = .obj ms ∧ (Pairs.get? "version" ms = some (.str version) ∧ version ≠ "") ∧
      integrity = (Pairs.get? "integrity" ms).bind Json.str? ∧
      (Pairs.get? "requires" ms).map Json.sorted = requires.map Json.obj ∧
      dev = (Pairs.get? "dev" ms).bind Json.bool? ∧
      readBelow skip path (Pairs.get? "dependencies" ms) = .ok dependencies := by
  cases entry with
  | obj ms =>
    rw [node_sorted]
    constructor
    · intro h
      obtain ⟨version', hv, h⟩ := exists_of_bind_ok h
      obtain ⟨requires', hr, h⟩ := exists_of_bind_ok h
      obtain ⟨dependencies', hd, h⟩ := exists_of_bind_ok h
      obtain ⟨rfl, rfl, rfl, rfl, rfl⟩ := Node.mk.inj (Except.ok.inj h)
      refine ⟨ms, rfl, entryVersion_ok_iff.mp hv, rfl, ?_, rfl, hd⟩
      rw [entryRequires_ok_iff.mp hr]
      cases requires' <;> simp [Json.sorted]
    · rintro ⟨ms', hms, hv, rfl, hr, rfl, hd⟩
      cases hms
      have hr' : ∃ rs, entryRequires path ms = .ok rs ∧
          rs.map (fun rs => Pairs.sort (sortedMembers rs)) = requires := by
        generalize hget : Pairs.get? "requires" ms = o at hr
        cases rel_of_map_eq hr with
        | none => exact ⟨none, entryRequires_ok_iff.mpr hget, rfl⟩
        | some hsorted =>
          obtain ⟨raw, rfl, hraw⟩ := exists_of_sorted_eq_obj hsorted
          exact ⟨some raw, entryRequires_ok_iff.mpr hget, congrArg some hraw⟩
      obtain ⟨rs, hrs, rfl⟩ := hr'
      rw [entryVersion_ok_iff.mpr hv, hrs, hd]
      rfl
  | _ => simp [Json.sorted, node]

/-- What is below an entry that is read was read from the entries below it. -/
theorem children_of_node (h : node skip path entry.sorted = .ok n) :
    readEach skip path (Pairs.sort entry.entries) = .ok n.children := by
  obtain ⟨version, integrity, requires, dev, dependencies⟩ := n
  obtain ⟨ms, rfl, -, -, -, -, hd⟩ := node_ok_iff.mp h
  rcases readBelow_ok_iff.mp hd with ⟨hnone, rfl⟩ | ⟨es, ns, hes, rfl, hread⟩
  · have hentries : (Json.obj ms).entries = [] := by
      refine Json.entries_eq_nil fun es hes => ?_
      rw [Json.member?, hnone] at hes
      cases hes
    rw [hentries, Pairs.sort, List.mergeSort_nil]
    rfl
  · rwa [Json.entries_of_member? (show (Json.obj ms).member? "dependencies" = some (.obj es) from hes)]

/-! ## One level -/

theorem readEach_cons (skip : Bool) (path : List String) (key : String) (c : Json)
    (es : List (String × Json)) :
    readEach skip path ((key, c) :: es) =
      if skip && isMarked c then readEach skip path es
      else (do
        let n ← node skip (path ++ [key]) c.sorted
        let ns ← readEach skip path es
        pure ((key, n) :: ns)) := by
  rw [← children_sortedMembers, sortedMembers, children, isMarked_sorted, children_sortedMembers]

/-- What is not left out is read. -/
theorem get?_readEach (h : readEach skip path es = .ok ns) (hc : Pairs.get? key es = some c)
    (hm : (skip && isMarked c) = false) :
    ∃ n, Pairs.get? key ns = some n ∧ node skip (path ++ [key]) c.sorted = .ok n := by
  induction es generalizing ns with
  | nil => cases hc
  | cons e es ih =>
    obtain ⟨k, d⟩ := e
    rw [readEach_cons] at h
    by_cases hk : k = key
    · subst hk
      obtain rfl : d = c := by simpa [Pairs.get?] using hc
      rw [hm, if_neg Bool.false_ne_true] at h
      obtain ⟨n, hn, h⟩ := exists_of_bind_ok h
      obtain ⟨ns', -, h⟩ := exists_of_bind_ok h
      refine ⟨n, ?_, hn⟩
      rw [← (Except.ok.inj h : (k, n) :: ns' = ns), Pairs.get?, if_pos rfl]
    · rw [Pairs.get?, if_neg hk] at hc
      split at h
      · exact ih h hc
      · obtain ⟨n, -, h⟩ := exists_of_bind_ok h
        obtain ⟨ns', hns, h⟩ := exists_of_bind_ok h
        rw [← (Except.ok.inj h : (k, n) :: ns' = ns), Pairs.get?, if_neg hk]
        exact ih hns hc

/-- What is read was not left out. -/
theorem mem_readEach (h : readEach skip path es = .ok ns) (hn : (key, n) ∈ ns) :
    ∃ c, (key, c) ∈ es ∧ (skip && isMarked c) = false ∧ node skip (path ++ [key]) c.sorted = .ok n := by
  induction es generalizing ns with
  | nil =>
    rw [← Except.ok.inj (show Except.ok [] = .ok ns from h)] at hn
    cases hn
  | cons e es ih =>
    obtain ⟨k, d⟩ := e
    rw [readEach_cons] at h
    split at h
    · obtain ⟨c, hc, hrest⟩ := ih h hn
      exact ⟨c, List.mem_cons_of_mem _ hc, hrest⟩
    · next hm =>
      obtain ⟨m, hread, h⟩ := exists_of_bind_ok h
      obtain ⟨ns', hns, h⟩ := exists_of_bind_ok h
      rw [← (Except.ok.inj h : (k, m) :: ns' = ns)] at hn
      rcases List.mem_cons.mp hn with hn | hn
      · obtain ⟨rfl, rfl⟩ := Prod.mk.inj hn
        exact ⟨d, List.mem_cons_self, by simpa using hm, hread⟩
      · obtain ⟨c, hc, hrest⟩ := ih hns hn
        exact ⟨c, List.mem_cons_of_mem _ hc, hrest⟩

theorem get?_of_readEach (hes : (es.map (·.1)).Nodup) (h : readEach skip path es = .ok ns)
    (hn : Pairs.get? key ns = some n) :
    ∃ c, Pairs.get? key es = some c ∧ (skip && isMarked c) = false ∧
      node skip (path ++ [key]) c.sorted = .ok n := by
  obtain ⟨c, hc, hrest⟩ := mem_readEach h (Pairs.mem_of_get? hn)
  exact ⟨c, Pairs.get?_of_mem hes hc, hrest⟩

/-- The first entry of a level by name that cannot be read: it is not left out, and every entry before it is
    left out or read. -/
structure FirstFault (skip : Bool) (path : List String) (es : List (String × Json)) (key : String) (c : Json)
    (f : Fault) : Prop where
  found : Pairs.get? key es = some c
  kept : (skip && isMarked c) = false
  fault : node skip (path ++ [key]) c.sorted = .error f
  before : ∀ k d, k < key → Pairs.get? k es = some d → (skip && isMarked d) = false →
    ∃ n, node skip (path ++ [k]) d.sorted = .ok n

/-- An entry that is left out or read may be put in front. -/
theorem FirstFault.cons {k : String} {d : Json} (h : FirstFault skip path es key c f) (hk : k < key)
    (hd : (skip && isMarked d) = false → ∃ n, node skip (path ++ [k]) d.sorted = .ok n) :
    FirstFault skip path ((k, d) :: es) key c f where
  found := by rw [Pairs.get?, if_neg (String.ne_of_lt hk), h.found]
  kept := h.kept
  fault := h.fault
  before := by
    intro k' d' hlt hget hm
    by_cases hk' : k = k'
    · subst hk'
      obtain rfl : d = d' := by simpa [Pairs.get?] using hget
      exact hd hm
    · rw [Pairs.get?, if_neg hk'] at hget
      exact h.before k' d' hlt hget hm

/-- **A level that cannot be read has a first entry that cannot be read.** -/
theorem readEach_error (hes : es.Pairwise fun a b => a.1 < b.1) (h : readEach skip path es = .error f) :
    ∃ key c, FirstFault skip path es key c f := by
  induction es with
  | nil => cases h
  | cons e es ih =>
    obtain ⟨k, d⟩ := e
    obtain ⟨hk, hes⟩ := List.pairwise_cons.mp hes
    rw [readEach_cons] at h
    split at h
    · next hm =>
      obtain ⟨key, c, hfirst⟩ := ih hes h
      refine ⟨key, c, hfirst.cons (hk _ (Pairs.mem_of_get? hfirst.found)) fun hm' => ?_⟩
      rw [hm] at hm'
      cases hm'
    · next hm =>
      rcases bind_error h with h | ⟨n, hn, h⟩
      · refine ⟨k, d, by simp [Pairs.get?], by simpa using hm, h, fun k' d' hlt hget _ => ?_⟩
        -- Nothing stands before the first entry.
        rw [Pairs.get?, if_neg (String.ne_of_lt hlt).symm] at hget
        exact absurd hlt (String.lt_asymm (hk _ (Pairs.mem_of_get? hget)))
      · rcases bind_error h with h | ⟨ns, -, h⟩
        · obtain ⟨key, c, hfirst⟩ := ih hes h
          exact ⟨key, c, hfirst.cons (hk _ (Pairs.mem_of_get? hfirst.found)) fun _ => ⟨n, hn⟩⟩
        · cases h

end LockAudit.Payload
