import LockAudit.Payload.Basic
import LockAudit.Proofs.Json.Pairs
import LockAudit.Proofs.Steps

/-!
# `LockAudit.Proofs.Payload.Nodes` — the nodes of a payload

An audit request and a payload are both trees of entries under the key `dependencies`. `Json.Dependency`
says of any value which entries stand in it, at any depth, and under which key; it knows nothing of how
trees are read or written.

* `Payload.Submits` — a payload submits a package at a version if an entry with this key and version
  stands in the value that is posted.
* `submits_iff_holds` — these are the nodes of the payload's tree (`Holds`).
* `dependency_of_holds_build` — each node's key is that of an entry of the request from which the payload
  was built, whatever was left out and however the members were ordered.
-/

namespace LockAudit

/-! ## Members -/

namespace Json

theorem get?_sortedMembers (name : String) (ms : List (String × Json)) :
    Pairs.get? name (sortedMembers ms) = (Pairs.get? name ms).map sorted := by
  induction ms with
  | nil => rfl
  | cons m ms ih =>
    obtain ⟨k, v⟩ := m
    by_cases h : k = name
    · simp [sortedMembers, Pairs.get?, h]
    · simp [sortedMembers, Pairs.get?, h, ih]

/-- Sorting a value sorts its members and changes nothing else about them. -/
theorem member?_sorted (name : String) (j : Json) :
    j.sorted.member? name = (j.member? name).map sorted := by
  cases j with
  | obj ms => simp [sorted, member?, get?_sortedMembers]
  | _ => simp [sorted, member?]

theorem mem_sortedMembers {key : String} {v : Json} {ms : List (String × Json)}
    (h : (key, v) ∈ sortedMembers ms) : ∃ w, (key, w) ∈ ms ∧ v = w.sorted := by
  induction ms with
  | nil => simp [sortedMembers] at h
  | cons m ms ih =>
    obtain ⟨k, w⟩ := m
    rw [sortedMembers, List.mem_cons] at h
    rcases h with h | h
    · rw [Prod.mk.injEq] at h
      exact ⟨w, by simp [h.1], h.2⟩
    · obtain ⟨w, hw, hv⟩ := ih h
      exact ⟨w, List.mem_cons_of_mem _ hw, hv⟩

/-- A member that is an object once it is sorted was one before. -/
theorem member?_of_sorted {name : String} {j : Json} {es : List (String × Json)}
    (h : j.sorted.member? name = some (.obj es)) :
    ∃ ms, j.member? name = some (.obj ms) ∧ es = Pairs.sort (sortedMembers ms) := by
  rw [member?_sorted] at h
  obtain ⟨v, hv, hs⟩ := Option.map_eq_some_iff.mp h
  cases v with
  | obj ms =>
    rw [sorted, Json.obj.injEq] at hs
    exact ⟨ms, hv, hs.symm⟩
  | _ => simp [sorted] at hs

/-! ## Entries at any depth -/

/-- An entry stands in a value under a key: in the value's own object `dependencies`, or in an entry
    that stands there. -/
inductive Dependency : Json → String → Json → Prop
  | here {j : Json} {es : List (String × Json)} {key : String} {entry : Json}
      (hes : j.member? "dependencies" = some (.obj es)) (h : (key, entry) ∈ es) :
      Dependency j key entry
  | deeper {j : Json} {es : List (String × Json)} {above : String} {upper : Json} {key : String}
      {entry : Json} (hes : j.member? "dependencies" = some (.obj es)) (h : (above, upper) ∈ es)
      (hbelow : Dependency upper key entry) : Dependency j key entry

theorem Dependency.exists_entries {j entry : Json} {key : String} (h : Dependency j key entry) :
    ∃ es, j.member? "dependencies" = some (.obj es) := by
  cases h with
  | here hes _ => exact ⟨_, hes⟩
  | deeper hes _ _ => exact ⟨_, hes⟩

/-- Sorting brings in no key. -/
theorem Dependency.of_sorted {j entry : Json} {key : String} (h : Dependency j.sorted key entry) :
    ∃ e, Dependency j key e := by
  generalize hj : j.sorted = i at h
  induction h generalizing j with
  | here hes hm =>
    subst hj
    obtain ⟨ms, hms, rfl⟩ := member?_of_sorted hes
    obtain ⟨w, hw, -⟩ := mem_sortedMembers ((Pairs.sort_perm _).mem_iff.mp hm)
    exact ⟨w, .here hms hw⟩
  | deeper hes hm _ ih =>
    subst hj
    obtain ⟨ms, hms, rfl⟩ := member?_of_sorted hes
    obtain ⟨w, hw, hsorted⟩ := mem_sortedMembers ((Pairs.sort_perm _).mem_iff.mp hm)
    obtain ⟨e, he⟩ := ih hsorted.symm
    exact ⟨e, .deeper hms hw he⟩

end Json

/-! ## Nodes at any depth -/

namespace Payload

/-- A tree holds a package at a version: one of its nodes has this key and version, at some depth. -/
inductive Holds : List (String × Node) → String → String → Prop
  | here {ns : List (String × Node)} {key : String} {n : Node} (h : (key, n) ∈ ns) :
      Holds ns key n.version
  | deeper {ns : List (String × Node)} {above : String} {n : Node} {key version : String}
      (h : (above, n) ∈ ns) (hbelow : Holds n.children key version) : Holds ns key version

theorem not_holds_nil {key version : String} : ¬ Holds [] key version := by
  intro h
  cases h with
  | here h => cases h
  | deeper h _ => cases h

theorem holds_cons_iff {key name version : String} {n : Node} {ns : List (String × Node)} :
    Holds ((key, n) :: ns) name version ↔
      (key = name ∧ n.version = version) ∨ Holds n.children name version ∨ Holds ns name version := by
  constructor
  · intro h
    cases h with
    | here h =>
      rcases List.mem_cons.mp h with h | h
      · obtain ⟨rfl, rfl⟩ := Prod.mk.inj h
        exact .inl ⟨rfl, rfl⟩
      · exact .inr (.inr (.here h))
    | deeper h hbelow =>
      rcases List.mem_cons.mp h with h | h
      · obtain ⟨rfl, rfl⟩ := Prod.mk.inj h
        exact .inr (.inl hbelow)
      · exact .inr (.inr (.deeper h hbelow))
  · rintro (⟨rfl, rfl⟩ | h | h)
    · exact .here List.mem_cons_self
    · exact .deeper List.mem_cons_self h
    · cases h with
      | here h => exact .here (List.mem_cons_of_mem _ h)
      | deeper h hbelow => exact .deeper (List.mem_cons_of_mem _ h) hbelow

/-! ## Reading -/

theorem mem_children {skip : Bool} {path : List String} {es : List (String × Json)}
    {ns : List (String × Node)} (h : children skip path es = .ok ns) {key : String} {n : Node}
    (hn : (key, n) ∈ ns) : ∃ entry, (key, entry) ∈ es ∧ node skip (path ++ [key]) entry = .ok n := by
  induction es generalizing ns with
  | nil =>
    rw [children] at h
    rw [← Except.ok.inj h] at hn
    cases hn
  | cons e es ih =>
    obtain ⟨k, value⟩ := e
    rw [children] at h
    split at h
    · obtain ⟨entry, hentry, hnode⟩ := ih h hn
      exact ⟨entry, List.mem_cons_of_mem _ hentry, hnode⟩
    · obtain ⟨m, hm, h⟩ := exists_of_bind_ok h
      obtain ⟨ms, hms, h⟩ := exists_of_bind_ok h
      rw [← (Except.ok.inj h : (k, m) :: ms = ns)] at hn
      rcases List.mem_cons.mp hn with hn | hn
      · obtain ⟨rfl, rfl⟩ := Prod.mk.inj hn
        exact ⟨value, List.mem_cons_self, hm⟩
      · obtain ⟨entry, hentry, hnode⟩ := ih hms hn
        exact ⟨entry, List.mem_cons_of_mem _ hentry, hnode⟩

theorem nested_some {skip : Bool} {path : List String} {ms : List (String × Json)}
    {ns : List (String × Node)} (h : nested skip path ms = .ok (some ns)) :
    ∃ es, Pairs.get? "dependencies" ms = some (.obj es) ∧ children skip path es = .ok ns := by
  induction ms with
  | nil =>
    rw [nested] at h
    cases h
  | cons m ms ih =>
    obtain ⟨k, value⟩ := m
    by_cases hk : k = "dependencies"
    · cases value with
      | obj es =>
        rw [nested, if_pos hk] at h
        obtain ⟨cs, hc, h⟩ := exists_of_bind_ok h
        have hns : cs = ns := Option.some.inj (Except.ok.inj h)
        exact ⟨es, by simp [Pairs.get?, hk], hns ▸ hc⟩
      | _ => simp [nested, hk] at h
    · have hrest : nested skip path ((k, value) :: ms) = nested skip path ms := by
        cases value <;> rw [nested, if_neg hk]
        all_goals simp
      rw [hrest] at h
      obtain ⟨es, hes, hc⟩ := ih h
      exact ⟨es, by simpa [Pairs.get?, hk] using hes, hc⟩

/-- A node has no children, or those read from the entries below its own entry. -/
theorem node_children {skip : Bool} {path : List String} {entry : Json} {n : Node}
    (h : node skip path entry = .ok n) :
    n.children = [] ∨ ∃ es, entry.member? "dependencies" = some (.obj es) ∧
      children skip path es = .ok n.children := by
  cases entry with
  | obj ms =>
    rw [node] at h
    obtain ⟨version, -, h⟩ := exists_of_bind_ok h
    obtain ⟨requires, -, h⟩ := exists_of_bind_ok h
    obtain ⟨dependencies, hd, h⟩ := exists_of_bind_ok h
    rw [← Except.ok.inj h]
    cases dependencies with
    | none => exact .inl rfl
    | some ns => exact .inr (nested_some hd)
  | _ => simp [node] at h

/-- What the nodes of a tree hold, the entries they were read from have as keys. -/
theorem dependency_of_holds {ns : List (String × Node)} {key version : String}
    (h : Holds ns key version) {skip : Bool} {path : List String} {es : List (String × Json)}
    (hread : children skip path es = .ok ns) :
    ∃ above entry, (above, entry) ∈ es ∧ (above = key ∨ ∃ e, entry.Dependency key e) := by
  induction h generalizing path es with
  | here hn =>
    obtain ⟨entry, hentry, -⟩ := mem_children hread hn
    exact ⟨_, entry, hentry, .inl rfl⟩
  | deeper hn _ ih =>
    obtain ⟨entry, hentry, hnode⟩ := mem_children hread hn
    refine ⟨_, entry, hentry, .inr ?_⟩
    rcases node_children hnode with hnone | ⟨below, hbelow, hchildren⟩
    · next hh =>
      rw [hnone] at hh
      exact absurd hh not_holds_nil
    · obtain ⟨k, e, hk, hrest⟩ := ih hchildren
      rcases hrest with rfl | ⟨e', he'⟩
      · exact ⟨e, .here hbelow hk⟩
      · exact ⟨e', .deeper hbelow hk he'⟩

theorem topEntries_ok {j : Json} {es : List (String × Json)} (h : topEntries j = .ok es) :
    j.member? "dependencies" = some (.obj es) := by
  cases j with
  | obj ms =>
    simp only [topEntries] at h
    split at h
    · next entries he =>
      rw [← Except.ok.inj h]
      exact he
    · cases h
  | _ => simp [topEntries] at h

theorem topEntries_of_member? {j : Json} {es : List (String × Json)}
    (h : j.member? "dependencies" = some (.obj es)) : topEntries j = .ok es := by
  cases j with
  | obj ms =>
    have hget : Pairs.get? "dependencies" ms = some (.obj es) := h
    rw [topEntries, hget]
  | _ => cases h

/-- **Every node's key comes from the request.** -/
theorem dependency_of_holds_build {policy : DevPolicy} {request : Json} {m : Manifest} {skip : Bool}
    {p : Payload} (hbuild : build policy request m skip = .ok p) {key version : String}
    (h : Holds p.dependencies key version) : ∃ entry, request.Dependency key entry := by
  unfold build at hbuild
  obtain ⟨es, ht, hbuild⟩ := exists_of_bind_ok hbuild
  obtain ⟨ns, hc, hbuild⟩ := exists_of_bind_ok hbuild
  rw [← Except.ok.inj hbuild] at h
  obtain ⟨above, entry, hmem, hkey⟩ := dependency_of_holds h hc
  -- Entries that a policy leaves out are missing from the tree, but not from the request.
  have hmem : (above, entry) ∈ es := (List.mem_filter.mp hmem).1
  have htop := topEntries_ok ht
  rcases hkey with rfl | ⟨e, he⟩
  · exact (Json.Dependency.here htop hmem).of_sorted
  · exact (Json.Dependency.deeper htop hmem he).of_sorted

/-! ## Posting -/

theorem nodesJson_eq_map (ns : List (String × Node)) :
    nodesJson ns = ns.map fun e => (e.1, nodeJson e.2) := by
  induction ns with
  | nil => rfl
  | cons e ns ih =>
    obtain ⟨k, n⟩ := e
    rw [nodesJson, ih, List.map_cons]

theorem mem_nodesJson_iff {key : String} {entry : Json} {ns : List (String × Node)} :
    (key, entry) ∈ nodesJson ns ↔ ∃ n, (key, n) ∈ ns ∧ entry = nodeJson n := by
  rw [nodesJson_eq_map, List.mem_map]
  constructor
  · rintro ⟨⟨k, n⟩, hmem, h⟩
    obtain ⟨rfl, rfl⟩ := Prod.mk.inj h
    exact ⟨n, hmem, rfl⟩
  · rintro ⟨n, hmem, rfl⟩
    exact ⟨(key, n), hmem, rfl⟩

theorem member?_version_nodeJson (n : Node) :
    (nodeJson n).member? "version" = some (.str n.version) := by
  obtain ⟨version, integrity, requires, dev, dependencies⟩ := n
  rw [nodeJson]
  rfl

/-- The entries below a node are written if it has any. -/
theorem member?_dependencies_nodeJson (n : Node) :
    (nodeJson n).member? "dependencies" = some (.obj (nodesJson n.children)) ∨
      (nodeJson n).member? "dependencies" = none ∧ n.children = [] := by
  obtain ⟨version, integrity, requires, dev, dependencies⟩ := n
  rw [nodeJson]
  cases dependencies with
  | none =>
    right
    cases integrity <;> cases requires <;> cases dev <;>
      simp [Json.member?, Pairs.get?, nestedJson, Node.children]
  | some ns =>
    left
    cases integrity <;> cases requires <;> cases dev <;>
      simp [Json.member?, Pairs.get?, nestedJson, Node.children]

theorem member?_dependencies_toJson (p : Payload) :
    p.toJson.member? "dependencies" = some (.obj (nodesJson p.dependencies)) := by
  obtain ⟨name, version, requires, dependencies, skipDev⟩ := p
  unfold toJson
  cases name <;> cases version <;> simp [Json.member?, Pairs.get?]

/-- A payload submits a package at a version: in the value that is posted an entry stands under the
    package's name and has this version. -/
def Submits (p : Payload) (key version : String) : Prop :=
  ∃ entry, p.toJson.Dependency key entry ∧ entry.member? "version" = some (.str version)

theorem dependency_of_holds_nodesJson {ns : List (String × Node)} {key version : String}
    (h : Holds ns key version) {j : Json} (hj : j.member? "dependencies" = some (.obj (nodesJson ns))) :
    ∃ entry, j.Dependency key entry ∧ entry.member? "version" = some (.str version) := by
  induction h generalizing j with
  | here hn =>
    exact ⟨_, .here hj (mem_nodesJson_iff.mpr ⟨_, hn, rfl⟩), member?_version_nodeJson _⟩
  | @deeper _ _ n _ _ hn hbelow ih =>
    rcases member?_dependencies_nodeJson n with hd | ⟨-, hnone⟩
    · obtain ⟨entry, hentry, hversion⟩ := ih hd
      exact ⟨entry, .deeper hj (mem_nodesJson_iff.mpr ⟨n, hn, rfl⟩) hentry, hversion⟩
    · rw [hnone] at hbelow
      exact absurd hbelow not_holds_nil

theorem holds_of_dependency_nodesJson {j entry : Json} {key version : String}
    (h : j.Dependency key entry) (hversion : entry.member? "version" = some (.str version))
    {ns : List (String × Node)} (hj : j.member? "dependencies" = some (.obj (nodesJson ns))) :
    Holds ns key version := by
  induction h generalizing ns with
  | here hes hm =>
    rw [hes, Option.some.injEq, Json.obj.injEq] at hj
    rw [hj] at hm
    obtain ⟨n, hn, rfl⟩ := mem_nodesJson_iff.mp hm
    rw [member?_version_nodeJson, Option.some.injEq, Json.str.injEq] at hversion
    rw [← hversion]
    exact .here hn
  | deeper hes hm hbelow ih =>
    rw [hes, Option.some.injEq, Json.obj.injEq] at hj
    rw [hj] at hm
    obtain ⟨n, hn, rfl⟩ := mem_nodesJson_iff.mp hm
    refine .deeper hn (ih hversion ?_)
    rcases member?_dependencies_nodeJson n with hd | ⟨hnone, -⟩
    · exact hd
    · -- An entry stands below this node, so the node has entries.
      obtain ⟨es, hes'⟩ := hbelow.exists_entries
      rw [hnone] at hes'
      cases hes'

/-- **What is submitted is what the tree holds.** -/
theorem submits_iff_holds {p : Payload} {key version : String} :
    p.Submits key version ↔ Holds p.dependencies key version := by
  constructor
  · rintro ⟨entry, hentry, hversion⟩
    exact holds_of_dependency_nodesJson hentry hversion (member?_dependencies_toJson p)
  · intro h
    exact dependency_of_holds_nodesJson h (member?_dependencies_toJson p)

end Payload

end LockAudit
