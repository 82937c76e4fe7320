import LockAudit.Proofs.Payload.Index

/-!
# `LockAudit.Proofs.Payload.Pruning` — leaving development dependencies out

A payload that skips development dependencies is never built from other parts of the request than one
that does not: it is the same tree, pruned. Which nodes go depends on the policy.

* `prune` — the tree without the marked nodes, each of which takes along all that is below it.
* `children_skip` — reading entries with the marked ones left out is reading them all and pruning.
* `children_filter` — entries that are left out by name alone take no part in reading the others.
* `mem_versions_indexNodes_iff` — which versions an index lists, whatever the keys look like. A pruned
  tree has fewer nodes at the same places, so its index lists nothing new.
* `build_skip_prunes` — both policies, put together.
-/

namespace LockAudit.Payload

/-! ## Pruned trees -/

mutual

/-- A node without the marked nodes below it. -/
def pruneNode : Node → Node
  | .mk version integrity requires dev dependencies =>
    .mk version integrity requires dev (pruneNested dependencies)

/-- Nested nodes, if there are any, without the marked ones. -/
def pruneNested : Option (List (String × Node)) → Option (List (String × Node))
  | none => none
  | some ns => some (prune ns)

/-- Nodes without the marked ones, at every depth. A marked node goes with all that is below it. -/
def prune : List (String × Node) → List (String × Node)
  | [] => []
  | (key, n) :: r => if n.dev = some true then prune r else (key, pruneNode n) :: prune r

end

@[simp] theorem version_pruneNode (n : Node) : (pruneNode n).version = n.version := by
  obtain ⟨version, integrity, requires, dev, dependencies⟩ := n
  rw [pruneNode]
  rfl

@[simp] theorem dev_pruneNode (n : Node) : (pruneNode n).dev = n.dev := by
  obtain ⟨version, integrity, requires, dev, dependencies⟩ := n
  rw [pruneNode]
  rfl

@[simp] theorem children_pruneNode (n : Node) : (pruneNode n).children = prune n.children := by
  obtain ⟨version, integrity, requires, dev, dependencies⟩ := n
  rw [pruneNode]
  cases dependencies with
  | none => simp [pruneNested, Node.children, prune]
  | some ns => simp [pruneNested, Node.children]

theorem mem_prune {ns : List (String × Node)} {key : String} {n : Node} (h : (key, n) ∈ prune ns) :
    ∃ m, (key, m) ∈ ns ∧ m.dev ≠ some true ∧ n = pruneNode m := by
  induction ns with
  | nil =>
    rw [prune] at h
    cases h
  | cons e ns ih =>
    obtain ⟨k, m⟩ := e
    by_cases hm : m.dev = some true
    · rw [prune, if_pos hm] at h
      obtain ⟨w, hw, hrest⟩ := ih h
      exact ⟨w, List.mem_cons_of_mem _ hw, hrest⟩
    · rw [prune, if_neg hm] at h
      rcases List.mem_cons.mp h with h | h
      · obtain ⟨rfl, rfl⟩ := Prod.mk.inj h
        exact ⟨m, List.mem_cons_self, hm, rfl⟩
      · obtain ⟨w, hw, hrest⟩ := ih h
        exact ⟨w, List.mem_cons_of_mem _ hw, hrest⟩

/-! ## Places in a tree -/

/-- A node stands in a tree at a path, which lists the keys that lead to it. -/
inductive Stands : List (String × Node) → List String → Node → Prop
  | here {ns : List (String × Node)} {key : String} {n : Node} (h : (key, n) ∈ ns) :
      Stands ns [key] n
  | deeper {ns : List (String × Node)} {above : String} {m : Node} {path : List String} {n : Node}
      (h : (above, m) ∈ ns) (hbelow : Stands m.children path n) : Stands ns (above :: path) n

theorem not_stands_nil {path : List String} {n : Node} : ¬ Stands [] path n := by
  intro h
  cases h with
  | here h => cases h
  | deeper h _ => cases h

theorem stands_cons_iff {key : String} {m : Node} {ns : List (String × Node)} {path : List String}
    {n : Node} :
    Stands ((key, m) :: ns) path n ↔
      (path = [key] ∧ n = m) ∨ (∃ below, path = key :: below ∧ Stands m.children below n) ∨
        Stands ns path n := by
  constructor
  · intro h
    cases h with
    | here h =>
      rcases List.mem_cons.mp h with h | h
      · obtain ⟨rfl, rfl⟩ := Prod.mk.inj h
        exact .inl ⟨rfl, rfl⟩
      · exact .inr (.inr (.here h))
    | deeper h hbelow =>
      rcases List.mem_cons.mp h with h | h
      · obtain ⟨rfl, rfl⟩ := Prod.mk.inj h
        exact .inr (.inl ⟨_, rfl, hbelow⟩)
      · exact .inr (.inr (.deeper h hbelow))
  · rintro (⟨rfl, rfl⟩ | ⟨below, rfl, hbelow⟩ | h)
    · exact .here List.mem_cons_self
    · exact .deeper List.mem_cons_self hbelow
    · cases h with
      | here h => exact .here (List.mem_cons_of_mem _ h)
      | deeper h hbelow => exact .deeper (List.mem_cons_of_mem _ h) hbelow

/-- What stands in a pruned tree stood at the same place before, is not marked, and has lost nothing but
    marked nodes below it. -/
theorem Stands.of_prune {ns : List (String × Node)} {path : List String} {n : Node}
    (h : Stands (prune ns) path n) :
    ∃ m, Stands ns path m ∧ m.dev ≠ some true ∧ n = pruneNode m := by
  generalize hp : prune ns = ps at h
  induction h generalizing ns with
  | here h =>
    subst hp
    obtain ⟨m, hm, hdev, hn⟩ := mem_prune h
    exact ⟨m, .here hm, hdev, hn⟩
  | deeper h _ ih =>
    subst hp
    obtain ⟨m, hm, -, rfl⟩ := mem_prune h
    obtain ⟨w, hw, hrest⟩ := ih (children_pruneNode m).symm
    exact ⟨w, .deeper hm hw, hrest⟩

/-- What stands below some of the nodes stands below them all. -/
theorem Stands.mono {ns ms : List (String × Node)} (hsub : ns ⊆ ms) {path : List String} {n : Node}
    (h : Stands ns path n) : Stands ms path n := by
  cases h with
  | here h => exact .here (hsub h)
  | deeper h hbelow => exact .deeper (hsub h) hbelow

/-! ## Reading -/

/-- An entry is marked exactly if the node that is read from it is. -/
theorem isMarked_of_node {skip : Bool} {path : List String} {entry : Json} {n : Node}
    (h : node skip path entry = .ok n) : isMarked entry = true ↔ n.dev = some true := by
  cases entry with
  | obj ms =>
    rw [node] at h
    obtain ⟨version, -, h⟩ := exists_of_bind_ok h
    obtain ⟨requires, -, h⟩ := exists_of_bind_ok h
    obtain ⟨dependencies, -, h⟩ := exists_of_bind_ok h
    rw [← Except.ok.inj h]
    simp [isMarked, Json.member?, Node.dev]
  | _ => simp [node] at h

/-- Members of other names do not matter for nested entries. -/
theorem nested_of_ne {key : String} (h : key ≠ "dependencies") (skip : Bool) (path : List String)
    (value : Json) (ms : List (String × Json)) :
    nested skip path ((key, value) :: ms) = nested skip path ms := by
  cases value <;> rw [nested, if_neg h]
  all_goals simp

mutual

/-- Leaving marked entries out of an entry prunes its node. -/
theorem node_skip {path : List String} (entry : Json) {n : Node}
    (h : node false path entry = .ok n) : node true path entry = .ok (pruneNode n) := by
  match entry with
  | .obj ms =>
    rw [node] at h ⊢
    obtain ⟨version, hv, h⟩ := exists_of_bind_ok h
    obtain ⟨requires, hr, h⟩ := exists_of_bind_ok h
    obtain ⟨dependencies, hd, h⟩ := exists_of_bind_ok h
    rw [← Except.ok.inj h, hv, hr, nested_skip ms hd, pruneNode]
    rfl
  | .null | .bool _ | .num _ | .str _ | .arr _ => simp [node] at h

theorem nested_skip {path : List String} (ms : List (String × Json))
    {dependencies : Option (List (String × Node))} (h : nested false path ms = .ok dependencies) :
    nested true path ms = .ok (pruneNested dependencies) := by
  match ms with
  | [] =>
    rw [nested] at h ⊢
    rw [← Except.ok.inj h, pruneNested]
  | (key, value) :: r =>
    by_cases hk : key = "dependencies"
    · match value with
      | .obj es =>
        rw [nested, if_pos hk] at h ⊢
        obtain ⟨ns, hns, h⟩ := exists_of_bind_ok h
        rw [← (Except.ok.inj h : some ns = dependencies), children_skip es hns, pruneNested]
        rfl
      | .null | .bool _ | .num _ | .str _ | .arr _ => simp [nested, hk] at h
    · rw [nested_of_ne hk] at h ⊢
      exact nested_skip r h

/-- **Reading without the marked entries is reading and pruning.** -/
theorem children_skip {path : List String} (es : List (String × Json)) {ns : List (String × Node)}
    (h : children false path es = .ok ns) : children true path es = .ok (prune ns) := by
  match es with
  | [] =>
    rw [children] at h ⊢
    rw [← Except.ok.inj h, prune]
  | (key, value) :: r =>
    rw [children] at h ⊢
    obtain ⟨n, hn, h⟩ := exists_of_bind_ok h
    obtain ⟨ns', hns, h⟩ := exists_of_bind_ok h
    rw [← (Except.ok.inj h : (key, n) :: ns' = ns), prune]
    by_cases hm : isMarked value = true
    · rw [if_pos ((isMarked_of_node hn).mp hm)]
      simp [hm, children_skip r hns]
    · rw [if_neg (mt (isMarked_of_node hn).mpr hm), node_skip value hn, children_skip r hns]
      simp [hm]
      rfl

end

/-- Entries that are left out by name take no part in reading the others. -/
theorem children_filter {path : List String} {es : List (String × Json)} {ns : List (String × Node)}
    (h : children false path es = .ok ns) (keep : String → Bool) :
    children false path (es.filter fun e => keep e.1) = .ok (ns.filter fun e => keep e.1) := by
  induction es generalizing ns with
  | nil =>
    rw [children] at h
    rw [← Except.ok.inj h]
    rfl
  | cons e es ih =>
    obtain ⟨key, value⟩ := e
    rw [children] at h
    obtain ⟨n, hn, h⟩ := exists_of_bind_ok h
    obtain ⟨ns', hns, h⟩ := exists_of_bind_ok h
    rw [← (Except.ok.inj h : (key, n) :: ns' = ns)]
    cases hk : keep key with
    | true =>
      simp only [List.filter_cons, hk, if_true]
      rw [children, hn, ih hns]
      rfl
    | false =>
      simp only [List.filter_cons, hk, Bool.false_eq_true, if_false]
      exact ih hns

/-! ## The index -/

mutual

theorem mem_versions_indexNode_iff (n : Node) (path : List String) (ix : VersionIndex)
    {name v : String} :
    v ∈ (indexNode path ix n).versions name ↔
      v ∈ ix.versions name ∨ (packageName path = name ∧ n.version = v) ∨
        ∃ below m, Stands n.children below m ∧ packageName (path ++ below) = name ∧
          m.version = v := by
  match n with
  | .mk version integrity requires dev none =>
    have hnone : ∀ below m, ¬ Stands (Node.mk version integrity requires dev none).children below m :=
      fun _ _ => not_stands_nil
    rw [indexNode, indexNested, VersionIndex.mem_versions_add]
    simp [hnone, Node.version]
  | .mk version _ _ _ (some ns) =>
    rw [indexNode, indexNested, mem_versions_indexNodes_iff ns path, VersionIndex.mem_versions_add,
      or_assoc]
    rfl

/-- **What an index lists**: the versions of the nodes of a tree, each under the name that the text of
    the node's path ends in. -/
theorem mem_versions_indexNodes_iff (ns : List (String × Node)) (path : List String)
    (ix : VersionIndex) {name v : String} :
    v ∈ (indexNodes path ix ns).versions name ↔
      v ∈ ix.versions name ∨
        ∃ below m, Stands ns below m ∧ packageName (path ++ below) = name ∧ m.version = v := by
  match ns with
  | [] => simp [indexNodes, not_stands_nil]
  | (key, n) :: r =>
    rw [indexNodes, mem_versions_indexNodes_iff r path, mem_versions_indexNode_iff n (path ++ [key]),
      or_assoc, or_assoc]
    refine or_congr_right ?_
    constructor
    · rintro (⟨hname, hv⟩ | ⟨below, m, hm, hname, hv⟩ | ⟨below, m, hm, hname, hv⟩)
      · exact ⟨[key], n, .here List.mem_cons_self, hname, hv⟩
      · refine ⟨key :: below, m, .deeper List.mem_cons_self hm, ?_, hv⟩
        rwa [List.append_assoc] at hname
      · exact ⟨below, m, stands_cons_iff.mpr (.inr (.inr hm)), hname, hv⟩
    · rintro ⟨below, m, hm, hname, hv⟩
      rcases stands_cons_iff.mp hm with ⟨rfl, rfl⟩ | ⟨rest, rfl, hrest⟩ | hrest
      · exact .inl ⟨hname, hv⟩
      · refine .inr (.inl ⟨rest, m, hrest, ?_, hv⟩)
        rwa [List.append_assoc]
      · exact .inr (.inr ⟨below, m, hrest, hname, hv⟩)

end

/-- An index of fewer nodes lists nothing new. Every node of the smaller tree must have its version in
    the larger one, at the same place. -/
theorem versions_subset {p q : Payload}
    (h : ∀ path n, Stands q.dependencies path n →
      ∃ m, Stands p.dependencies path m ∧ m.version = n.version) {name : String} :
    q.index.versions name ⊆ p.index.versions name := by
  intro v hv
  rw [index, mem_versions_indexNodes_iff, VersionIndex.versions_empty] at hv ⊢
  rcases hv with hv | ⟨path, n, hn, hname, hv⟩
  · cases hv
  · obtain ⟨m, hm, hversion⟩ := h path n hn
    exact .inr ⟨path, m, hm, hname, hversion.trans hv⟩

/-! ## Building -/

/-- Whether a package stays under the policy `declared`. -/
theorem not_isDevOnly_iff {m : Manifest} {name : String} :
    (!isDevOnly m name) = true ↔
      name ∉ m.devDependencies.map (·.1) ∨ name ∈ m.dependencies.map (·.1) := by
  rw [← Pairs.isSome_get?_iff, ← Pairs.isSome_get?_iff, isDevOnly]
  cases Pairs.get? name m.devDependencies <;> cases Pairs.get? name m.dependencies <;> simp

theorem build_ok_iff {policy : DevPolicy} {request : Json} {m : Manifest} {skipDev : Bool}
    {p : Payload} :
    build policy request m skipDev = .ok p ↔
      ∃ entries dependencies, topEntries request.sorted = .ok entries ∧
        children (skipDev && policy == .flagged) []
          (entries.filter fun e => !(skipDev && policy == .declared && isDevOnly m e.1)) =
            .ok dependencies ∧
        p = ⟨filled m.name, filled m.version, registryRanges m skipDev, dependencies, skipDev⟩ := by
  constructor
  · intro h
    unfold build at h
    obtain ⟨entries, he, h⟩ := exists_of_bind_ok h
    obtain ⟨dependencies, hd, h⟩ := exists_of_bind_ok h
    exact ⟨entries, dependencies, he, hd, (Except.ok.inj h).symm⟩
  · rintro ⟨entries, dependencies, he, hd, rfl⟩
    unfold build
    rw [he]
    show (children _ [] _ >>= _) = _
    rw [hd]
    rfl

/-- **Leaving development dependencies out is pruning.** Where a payload can be built, it can be built
    without development dependencies by either policy. By the one its tree loses the marked nodes, with
    all that is below them, so that none is left; by the other it loses the top-level nodes that the
    manifest declares for development only, and nothing below the top changes. The index is that of
    walking the remaining tree, and lists nothing that the index of the whole tree does not. -/
theorem build_skip_prunes {policy : DevPolicy} {request : Json} {m : Manifest} {p : Payload}
    (h : build policy request m false = .ok p) :
    (∃ q, build .flagged request m true = .ok q ∧ q.dependencies = prune p.dependencies ∧
      (∀ path n, Stands q.dependencies path n → n.dev ≠ some true) ∧
      q.index = indexNodes [] .empty (prune p.dependencies) ∧
      ∀ name, q.index.versions name ⊆ p.index.versions name) ∧
    ∃ q, build .declared request m true = .ok q ∧
      q.dependencies = p.dependencies.filter (fun e =>
        e.1 ∉ m.devDependencies.map (·.1) ∨ e.1 ∈ m.dependencies.map (·.1)) ∧
      q.index = indexNodes [] .empty (p.dependencies.filter fun e =>
        e.1 ∉ m.devDependencies.map (·.1) ∨ e.1 ∈ m.dependencies.map (·.1)) ∧
      ∀ name, q.index.versions name ⊆ p.index.versions name := by
  obtain ⟨entries, ns, he, hns, rfl⟩ := build_ok_iff.mp h
  have hns : children false [] entries = .ok ns := by
    rw [← hns]
    exact congrArg _ (List.filter_eq_self.mpr fun _ _ => rfl).symm
  constructor
  · refine ⟨⟨filled m.name, filled m.version, registryRanges m true, prune ns, true⟩, ?_, rfl, ?_, rfl, ?_⟩
    · refine build_ok_iff.mpr ⟨entries, prune ns, he, ?_, rfl⟩
      rw [← children_skip entries hns]
      exact congrArg _ (List.filter_eq_self.mpr fun _ _ => rfl)
    · intro path n hn
      obtain ⟨w, -, hdev, rfl⟩ := hn.of_prune
      rwa [dev_pruneNode]
    · intro name
      refine versions_subset fun path n hn => ?_
      obtain ⟨w, hw, -, rfl⟩ := hn.of_prune
      exact ⟨w, hw, (version_pruneNode w).symm⟩
  · have hkeep : (fun e : String × Node => decide (e.1 ∉ m.devDependencies.map (·.1) ∨
        e.1 ∈ m.dependencies.map (·.1))) = fun e => !isDevOnly m e.1 := by
      funext e
      rw [Bool.eq_iff_iff, decide_eq_true_eq, not_isDevOnly_iff]
    rw [hkeep]
    refine ⟨⟨filled m.name, filled m.version, registryRanges m true,
      ns.filter fun e => !isDevOnly m e.1, true⟩, ?_, rfl, rfl, ?_⟩
    · refine build_ok_iff.mpr ⟨entries, _, he, ?_, rfl⟩
      exact children_filter hns fun name => !isDevOnly m name
    · intro name
      refine versions_subset fun path n hn => ?_
      exact ⟨n, hn.mono List.filter_sublist.subset, rfl⟩

/-! ## A sample request -/

/-- Entries of which one has a marked entry below it, one is marked, and one is neither. -/
def sampleEntries : List (String × Json) :=
  [("a", .obj [("dependencies", .obj [("b", .obj [("dev", .bool true), ("version", .str "2.0.0")])]),
      ("version", .str "1.0.0")]),
    ("b", .obj [("dev", .bool true), ("version", .str "3.0.0")]),
    ("c", .obj [("version", .str "4.0.0")])]

/-- A request with these entries. -/
def sampleRequest : Json := .obj [("dependencies", .obj sampleEntries)]

/-- A manifest that declares the last of them for development only. -/
def sampleManifest : Manifest := ⟨none, none, [("a", "^1.0.0")], [("a", "*"), ("c", "*")]⟩

/-- The tree that is read from the entries. -/
def sampleNodes : List (String × Node) :=
  [("a", .mk "1.0.0" none none none (some [("b", .mk "2.0.0" none none (some true) none)])),
    ("b", .mk "3.0.0" none none (some true) none), ("c", .mk "4.0.0" none none none none)]

theorem sorted_sampleRequest : sampleRequest.sorted = sampleRequest := by
  simp only [sampleRequest, sampleEntries, Json.sorted, Json.sortedMembers, Pairs.sort]
  repeat rw [List.mergeSort_of_pairwise (by decide +kernel)]

/-- Of the sample, one policy leaves out the marked entries and the other the last. -/
theorem build_skip_prunes_sample :
    ∃ p, build .flagged sampleRequest sampleManifest false = .ok p ∧ p.dependencies = sampleNodes ∧
      (∃ q, build .flagged sampleRequest sampleManifest true = .ok q ∧
        q.dependencies = [("a", .mk "1.0.0" none none none (some [])),
          ("c", .mk "4.0.0" none none none none)]) ∧
      ∃ q, build .declared sampleRequest sampleManifest true = .ok q ∧
        q.dependencies = sampleNodes.take 2 := by
  have hbuild : build .flagged sampleRequest sampleManifest false =
      .ok ⟨none, none, registryRanges sampleManifest false, sampleNodes, false⟩ := by
    refine build_ok_iff.mpr ⟨sampleEntries, sampleNodes, ?_, rfl, rfl⟩
    rw [sorted_sampleRequest]
    rfl
  obtain ⟨⟨q, hq, hprune, -⟩, r, hr, hfilter, -⟩ := build_skip_prunes hbuild
  refine ⟨_, hbuild, rfl, ⟨q, hq, ?_⟩, r, hr, ?_⟩
  · rw [hprune]
    rfl
  · rw [hfilter]
    rfl

end LockAudit.Payload
