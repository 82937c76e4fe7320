import LockAudit.Proofs.Payload.Body
import LockAudit.Proofs.Payload.Entries
import LockAudit.Proofs.Payload.Preorder

/-!
# `LockAudit.Proofs.Payload.Canonical` — a payload as a request

The value of a payload has the shape of an audit request, so a payload can be built from it. What the first
reading drops, adds or puts in order, the second one finds dropped, added and in order:

* `Canonical` — what every tree that was read has in common: names in order, versions, ranges in order, and no
  marks if marked entries are left out.
* `canonical_readEach` — all that is read is canonical.
* `readEach_nodesJson` — a canonical tree is read back from its value as it is.
* `build_toJson` — building from a payload's value gives a payload with the same text and the same index.
-/

namespace LockAudit

/-- The ranges that an entry requires, if it lists them. -/
def Node.requires : Node → Option (List (String × Json))
  | .mk _ _ requires _ _ => requires

/-- An entry as it is read, apart from what is below it. -/
structure Node.IsCanonical (skip : Bool) (n : Node) : Prop where
  version : n.version ≠ ""
  requires : ∀ rs, n.requires = some rs → (Json.obj rs).sorted = .obj rs
  unmarked : (skip && n.dev == some true) = false

namespace Payload

open Json (sortedMembers)

variable {skip : Bool} {path : List String} {n : Node} {ns : List (String × Node)} {entry : Json}
  {es : List (String × Json)}

/-! ## What is read -/

/-- A tree as it is read: the entries of each level stand in the order of their names. -/
inductive Canonical (skip : Bool) : List (String × Node) → Prop
  | intro {ns : List (String × Node)} (order : ns.Pairwise fun a b => a.1 ≤ b.1)
      (entries : ∀ e ∈ ns, Node.IsCanonical skip e.2) (below : ∀ e ∈ ns, Canonical skip e.2.children) :
      Canonical skip ns

theorem Canonical.order (h : Canonical skip ns) : ns.Pairwise fun a b => a.1 ≤ b.1 := by
  cases h with
  | intro order _ _ => exact order

theorem names_readEach (h : readEach skip path es = .ok ns) :
    (ns.map (·.1)).Sublist (es.map (·.1)) := by
  rw [← children_sortedMembers] at h
  have hnames := names_children h
  rwa [Json.sortedMembers_names] at hnames

/-- An entry is left out for its mark exactly if the node that is read from it would be. -/
theorem skip_isMarked_eq (h : node skip path entry.sorted = .ok n) :
    (skip && isMarked entry) = (skip && n.dev == some true) := by
  have hdev := isMarked_of_node h
  rw [isMarked_sorted] at hdev
  exact congrArg (skip && ·) (Bool.eq_iff_iff.mpr (hdev.trans beq_iff_eq.symm))

theorem isCanonical_of_node (h : node skip path entry.sorted = .ok n) (hm : (skip && isMarked entry) = false) :
    Node.IsCanonical skip n := by
  have hdev := skip_isMarked_eq h
  obtain ⟨version, integrity, requires, dev, dependencies⟩ := n
  obtain ⟨ms, rfl, ⟨-, hv⟩, -, hr, -, -⟩ := node_ok_iff.mp h
  refine ⟨hv, ?_, ?_⟩
  · rintro rs (rfl : requires = some rs)
    obtain ⟨v, -, hsorted⟩ := Option.map_eq_some_iff.mp hr
    rw [← hsorted, Json.sorted_sorted]
  · rw [← hdev, hm]

/-- A level that is read is canonical if all below it is. -/
theorem canonical_of_below (order : es.Pairwise fun a b => a.1 ≤ b.1) (h : readEach skip path es = .ok ns)
    (below : ∀ e ∈ ns, Canonical skip e.2.children) : Canonical skip ns := by
  refine .intro ?_ ?_ below
  · exact List.pairwise_map.mp ((List.pairwise_map.mpr order).sublist (names_readEach h))
  · intro e he
    obtain ⟨c, -, hm, hc⟩ := mem_readEach h he
    exact isCanonical_of_node hc hm

/-- What is below a node that was read is canonical. -/
theorem canonical_children (n : Node) (path : List String) (entry : Json)
    (h : node skip path entry.sorted = .ok n) : Canonical skip n.children := by
  induction n using Node.induction generalizing path entry with
  | step n ih =>
    have hread := children_of_node h
    refine canonical_of_below (Pairs.pairwise_sort _) hread ?_
    intro e he
    obtain ⟨c, -, -, hc⟩ := mem_readEach hread he
    exact ih e he _ _ hc

/-- **All that is read is canonical.** -/
theorem canonical_readEach (order : es.Pairwise fun a b => a.1 ≤ b.1) (h : readEach skip path es = .ok ns) :
    Canonical skip ns := by
  refine canonical_of_below order h ?_
  intro e he
  obtain ⟨c, -, -, hc⟩ := mem_readEach h he
  exact canonical_children e.2 _ _ hc

/-! ## What is read back -/

/-- The entries in a node's value are the values of its children. -/
theorem entries_nodeJson (n : Node) : (nodeJson n).entries = nodesJson n.children := by
  rcases member?_dependencies_nodeJson n with hd | ⟨hd, hnone⟩
  · exact Json.entries_of_member? hd
  · rw [hnone]
    refine Json.entries_eq_nil fun es hes => ?_
    rw [hd] at hes
    cases hes

theorem get?_nodesJson (key : String) (ns : List (String × Node)) :
    Pairs.get? key (nodesJson ns) = (Pairs.get? key ns).map nodeJson := by
  induction ns with
  | nil => rfl
  | cons e ns ih =>
    obtain ⟨k, n⟩ := e
    by_cases hk : k = key
    · simp [nodesJson, Pairs.get?, hk]
    · simp [nodesJson, Pairs.get?, hk, ih]

/-- The value of a tree is sorted on its upper level. -/
theorem sort_nodesJson (h : Canonical skip ns) : Pairs.sort (nodesJson ns) = nodesJson ns := by
  rw [nodesJson_eq_map, Pairs.sort_map, Pairs.sort]
  rw [List.mergeSort_of_pairwise (h.order.imp fun hle => decide_eq_true hle)]

/-- The members of a node's value, each where the node has it. -/
structure HasMembers (j : Json) (version : String) (integrity : Option String)
    (requires : Option (List (String × Json))) (dev : Option Bool)
    (dependencies : Option (List (String × Node))) : Prop where
  version : j.member? "version" = some (.str version)
  integrity : j.member? "integrity" = integrity.map .str
  requires : j.member? "requires" = requires.map .obj
  dev : j.member? "dev" = dev.map .bool
  dependencies : j.member? "dependencies" = dependencies.map fun ns => .obj (nodesJson ns)
  others : ∀ name, name ∉ ["version", "integrity", "requires", "dev", "dependencies"] → j.member? name = none

theorem hasMembers_nodeJson (version : String) (integrity : Option String)
    (requires : Option (List (String × Json))) (dev : Option Bool)
    (dependencies : Option (List (String × Node))) :
    HasMembers (nodeJson (.mk version integrity requires dev dependencies)) version integrity requires dev
      dependencies := by
  -- Each optional member is there or not, whatever the others are.
  rw [nodeJson]
  constructor
  case version => simp [Json.member?, Pairs.get?]
  case others =>
    intro name hname
    simp only [List.mem_cons, List.not_mem_nil, or_false, not_or, ← ne_eq] at hname
    cases integrity <;> cases requires <;> cases dev <;> cases dependencies <;>
      simp [Json.member?, Pairs.get?, nestedJson, hname.1.symm, hname.2.1.symm, hname.2.2.1.symm,
        hname.2.2.2.1.symm, hname.2.2.2.2.symm]
  all_goals
    cases integrity <;> cases requires <;> cases dev <;> cases dependencies <;>
      simp [Json.member?, Pairs.get?, nestedJson]

/-- A node is read back from its value if all below it is. -/
theorem node_nodeJson (hn : Node.IsCanonical skip n) (hbelow : Canonical skip n.children)
    (hread : ∀ path, readEach skip path (nodesJson n.children) = .ok n.children) (path : List String) :
    node skip path (nodeJson n).sorted = .ok n := by
  obtain ⟨version, integrity, requires, dev, dependencies⟩ := n
  have hmembers := hasMembers_nodeJson version integrity requires dev dependencies
  have hrequires : (requires.map Json.obj).map Json.sorted = requires.map Json.obj := by
    cases requires with
    | none => rfl
    | some rs => exact congrArg some (hn.requires rs rfl)
  have hdependencies : readBelow skip path (dependencies.map fun ns => .obj (nodesJson ns)) =
      .ok dependencies := by
    refine readBelow_ok_iff.mpr ?_
    cases dependencies with
    | none => exact .inl ⟨rfl, rfl⟩
    | some ns =>
      refine .inr ⟨nodesJson ns, ns, rfl, rfl, ?_⟩
      rw [sort_nodesJson (show Canonical skip ns from hbelow)]
      exact hread path
  rw [nodeJson] at hmembers ⊢
  refine node_ok_iff.mpr ⟨_, rfl, ⟨hmembers.version, hn.version⟩, ?_, ?_, ?_, ?_⟩
  · refine .trans ?_ (congrArg (Option.bind · Json.str?) hmembers.integrity).symm
    cases integrity <;> rfl
  · exact (congrArg (Option.map Json.sorted) hmembers.requires).trans hrequires
  · refine .trans ?_ (congrArg (Option.bind · Json.bool?) hmembers.dev).symm
    cases dev <;> rfl
  · exact (congrArg (readBelow skip path) hmembers.dependencies).trans hdependencies

/-- **A canonical tree is read back from its value as it is.** -/
theorem readEach_nodesJson (h : Canonical skip ns) (path : List String) :
    readEach skip path (nodesJson ns) = .ok ns := by
  induction h generalizing path with
  | @intro ns order entries below ih =>
    -- Every level is read entry by entry, and what is below an entry is read back as well.
    have hlevel : ∀ ms : List (String × Node), ms ⊆ ns → readEach skip path (nodesJson ms) = .ok ms := by
      intro ms
      induction ms with
      | nil => exact fun _ => rfl
      | cons e ms ihms =>
        intro hsub
        obtain ⟨key, n⟩ := e
        have hmem : (key, n) ∈ ns := hsub List.mem_cons_self
        have hn := entries _ hmem
        have hnode := node_nodeJson hn (below _ hmem) (ih _ hmem) (path ++ [key])
        have hmark : (skip && isMarked (nodeJson n)) = false := (skip_isMarked_eq hnode).trans hn.unmarked
        rw [nodesJson, readEach_cons, hmark, if_neg Bool.false_ne_true, hnode,
          ihms fun a ha => hsub (List.mem_cons_of_mem _ ha)]
        rfl
    exact hlevel ns (List.Subset.refl ns)

/-! ## Payloads -/

variable {policy : DevPolicy} {request : Json} {m : Manifest} {skipDev : Bool} {p : Payload}

/-- How a payload is built: from the entries of the request, those left out by name apart. -/
theorem exists_of_build (h : build policy request m skipDev = .ok p) :
    ∃ es ns, request.member? "dependencies" = some (.obj es) ∧
      readEach (skipDev && policy == .flagged) [] ((Pairs.sort es).filter fun e =>
        !(skipDev && policy == .declared && isDevOnly m e.1)) = .ok ns ∧
      p = ⟨filled m.name, filled m.version, registryRanges m skipDev, ns, skipDev⟩ := by
  rw [build_by_levels] at h
  obtain ⟨es, hes, h⟩ := exists_of_bind_ok h
  obtain ⟨ns, hns, h⟩ := exists_of_bind_ok h
  exact ⟨es, ns, topEntries_ok hes, hns, (Except.ok.inj h).symm⟩

/-- The tree of a payload is canonical. -/
theorem canonical_of_build (h : build policy request m skipDev = .ok p) :
    Canonical (skipDev && policy == .flagged) p.dependencies := by
  obtain ⟨es, ns, -, hns, rfl⟩ := exists_of_build h
  exact canonical_readEach ((Pairs.pairwise_sort es).filter _) hns

/-- **Building is idempotent.** The value of a payload is accepted as an audit request, and with the same
    manifest, policy and choice about development dependencies it gives a payload with the same text, whose
    index lists the same versions for every name. -/
theorem build_toJson (h : build policy request m skipDev = .ok p) :
    ∃ q, build policy p.toJson m skipDev = .ok q ∧ q.text = p.text ∧
      ∀ name, q.index.versions name = p.index.versions name := by
  have hcanonical := canonical_of_build h
  obtain ⟨es, ns, -, hns, hp⟩ := exists_of_build h
  have hdependencies : p.dependencies = ns := by rw [hp]
  rw [hdependencies] at hcanonical
  -- The second reading leaves out nothing by name, as the first one has done so.
  have hkept : (nodesJson ns).filter (fun e => !(skipDev && policy == .declared && isDevOnly m e.1)) =
      nodesJson ns := by
    refine List.filter_eq_self.mpr fun e he => ?_
    obtain ⟨n, hn, -⟩ := mem_nodesJson_iff.mp (show (e.1, e.2) ∈ nodesJson ns from he)
    obtain ⟨c, hc, -⟩ := mem_readEach hns hn
    exact (List.mem_filter.mp hc).2
  have htop : topEntries p.toJson = .ok (nodesJson ns) := by
    have hmember := member?_dependencies_toJson p
    rw [hdependencies] at hmember
    exact topEntries_of_member? hmember
  refine ⟨p, ?_, rfl, fun name => rfl⟩
  rw [build_by_levels, htop, hp]
  show (readEach _ [] ((Pairs.sort (nodesJson ns)).filter _) >>= _) = _
  rw [sort_nodesJson hcanonical, hkept, readEach_nodesJson hcanonical]
  rfl

/-- The sample request without development dependencies gives a payload from which the same text is built
    again, with an index of its own. -/
theorem build_toJson_sample :
    ∃ p q, build .flagged sampleRequest sampleManifest true = .ok p ∧ p.dependencies.map (·.1) = ["a", "c"] ∧
      build .flagged p.toJson sampleManifest true = .ok q ∧ q.text = p.text ∧
      q.index.versions "c" = ["4.0.0"] := by
  have hbuild : build .flagged sampleRequest sampleManifest true =
      .ok ⟨none, none, registryRanges sampleManifest true,
        [("a", .mk "1.0.0" none none none (some [])), ("c", .mk "4.0.0" none none none none)], true⟩ := by
    refine build_ok_iff.mpr ⟨sampleEntries, _, ?_, rfl, rfl⟩
    rw [sorted_sampleRequest]
    rfl
  obtain ⟨q, hq, htext, hindex⟩ := build_toJson hbuild
  refine ⟨_, q, hbuild, rfl, hq, htext, ?_⟩
  rw [hindex]
  decide

end Payload

end LockAudit
