import LockAudit.Proofs.Payload.Canonical
import LockAudit.Proofs.VersionIndex

/-!
# `LockAudit.Proofs.Payload.History` — the index as the listing of a tree

The index is filled while a tree is walked, with names that are cut out of the texts of paths. The listing
of a payload's value (`Json.preorder`) knows neither: it takes every entry, under its last key, before those
below it.

* `dependency_iff_mem_preorder` — the listing has all entries at any depth.
* `indexNodes_eq_addAll` — walking a tree adds its listing, if its keys are given back by texts of paths.
* `index_mirrors_tree` — the versions, the names and the size of a payload's index, from its value alone.
-/

namespace LockAudit

/-! ## Listings -/

namespace Json

variable {j entry : Json} {key : String} {path : List String}

/-- The package and the version of an entry at a path. -/
def release (e : List String × Json) : String × String :=
  (e.1.getLastD "", ((e.2.member? "version").bind Json.str?).getD "")

/-- The packages and versions of all entries at any depth, an entry before those below it. -/
def releases (j : Json) : List (String × String) := j.preorder.map release

/-- What an entry is and at what version does not depend on what is above it. -/
theorem release_behind (key : String) {e : List String × Json} (h : e.1 ≠ []) :
    release (behind key e) = release e := by
  obtain ⟨path, entry⟩ := e
  obtain ⟨next, rest, rfl⟩ := List.exists_cons_of_ne_nil h
  rfl

theorem map_release_behind (key : String) (j : Json) :
    (j.preorder.map (behind key)).map release = j.releases := by
  rw [List.map_map, releases]
  exact List.map_congr_left fun e he => release_behind key (ne_nil_of_mem_preorder he)

/-- **The listing has all entries at any depth.** -/
theorem dependency_iff_mem_preorder :
    j.Dependency key entry ↔ ∃ path, (path ++ [key], entry) ∈ j.preorder := by
  constructor
  · intro h
    induction h with
    | here hes h =>
      refine ⟨[], mem_preorder_cases.mpr ⟨_, _, ?_, .inl rfl⟩⟩
      rwa [entries_of_member? hes]
    | @deeper _ _ above upper _ _ hes h _ ih =>
      obtain ⟨path, hpath⟩ := ih
      refine ⟨above :: path, mem_preorder_cases.mpr ⟨above, upper, ?_, .inr ⟨_, hpath, rfl⟩⟩⟩
      rwa [entries_of_member? hes]
  · rintro ⟨path, h⟩
    induction path generalizing j with
    | nil =>
      obtain ⟨k, c, hc, h | ⟨b, hb, h⟩⟩ := mem_preorder_cases.mp h
      · cases h
        exact .here (member?_of_mem_entries hc) hc
      · -- A path of one key is not behind another key.
        exact absurd (List.cons.inj (congrArg Prod.fst h)).2.symm (ne_nil_of_mem_preorder hb)
    | cons above path ih =>
      obtain ⟨k, c, hc, h | ⟨b, hb, h⟩⟩ := mem_preorder_cases.mp h
      · have hpath := (List.cons.inj (congrArg Prod.fst h)).2
        exact absurd hpath (List.append_ne_nil_of_right_ne_nil _ (List.cons_ne_nil _ _))
      · obtain ⟨rest, e⟩ := b
        cases h
        exact .deeper (member?_of_mem_entries hc) hc (ih hb)

theorem Dependency.sorted (h : j.Dependency key entry) : j.sorted.Dependency key entry.sorted := by
  have hentries : ∀ {i : Json} {es : List (String × Json)}, i.member? "dependencies" = some (.obj es) →
      i.sorted.member? "dependencies" = some (.obj (Pairs.sort (sortedMembers es))) := by
    intro i es hes
    rw [member?_sorted, hes]
    rfl
  have hmem : ∀ {es : List (String × Json)} {e : String × Json}, e ∈ es →
      (e.1, e.2.sorted) ∈ Pairs.sort (sortedMembers es) := by
    intro es e he
    rw [Pairs.mem_sort, sortedMembers_eq_map]
    exact List.mem_map_of_mem he
  induction h with
  | here hes h => exact .here (hentries hes) (hmem h)
  | deeper hes h _ ih => exact .deeper (hentries hes) (hmem h) ih

/-- A key is that of some entry exactly if the listing of the sorted value has it. -/
theorem exists_dependency_iff : (∃ entry, j.Dependency key entry) ↔ ∃ r ∈ j.sorted.releases, r.1 = key := by
  constructor
  · rintro ⟨entry, h⟩
    obtain ⟨path, hpath⟩ := dependency_iff_mem_preorder.mp h.sorted
    refine ⟨_, List.mem_map_of_mem hpath, ?_⟩
    simp [release]
  · rintro ⟨r, hr, rfl⟩
    obtain ⟨e, he, rfl⟩ := List.mem_map.mp hr
    have hpath := List.dropLast_append_getLast (ne_nil_of_mem_preorder he)
    have hlast : (release e).1 = e.1.getLast (ne_nil_of_mem_preorder he) := by
      rw [release, List.getLastD_eq_getLast?, List.getLast?_eq_getLast_of_ne_nil]
      rfl
    have hentry : j.sorted.Dependency (e.1.getLast (ne_nil_of_mem_preorder he)) e.2 := by
      refine dependency_iff_mem_preorder.mpr ⟨e.1.dropLast, ?_⟩
      rw [hpath]
      exact he
    rw [hlast]
    exact hentry.of_sorted

end Json

namespace Payload

open Json (sortedMembers preorderEntries release)

variable {skip : Bool} {n : Node} {ns : List (String × Node)}

/-! ## Walking -/

/-- Walking a node adds the node and then walks what is below it. -/
theorem indexNode_eq (path : List String) (ix : VersionIndex) (n : Node) :
    indexNode path ix n = indexNodes path (ix.add (packageName path) n.version) n.children := by
  obtain ⟨version, integrity, requires, dev, dependencies⟩ := n
  rw [indexNode]
  cases dependencies with
  | none => rfl
  | some ns => rfl

/-- The listing below a node is that of its children. -/
theorem preorder_nodeJson (h : Canonical skip n.children) :
    (nodeJson n).sorted.preorder = preorderEntries (sortedMembers (nodesJson n.children)) := by
  rw [Json.preorder_eq, Json.entries_sorted, entries_nodeJson, Json.sort_sortedMembers, sort_nodesJson h]

theorem release_nodeJson (key : String) (n : Node) : release ([key], (nodeJson n).sorted) = (key, n.version) := by
  rw [release, Json.member?_sorted, member?_version_nodeJson]
  rfl

/-- **Walking a tree adds its listing**, one entry after the other. -/
theorem indexNodes_eq_addAll (h : Canonical skip ns) (hplain : PlainKeys ns) (path : List String)
    (ix : VersionIndex) :
    indexNodes path ix ns = ix.addAll ((preorderEntries (sortedMembers (nodesJson ns))).map release) := by
  induction h generalizing path ix with
  | @intro ns order entries below ih =>
    -- Nodes of one level are walked one after the other, each with all that is below it.
    have hlevel : ∀ (ms : List (String × Node)) (ix : VersionIndex), ms ⊆ ns →
        indexNodes path ix ms = ix.addAll ((preorderEntries (sortedMembers (nodesJson ms))).map release) := by
      intro ms
      induction ms with
      | nil => exact fun ix _ => rfl
      | cons e ms ihms =>
        intro ix hsub
        obtain ⟨key, n⟩ := e
        have hmem : (key, n) ∈ ns := hsub List.mem_cons_self
        have hkey : IsPlainKey key := hplain key n.version (.here hmem)
        have hbelow : PlainKeys n.children := fun k v hk => hplain k v (.deeper hmem hk)
        rw [indexNodes, ihms _ fun a ha => hsub (List.mem_cons_of_mem _ ha), indexNode_eq,
          packageName_append path hkey, ih _ hmem hbelow, ← preorder_nodeJson (below _ hmem)]
        rw [nodesJson, sortedMembers, preorderEntries, List.map_append, List.map_cons, release_nodeJson,
          Json.map_release_behind]
        exact (VersionIndex.addAll_append (ix.add key n.version) _ _).symm
    exact hlevel ns ix (List.Subset.refl ns)

/-! ## Payloads -/

variable {policy : DevPolicy} {request : Json} {m : Manifest} {skipDev : Bool} {p : Payload}

/-- The index of a payload is that of the listing of its value. -/
theorem index_eq_addAll (h : build policy request m skipDev = .ok p) (hplain : PlainKeys p.dependencies) :
    p.index = VersionIndex.empty.addAll p.toJson.sorted.releases := by
  have hcanonical := canonical_of_build h
  rw [index, indexNodes_eq_addAll hcanonical hplain, Json.releases, Json.preorder_eq, Json.entries_sorted,
    Json.entries_of_member? (member?_dependencies_toJson p), Json.sort_sortedMembers,
    sort_nodesJson hcanonical]

/-- **The index mirrors the tree.** If no key of the audit request has the sign `>`, the index lists for
    every name the versions of the payload's entries under this name, at any depth, each once and in the
    order of the listing with keys in order. It has the names that are keys of the tree, and no more. -/
theorem index_mirrors_tree (h : build policy request m skipDev = .ok p)
    (hkeys : ∀ key entry, request.Dependency key entry → '>' ∉ key.toList) :
    (∀ name, p.index.versions name =
      ((p.toJson.sorted.releases.filter fun r => r.1 = name).map (·.2)).eraseDups) ∧
    (∀ name, p.index.contains name = true ↔ ∃ entry, p.toJson.Dependency name entry) ∧
    p.index.size = (p.toJson.sorted.releases.map (·.1)).eraseDups.length := by
  rw [index_eq_addAll h (plainKeys_of_build h hkeys)]
  refine ⟨?_, ?_, ?_⟩
  · intro name
    exact VersionIndex.versions_addAll _ name
  · intro name
    rw [VersionIndex.contains_addAll_iff, Json.exists_dependency_iff]
  · exact VersionIndex.size_addAll _

/-- The index of the sample request has both versions of one package, that of the deeper entry first. -/
theorem index_mirrors_tree_sample :
    ∃ p, build .flagged sampleRequest sampleManifest false = .ok p ∧
      (∀ key entry, sampleRequest.Dependency key entry → '>' ∉ key.toList) ∧
      p.index.versions "b" =
        ((p.toJson.sorted.releases.filter fun r => r.1 = "b").map (·.2)).eraseDups ∧
      p.index.versions "b" = ["2.0.0", "3.0.0"] ∧
      ∃ entry, p.toJson.Dependency "c" entry := by
  have hbuild : build .flagged sampleRequest sampleManifest false =
      .ok ⟨none, none, registryRanges sampleManifest false, sampleNodes, false⟩ := by
    refine build_ok_iff.mpr ⟨sampleEntries, sampleNodes, ?_, rfl, rfl⟩
    rw [sorted_sampleRequest]
    rfl
  have hkeys : ∀ key entry, sampleRequest.Dependency key entry → '>' ∉ key.toList := by
    intro key entry h
    obtain ⟨r, hr, rfl⟩ := Json.exists_dependency_iff.mp ⟨entry, h⟩
    rw [sorted_sampleRequest] at hr
    have hall : ∀ r ∈ sampleRequest.releases, '>' ∉ r.1.toList := by decide
    exact hall r hr
  obtain ⟨hversions, hcontains, -⟩ := index_mirrors_tree hbuild hkeys
  exact ⟨_, hbuild, hkeys, hversions "b", by decide, (hcontains "c").mp (by decide)⟩

end Payload

end LockAudit
