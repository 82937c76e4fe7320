import LockAudit.Proofs.Manifest.Declarations
import LockAudit.Proofs.Payload.Canonical

/-!
# `LockAudit.Proofs.Payload.Requires` — the ranges that reach the service

The ranges in a payload come from the two sections of a manifest in three steps: the main section comes
before the one for development, what is outside the registry is left out, and the rest is sorted. Each step
is an equation about looking a name up (`get?_declaredRanges`, `get?_registryRanges`), so the order of the
steps shows: a package whose range is left out is not declared a second time by the other section.

* `requires_exact` — from the value of a manifest to the value of a payload.
-/

namespace LockAudit

namespace Payload

variable {m : Manifest} {skipDev : Bool} {policy : DevPolicy} {request data : Json} {p : Payload}
  {name range : String}

/-! ## Ranges -/

/-- The main section comes first, and then, unless it is skipped, the section for development. -/
theorem get?_declaredRanges (m : Manifest) (skipDev : Bool) (name : String) :
    Pairs.get? name (declaredRanges m skipDev) =
      (Pairs.get? name m.dependencies).or (if skipDev then none else Pairs.get? name m.devDependencies) := by
  unfold declaredRanges
  cases skipDev with
  | true => simp
  | false =>
    have hfilter := Pairs.get?_filter (fun k => (Pairs.get? k m.dependencies).isNone) name m.devDependencies
    simp only [Bool.false_eq_true, if_false]
    rw [Pairs.get?_append, hfilter]
    cases Pairs.get? name m.dependencies <;> simp

/-- What is outside the registry is left out after the sections are joined. -/
theorem get?_registryRanges (hm : m.Distinct) (skipDev : Bool) (name : String) :
    Pairs.get? name (registryRanges m skipDev) =
      (Pairs.get? name (declaredRanges m skipDev)).filter fun range => !isForeign range := by
  rw [registryRanges, Pairs.get?_sort]
  exact Pairs.get?_filter_value (nodup_declaredRanges hm skipDev) (fun range => !isForeign range) name

theorem pairwise_registryRanges (hm : m.Distinct) (skipDev : Bool) :
    (registryRanges m skipDev).Pairwise fun a b => a.1 < b.1 :=
  Pairs.pairwise_lt_sort (nodup_registered hm skipDev)

theorem get?_registryRanges_iff (hm : m.Distinct) :
    Pairs.get? name (registryRanges m skipDev) = some range ↔
      isForeign range = false ∧ (Pairs.get? name m.dependencies = some range ∨
        skipDev = false ∧ Pairs.get? name m.dependencies = none ∧
          Pairs.get? name m.devDependencies = some range) := by
  rw [get?_registryRanges hm, get?_declaredRanges, Option.filter_eq_some_iff, Option.or_eq_some_iff]
  cases skipDev <;> simp [and_comm]

/-! ## Payloads -/

theorem member?_requires_toJson (p : Payload) :
    p.toJson.member? "requires" = some (.obj (p.requires.map fun r => (r.1, .str r.2))) := by
  obtain ⟨name, version, requires, dependencies, skipDev⟩ := p
  unfold toJson
  cases name <;> cases version <;> simp [Json.member?, Pairs.get?]

theorem requires_of_build (h : build policy request m skipDev = .ok p) :
    p.requires = registryRanges m skipDev := by
  obtain ⟨es, ns, -, -, rfl⟩ := exists_of_build h
  rfl

/-- **What a manifest requires reaches the service exactly.** A manifest is refused, with an error about the
    manifest, exactly if it is no object, or if one of its sections counts as set and is no object or has a
    range that is not a text. Otherwise every payload that is built lists texts under names in strict order:
    the ranges inside the registry that the main section declares, and unless development dependencies are
    skipped those of the other section for names that the main section does not have. A range of the main
    section that is outside the registry leaves its package out, whatever the other section says. (Names in
    one object are distinct in all that is read, by `Json.distinct_of_parse`.) -/
theorem requires_exact (hdata : data.Distinct) :
    ((∃ f, Manifest.ofJson data = .error f ∧
        (Manifest.ReadFault.declaration f).trouble = .of .manifest f.message) ↔ Manifest.Malformed data) ∧
    ∀ m, Manifest.ofJson data = .ok m → ∀ policy request skipDev p, build policy request m skipDev = .ok p →
      ∃ rs, p.toJson.member? "requires" = some (.obj rs) ∧
        rs.Pairwise (fun a b => a.1 < b.1) ∧
        (∀ r ∈ rs, ∃ range, r.2 = .str range) ∧
        (∀ name range, Pairs.get? name rs = some (.str range) ↔
          isForeign range = false ∧ (Manifest.Declares data "dependencies" name range ∨
            skipDev = false ∧ name ∉ (data.membersAt "dependencies").map (·.1) ∧
              Manifest.Declares data "devDependencies" name range)) ∧
        ∀ name range, Manifest.Declares data "dependencies" name range → isForeign range = true →
          name ∉ rs.map (·.1) := by
  refine ⟨⟨?_, ?_⟩, ?_⟩
  · rintro ⟨f, hf, -⟩
    exact (Manifest.ofJson_error_iff data).mp ⟨f, hf⟩
  · intro h
    obtain ⟨f, hf⟩ := (Manifest.ofJson_error_iff data).mpr h
    exact ⟨f, hf, rfl⟩
  · intro m hread policy request skipDev p hbuild
    have hm := Manifest.distinct_of_ofJson hdata hread
    have hget : ∀ name, Pairs.get? name ((registryRanges m skipDev).map fun r => (r.1, Json.str r.2)) =
        (Pairs.get? name (registryRanges m skipDev)).map Json.str := fun name => Pairs.get?_map Json.str name _
    have habsent : ∀ name, name ∉ (data.membersAt "dependencies").map (·.1) ↔
        Pairs.get? name m.dependencies = none := by
      intro name
      rw [← Pairs.get?_eq_none_iff, Manifest.get?_dependencies hread, Option.map_eq_none_iff]
    refine ⟨(registryRanges m skipDev).map fun r => (r.1, .str r.2), ?_, ?_, ?_, ?_, ?_⟩
    · rw [member?_requires_toJson, requires_of_build hbuild]
    · exact List.pairwise_map.mpr (pairwise_registryRanges hm skipDev)
    · intro r hr
      obtain ⟨q, -, rfl⟩ := List.mem_map.mp hr
      exact ⟨q.2, rfl⟩
    · intro name range
      rw [hget, Manifest.dependencies_iff hread, Manifest.devDependencies_iff hread, habsent,
        ← get?_registryRanges_iff hm]
      simp
    · intro name range hdeclared hforeign
      rw [← Pairs.get?_eq_none_iff, hget, Option.map_eq_none_iff, get?_registryRanges hm,
        get?_declaredRanges, (Manifest.dependencies_iff hread).mp hdeclared]
      simp [hforeign]

/-- Declarations in which a package has a range outside the registry, and another one for development. -/
def sampleDeclarations : Json :=
  .obj [("dependencies", .obj [("b", .str "file:../b"), ("a", .str "^1.0.0")]),
    ("devDependencies", .obj [("b", .str "^2.0.0"), ("c", .str "*")])]

/-- The package stays out, with all others in their places. -/
theorem requires_exact_sample :
    sampleDeclarations.Distinct ∧ ∃ m p rs, Manifest.ofJson sampleDeclarations = .ok m ∧
      build .flagged (.obj [("dependencies", .obj [])]) m false = .ok p ∧
      p.toJson.member? "requires" = some (.obj rs) ∧ "b" ∉ rs.map (·.1) ∧
      Pairs.get? "a" rs = some (.str "^1.0.0") ∧ Pairs.get? "c" rs = some (.str "*") := by
  have hdistinct : sampleDeclarations.Distinct := by
    have hmain : Json.Distinct (.obj [("b", .str "file:../b"), ("a", .str "^1.0.0")]) := by
      refine .obj (by simp) ?_
      simp [Json.Distinct.str]
    have hdev : Json.Distinct (.obj [("b", .str "^2.0.0"), ("c", .str "*")]) := by
      refine .obj (by simp) ?_
      simp [Json.Distinct.str]
    refine .obj (by simp) ?_
    simp [hmain, hdev]
  obtain ⟨m, hread⟩ : ∃ m, Manifest.ofJson sampleDeclarations = .ok m := ⟨_, rfl⟩
  obtain ⟨p, hbuild⟩ : ∃ p, build .flagged (.obj [("dependencies", .obj [])]) m false = .ok p :=
    ⟨_, build_ok_iff.mpr ⟨[], [], by simp [Json.sorted, Json.sortedMembers, Pairs.sort, topEntries, Pairs.get?],
      rfl, rfl⟩⟩
  obtain ⟨-, hrequires⟩ := requires_exact hdistinct
  obtain ⟨rs, hrs, -, -, hget, hforeign⟩ := hrequires m hread .flagged _ false p hbuild
  refine ⟨hdistinct, m, p, rs, hread, hbuild, hrs, ?_, (hget _ _).mpr ⟨?_, .inl ?_⟩,
    (hget _ _).mpr ⟨?_, .inr ⟨rfl, ?_, ?_⟩⟩⟩
  · exact hforeign "b" "file:../b" rfl (by decide +kernel)
  · decide +kernel
  · rfl
  · decide +kernel
  · decide
  · rfl

end Payload

end LockAudit
