import LockAudit.AuditRequest
import LockAudit.Proofs.Json.Reading
import LockAudit.Proofs.Payload.Pruning

/-!
# `LockAudit.Proofs.Payload.Reordering` — payloads and the order of members

A request and a manifest are objects, and the order in which an object lists its members carries no
meaning. Nothing that is made of them shows that order:

* `Manifest.distinct_of_read`, `AuditRequest.distinct_of_extract` — what an analysis reads lists no name
  twice in one object.
* `registryRanges_of_sameAs`, `isDevOnly_of_sameAs` — what is taken from a manifest is the same for all
  orders of its sections.
* `build_of_reordered` — so is the outcome of building a payload, whether this is a fault or a payload.
* `build_ignores_order` — in terms of what is sent and compared later: one message, or one text and one
  list of versions for each name.
-/

namespace LockAudit

/-! ## Manifests -/

namespace Manifest

/-- No section of a manifest declares a package twice. -/
structure Distinct (m : Manifest) : Prop where
  dependencies : (m.dependencies.map (·.1)).Nodup
  devDependencies : (m.devDependencies.map (·.1)).Nodup

/-- Two manifests declare the same. Their sections may list the packages in different orders. -/
structure SameAs (m m' : Manifest) : Prop where
  name : m.name = m'.name
  version : m.version = m'.version
  dependencies : m.dependencies.Perm m'.dependencies
  devDependencies : m.devDependencies.Perm m'.devDependencies

/-- A section declares the packages that its object has as members. -/
theorem names_ranges {key : String} {ms : List (String × Json)} {rs : List (String × String)}
    (h : ranges key ms = .ok rs) : rs.map (·.1) = ms.map (·.1) := by
  induction ms generalizing rs with
  | nil =>
    rw [ranges] at h
    rw [← Except.ok.inj h]
    rfl
  | cons p ms ih =>
    obtain ⟨name, v⟩ := p
    cases v with
    | str range =>
      rw [ranges] at h
      obtain ⟨rest, hrest, h⟩ := exists_of_bind_ok h
      rw [← (Except.ok.inj h : (name, range) :: rest = rs), List.map_cons, List.map_cons, ih hrest]
    | _ =>
      unfold ranges at h
      cases h

theorem nodup_readSection {key : String} {v : Option Json} (hv : ∀ w, v = some w → w.Distinct)
    {rs : List (String × String)} (h : readSection key v = .ok rs) : (rs.map (·.1)).Nodup := by
  have hnil : ∀ {rs : List (String × String)}, Except.ok (ε := Fault) [] = .ok rs →
      (rs.map (·.1)).Nodup := by
    intro rs h
    rw [← Except.ok.inj h]
    exact List.nodup_nil
  unfold readSection at h
  split at h
  · exact hnil h
  · next w =>
    split at h
    · split at h
      · next ms _ =>
        cases hv _ rfl with
        | obj hnames _ => rwa [names_ranges h]
      · cases h
    · exact hnil h

/-- What is read from a value declares each package once. -/
theorem distinct_of_ofJson {v : Json} (hv : v.Distinct) {m : Manifest} (h : ofJson v = .ok m) :
    m.Distinct := by
  cases hv with
  | @obj ms hnames hms =>
    have hget : ∀ key w, Pairs.get? key ms = some w → w.Distinct :=
      fun key w hw => hms (key, w) (Pairs.mem_of_get? hw)
    unfold ofJson at h
    obtain ⟨dependencies, hd, h⟩ := exists_of_bind_ok h
    obtain ⟨devDependencies, hdd, h⟩ := exists_of_bind_ok h
    rw [← Except.ok.inj h]
    exact ⟨nodup_readSection (hget _) hd, nodup_readSection (hget _) hdd⟩
  | _ => simp [ofJson] at h

/-- Every manifest that is read declares each package once. -/
theorem distinct_of_read {files : FileTree} {path : Path} {m : Manifest} (h : read files path = .ok m) :
    m.Distinct := by
  unfold read at h
  obtain ⟨text, -, h⟩ := exists_of_bind_ok h
  split at h
  · cases h
  · cases h
  · next v hv =>
    split at h
    · next m' hm =>
      cases h
      exact distinct_of_ofJson (Json.distinct_of_parse hv) hm
    · cases h

end Manifest

/-! ## Requests -/

namespace AuditRequest

theorem distinct_of_request {body : String} {v : Json} (h : request body = .ok v) : v.Distinct := by
  unfold request at h
  obtain ⟨w, hw, h⟩ := exists_of_bind_ok h
  have hdistinct : w.Distinct := by
    unfold readJson at hw
    split at hw
    · next hp =>
      rw [← Except.ok.inj hw]
      exact Json.distinct_of_parse hp
    · cases hw
    · cases hw
  split at h
  · rw [← Except.ok.inj h]
    exact hdistinct
  · cases h

/-- Every request that is extracted has distinct names in each object. -/
theorem distinct_of_extract {stdout stderr source : String} {v : Json}
    (h : (extract stdout stderr source).result = .ok v) : v.Distinct := by
  unfold extract at h
  dsimp only at h
  split at h
  · cases h
  · split at h
    · cases h
    · split at h
      · cases h
      · exact distinct_of_request h

end AuditRequest

namespace Payload

variable {m m' : Manifest}

theorem isDevOnly_of_sameAs (hm : m.Distinct) (hs : m.SameAs m') (name : String) :
    isDevOnly m name = isDevOnly m' name := by
  rw [isDevOnly, isDevOnly, Pairs.get?_of_perm hs.dependencies hm.dependencies,
    Pairs.get?_of_perm hs.devDependencies hm.devDependencies]

theorem declaredRanges_of_sameAs (hm : m.Distinct) (hs : m.SameAs m') (skipDev : Bool) :
    (declaredRanges m skipDev).Perm (declaredRanges m' skipDev) := by
  unfold declaredRanges
  split
  · exact hs.dependencies
  · have hkeep : (fun p : String × String => (Pairs.get? p.1 m.dependencies).isNone) =
        fun p => (Pairs.get? p.1 m'.dependencies).isNone := by
      funext p
      rw [Pairs.get?_of_perm hs.dependencies hm.dependencies]
    rw [hkeep]
    exact hs.dependencies.append (hs.devDependencies.filter _)

/-- A package that both sections declare is listed once. -/
theorem nodup_declaredRanges (hm : m.Distinct) (skipDev : Bool) :
    ((declaredRanges m skipDev).map (·.1)).Nodup := by
  unfold declaredRanges
  split
  · exact hm.dependencies
  · rw [List.map_append, List.nodup_append]
    refine ⟨hm.dependencies, hm.devDependencies.sublist (List.filter_sublist.map _), ?_⟩
    intro a ha b hb hab
    obtain ⟨p, hp, rfl⟩ := List.mem_map.mp hb
    have hnone := (List.mem_filter.mp hp).2
    rw [hab, ← Pairs.isSome_get?_iff] at ha
    rw [Option.isNone_iff_eq_none] at hnone
    rw [hnone] at ha
    cases ha

theorem nodup_registered (hm : m.Distinct) (skipDev : Bool) :
    (((declaredRanges m skipDev).filter fun r => !isForeign r.2).map (·.1)).Nodup :=
  (nodup_declaredRanges hm skipDev).sublist (List.filter_sublist.map _)

theorem registryRanges_of_sameAs (hm : m.Distinct) (hs : m.SameAs m') (skipDev : Bool) :
    registryRanges m skipDev = registryRanges m' skipDev :=
  Pairs.sort_eq_of_perm ((declaredRanges_of_sameAs hm hs skipDev).filter _) (nodup_registered hm skipDev)

/-! ## Building -/

variable {request request' : Json}

/-- **Building sees no order.** -/
theorem build_of_reordered (hr : request.Distinct) (he : request.equal request' = true)
    (hm : m.Distinct) (hs : m.SameAs m') (policy : DevPolicy) (skipDev : Bool) :
    build policy request m skipDev = build policy request' m' skipDev := by
  have hdev : isDevOnly m = isDevOnly m' := funext (isDevOnly_of_sameAs hm hs)
  unfold build
  rw [Json.sorted_eq_of_equal hr he, hdev, registryRanges_of_sameAs hm hs, hs.name, hs.version]

/-- **A payload does not depend on the order of members.** Of two requests that are equal and two
    manifests that declare the same, either both have the same fault, or both give payloads. Then the
    texts are the same, and so are the versions that the indices list for each name, in their order. -/
theorem build_ignores_order (hr : request.Distinct) (he : request.equal request' = true)
    (hm : m.Distinct) (hs : m.SameAs m') (policy : DevPolicy) (skipDev : Bool) :
    (∃ f f', build policy request m skipDev = .error f ∧ build policy request' m' skipDev = .error f' ∧
      f.trouble = f'.trouble ∧ f.message = f'.message) ∨
    ∃ p p', build policy request m skipDev = .ok p ∧ build policy request' m' skipDev = .ok p' ∧
      p.text = p'.text ∧
      ∀ name, p.index.versions name = p'.index.versions name ∧
        p.index.first? name = p'.index.first? name := by
  have hsame := build_of_reordered hr he hm hs policy skipDev
  cases hb : build policy request m skipDev with
  | error f =>
    left
    exact ⟨f, f, rfl, hsame ▸ hb, rfl, rfl⟩
  | ok p =>
    right
    exact ⟨p, p, rfl, hsame ▸ hb, rfl, fun name => ⟨rfl, rfl⟩⟩

/-- The sample request with the members of each object the other way around. -/
def reversedRequest : Json :=
  .obj [("dependencies", .obj
    [("c", .obj [("version", .str "4.0.0")]),
      ("b", .obj [("version", .str "3.0.0"), ("dev", .bool true)]),
      ("a", .obj [("version", .str "1.0.0"),
        ("dependencies", .obj [("b", .obj [("version", .str "2.0.0"), ("dev", .bool true)])])])])]

theorem distinct_sampleRequest : sampleRequest.Distinct := by
  have hmarked : ∀ v, Json.Distinct (.obj [("dev", .bool true), ("version", .str v)]) := by
    intro v
    refine .obj (by simp) ?_
    simp [Json.Distinct.bool, Json.Distinct.str]
  have hplain : Json.Distinct (.obj [("version", .str "4.0.0")]) := by
    refine .obj (by simp) ?_
    simp [Json.Distinct.str]
  have hbelow : Json.Distinct (.obj [("b", .obj [("dev", .bool true), ("version", .str "2.0.0")])]) := by
    refine .obj (by simp) ?_
    simp [hmarked]
  have habove : Json.Distinct (.obj [("dependencies",
      .obj [("b", .obj [("dev", .bool true), ("version", .str "2.0.0")])]), ("version", .str "1.0.0")]) := by
    refine .obj (by simp) ?_
    simp [hbelow, Json.Distinct.str]
  have hentries : Json.Distinct (.obj sampleEntries) := by
    refine .obj (by simp [sampleEntries]) ?_
    simp [sampleEntries, habove, hmarked, hplain]
  refine .obj (by simp) ?_
  simpa using hentries

/-- The sample and its reversal are built alike: of the versions of one package, the one that stands
    deeper in the tree but comes first by name is listed first for both. -/
theorem build_ignores_order_sample :
    ∃ p p', build .flagged sampleRequest sampleManifest false = .ok p ∧
      build .flagged reversedRequest ⟨none, none, [("a", "^1.0.0")], [("c", "*"), ("a", "*")]⟩ false =
        .ok p' ∧
      p.text = p'.text ∧ p.index.versions "b" = ["2.0.0", "3.0.0"] ∧
      p'.index.versions "b" = ["2.0.0", "3.0.0"] := by
  have hbuild : build .flagged sampleRequest sampleManifest false =
      .ok ⟨none, none, registryRanges sampleManifest false, sampleNodes, false⟩ := by
    refine build_ok_iff.mpr ⟨sampleEntries, sampleNodes, ?_, rfl, rfl⟩
    rw [sorted_sampleRequest]
    rfl
  have hsame : sampleManifest.SameAs ⟨none, none, [("a", "^1.0.0")], [("c", "*"), ("a", "*")]⟩ :=
    ⟨rfl, rfl, .refl _, .swap ..⟩
  have hdistinct : sampleManifest.Distinct := ⟨by decide, by decide⟩
  have hequal : sampleRequest.equal reversedRequest = true := by decide +kernel
  rcases build_ignores_order distinct_sampleRequest hequal hdistinct hsame .flagged false with
    ⟨f, f', hf, -⟩ | ⟨p, p', hp, hp', htext, hversions⟩
  · rw [hbuild] at hf
    cases hf
  · have hlisted : p.index.versions "b" = ["2.0.0", "3.0.0"] := by
      rw [hbuild] at hp
      rw [← Except.ok.inj hp]
      decide +kernel
    exact ⟨p, p', hp, hp', htext, hlisted, (hversions "b").1 ▸ hlisted⟩

end Payload

end LockAudit
