import LockAudit.Proofs.Mapping
import LockAudit.Proofs.VersionIndex

/-!
# `LockAudit.Proofs.Mapping.Reported` — a mapping as a choice of advisories

What a mapping that nothing ends attaches can be said without the loop: of the advisories those with a
version in their range (`matched`), of these the first for every identifier and package (`firsts`), and an
entry for each.

* `SettleAll.mapM_firsts` — the loop makes entries for these advisories and versions, in their order.
* `attachTo_eq` — mapping onto a record adds what mapping attaches, and nothing else changes.
* `reports_subset` — which identifiers and packages have entries depends neither on the order of advisories
  nor on that in which versions were added to the index.
-/

namespace LockAudit.Mapping

variable {source : String} {ix : VersionIndex} {seen after : List (String × String)} {as : List Advisory}
  {a : Advisory} {es : List Evidence} {v : String}

/-! ## Advisories that match -/

/-- The first version of an advisory's package that lies in its range. -/
def firstVersion? (ix : VersionIndex) (a : Advisory) : Option String :=
  (ix.versions a.moduleName).find? fun v => Range.satisfies v (some a.vulnerableVersions) matches .ok true

/-- The advisories with a version in their range, each with the first such version. -/
def matched (ix : VersionIndex) (as : List Advisory) : List (Advisory × String) :=
  as.filterMap fun a => (firstVersion? ix a).map fun v => (a, v)

/-- The first of those that share their identifier and package. -/
def firsts (l : List (Advisory × String)) : List (Advisory × String) :=
  l.eraseDupsBy fun x y => subject x.1 == subject y.1

/-- The identifier and the package that an entry reports. -/
def reports (e : Evidence) : String × String :=
  (((Pairs.get? "advisory_id" e.metadata).bind Json.str?).getD "", e.moduleName)

theorem firstIn_eq_find? {range : String} {vs : List String} {found : Option String}
    (h : firstIn range vs = .ok found) :
    vs.find? (fun v => Range.satisfies v (some range) matches .ok true) = found := by
  induction vs with
  | nil => exact Except.ok.inj h
  | cons w vs ih =>
    rw [firstIn] at h
    cases hw : Range.satisfies w (some range) with
    | error e =>
      rw [hw] at h
      cases h
    | ok b =>
      rw [hw] at h
      cases b with
      | true => simpa [List.find?_cons, hw] using Except.ok.inj h
      | false => simpa [List.find?_cons, hw] using ih h

theorem matched_cons_of_none (h : matchingVersion ix a = .ok none) (as : List Advisory) :
    matched ix (a :: as) = matched ix as := by
  have hfirst : firstVersion? ix a = none := firstIn_eq_find? h
  simp [matched, hfirst]

theorem matched_cons_of_some (h : matchingVersion ix a = .ok (some v)) (as : List Advisory) :
    matched ix (a :: as) = (a, v) :: matched ix as := by
  have hfirst : firstVersion? ix a = some v := firstIn_eq_find? h
  simp [matched, hfirst]

/-! ## Entries -/

theorem reports_of_evidence {e : Evidence} (h : evidence source a v = .ok e) : reports e = subject a := by
  obtain ⟨hname, -, -, hid⟩ := evidence_ok h
  rw [reports, hid, hname]
  rfl

/-- What is left of the matching advisories when some identifiers and packages have entries. -/
def unseen (seen : List (String × String)) (l : List (Advisory × String)) : List (Advisory × String) :=
  l.filter fun x => !seen.contains (subject x.1)

theorem unseen_nil (l : List (Advisory × String)) : unseen [] l = l :=
  List.filter_eq_self.mpr fun x _ => by simp

theorem firsts_unseen_cons (hs : subject a ∉ seen) (v : String) (l : List (Advisory × String)) :
    firsts (unseen seen ((a, v) :: l)) = (a, v) :: firsts (unseen (subject a :: seen) l) := by
  have hrest : (unseen seen l).filter (fun x => (subject x.1 == subject a) = false) =
      unseen (subject a :: seen) l := by
    rw [unseen, List.filter_filter]
    refine List.filter_congr fun x _ => ?_
    simp
  rw [unseen, List.filter_cons_of_pos (by simpa using hs), firsts, List.eraseDupsBy_cons]
  exact congrArg (fun l => (a, v) :: firsts l) hrest

/-- **The loop makes entries for the first matching advisories.** -/
theorem SettleAll.mapM_firsts (h : SettleAll source ix seen as es after) :
    (firsts (unseen seen (matched ix as))).mapM (fun x => evidence source x.1 x.2) = .ok es := by
  induction h with
  | nil => rfl
  | @cons seen a es between as fs after hsettles _ ih =>
    cases hsettles with
    | off hm =>
      rw [matched_cons_of_none hm]
      exact ih
    | again hm hs =>
      rw [matched_cons_of_some hm, unseen, List.filter_cons_of_neg (by simpa using hs)]
      exact ih
    | entry hm hs he =>
      rw [matched_cons_of_some hm, firsts_unseen_cons hs, List.mapM_cons, he, ih]
      rfl

/-- What is made of advisories and versions, all together, is made of each of them. -/
theorem forall₂_of_mapM {l : List (Advisory × String)}
    (h : l.mapM (fun x => evidence source x.1 x.2) = .ok es) :
    List.Forall₂ (fun x e => evidence source x.1 x.2 = .ok e) l es := by
  induction l generalizing es with
  | nil =>
    cases h
    exact .nil
  | cons x l ih =>
    rw [List.mapM_cons] at h
    cases hx : evidence source x.1 x.2 with
    | error m =>
      rw [hx] at h
      cases h
    | ok e =>
      rw [hx] at h
      cases hl : l.mapM (fun x => evidence source x.1 x.2) with
      | error m =>
        rw [hl] at h
        cases h
      | ok fs =>
        rw [hl] at h
        cases h
        exact .cons hx (ih hl)

/-- Each entry names the package of its advisory and the version that it was made for. -/
theorem map_versions {l : List (Advisory × String)}
    (h : List.Forall₂ (fun x e => evidence source x.1 x.2 = .ok e) l es) :
    es.map (fun e => (e.moduleName, e.resolvedVersion)) = l.map (fun x => (x.1.moduleName, x.2)) := by
  induction h with
  | nil => rfl
  | cons he _ ih =>
    obtain ⟨hname, hversion, -, -⟩ := evidence_ok he
    rw [List.map_cons, List.map_cons, ih, hname, hversion]

/-- Entries report the identifiers and packages of the matching advisories, each of them once. -/
theorem SettleAll.map_reports (h : SettleAll source ix seen as es after) :
    es.map reports = (((matched ix as).map fun x => subject x.1).filter (· ∉ seen)).eraseDups := by
  induction h with
  | nil => rfl
  | @cons seen a es between as fs after hsettles _ ih =>
    cases hsettles with
    | off hm =>
      rw [matched_cons_of_none hm]
      exact ih
    | again hm hs =>
      rw [matched_cons_of_some hm, List.map_cons, List.filter_cons_of_neg (by simpa using hs)]
      exact ih
    | entry hm hs he =>
      rw [matched_cons_of_some hm, List.map_cons, List.filter_cons_of_pos (by simpa using hs),
        List.eraseDups_cons, List.filter_filter, List.singleton_append, List.map_cons, reports_of_evidence he, ih]
      congr 2
      refine List.filter_congr fun x _ => ?_
      by_cases hx : x = subject a
      · simp [hx]
      · simp [hx]

/-! ## Records -/

/-- **Mapping onto a record adds what it reports**, and changes nothing else. -/
theorem attachTo_eq (r : Record) (seen : List (String × String)) (as : List Advisory) :
    attachTo source ix r seen as =
      ({ r with evidence := r.evidence ++ (attach source ix seen as).attached }, attach source ix seen as) := by
  refine Prod.ext ?_ (attachTo_snd r seen as)
  induction as generalizing r seen with
  | nil => simp [attachTo]
  | cons a as ih =>
    rw [attachTo, attach_cons]
    cases matchingVersion ix a with
    | error e => simp
    | ok found =>
      cases found with
      | none => exact ih r seen
      | some v =>
        by_cases hs : seen.contains (a.id, a.moduleName) = true
        · simp only [if_pos hs]
          exact ih r seen
        · simp only [if_neg hs]
          cases evidence source a v with
          | error m => simp
          | ok e => simp [ih, Record.add]

/-! ## Orders -/

/-- Everything that was attached comes from an advisory and a version in its range, also if something ended
    the mapping. -/
theorem exists_of_mem_attached {e : Evidence} (he : e ∈ (apply source ix as).attached) :
    ∃ a ∈ as, ∃ v ∈ ix.versions a.moduleName,
      Range.satisfies v (some a.vulnerableVersions) = .ok true ∧ reports e = subject a := by
  cases hended : (apply source ix as).ended with
  | none =>
    obtain ⟨a, ha, v, hv, hsat, hev⟩ := mem_attached hended he
    exact ⟨a, ha, v, hv, hsat, reports_of_evidence hev⟩
  | some m =>
    obtain ⟨before, b, rest, rfl, hnone, -, hattached⟩ := attached_of_ended hended
    rw [hattached] at he
    obtain ⟨a, ha, v, hv, hsat, hev⟩ := mem_attached hnone he
    exact ⟨a, List.mem_append_left _ ha, v, hv, hsat, reports_of_evidence hev⟩

/-- **The order of advisories and versions does not matter for what is reported.** A mapping that nothing ends
    reports all that any other mapping of the same advisories and versions reports. -/
theorem reports_subset (h : (apply source ix as).ended = none) {ix' : VersionIndex} {as' : List Advisory}
    (has : as' ⊆ as) (hix : ∀ name, ix'.versions name ⊆ ix.versions name) :
    (apply source ix' as').attached.map reports ⊆ (apply source ix as).attached.map reports := by
  intro k hk
  obtain ⟨e, he, rfl⟩ := List.mem_map.mp hk
  obtain ⟨a, ha, v, hv, hsat, hreports⟩ := exists_of_mem_attached he
  obtain ⟨e', he', hid, hname⟩ := attached_of_matches h (has ha) (hix _ hv) hsat
  refine List.mem_map.mpr ⟨e', he', ?_⟩
  rw [hreports, reports, hid, hname]
  rfl

/-- Versions that are added in another order are the same versions. -/
theorem versions_subset_of_perm {adds adds' : List (String × String)} (h : adds'.Perm adds) (name : String) :
    (VersionIndex.empty.addAll adds').versions name ⊆ (VersionIndex.empty.addAll adds).versions name := by
  intro v hv
  rw [VersionIndex.versions_addAll, List.mem_eraseDups] at hv ⊢
  exact ((h.filter _).map _).subset hv

/-! ## Mappings that are not ended -/

/-- An advisory about the package `a`. -/
def advisoryFor (id range : String) : Advisory :=
  ⟨id, "a", range, "low", none, none, none, none, none, none, [], [], none⟩

/-- Two versions of a package. -/
def sampleAdditions : List (String × String) := [("a", "1.0.0"), ("a", "2.0.0")]

/-- Three advisories with one identifier. The range of the first has neither of these versions. -/
def sampleAdvisories : List Advisory :=
  [advisoryFor "1" ">=3.0.0", advisoryFor "1" ">=2.0.0", advisoryFor "1" "*"]

/-- A record without evidence. -/
def sampleRecord : Record := { path := .ofString "/w/yarn.lock", displayName := "w" }

end LockAudit.Mapping
