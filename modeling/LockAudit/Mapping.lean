import LockAudit.Advisory
import LockAudit.Evidence
import LockAudit.Range
import LockAudit.VersionIndex

/-!
# `LockAudit.Mapping` — from advisories to evidence

An advisory becomes evidence when one of the versions at which the dependency tree holds its package
lies in its range: the first such version stands in the entry. Of advisories with one identifier and
one package the first that matches counts.

A range with a number that is too long, or a score beyond all values, ends the mapping; what was
attached before it stays attached (`Attachment`).

## Contents
- **One advisory.** `matchingVersion`, `evidence`.
- **All advisories.** `attachTo` and `applyTo`, which add to a record and report what they added; `attach`
  and `apply`, what they report.
-/

namespace LockAudit.Mapping

/-- Who reports the evidence, unless something else is said. -/
def defaultSource : String := "yarn-audit"

/-! ## One advisory -/

/-- The first version in a range. -/
def firstIn (range : String) : List String → Except Numeral.Refusal (Option String)
  | [] => .ok none
  | v :: vs =>
    match Range.satisfies v (some range) with
    | .error e => .error e
    | .ok true => .ok (some v)
    | .ok false => firstIn range vs

/-- The first resolved version that an advisory is about. -/
def matchingVersion (ix : VersionIndex) (a : Advisory) : Except Numeral.Refusal (Option String) :=
  firstIn a.vulnerableVersions (ix.versions a.moduleName)

/-- A text, or null. -/
def orNull : Option String → Json
  | some s => .str s
  | none => .null

/-- The entry for an advisory and a version. -/
def evidence (source : String) (a : Advisory) (version : String) : Except Mishap Evidence :=
  match a.cvssScore with
  | .error m => .error m
  | .ok score => .ok {
      name := a.displayName
      source := source
      moduleName := a.moduleName
      resolvedVersion := version
      vulnerableVersions := a.vulnerableVersions
      severity := .ofName a.severity
      identifiers := a.identifiers
      patchedVersions := a.patchedVersions
      title := a.title
      description := a.overview
      recommendation := a.recommendation
      url := a.url
      metadata := [
        ("advisory_id", .str a.id),
        ("cwe", .arr (a.cwe.map .str)),
        ("cvss_score", (score.map fun x => Json.num (.float x)).getD .null),
        ("cvss_vector", orNull a.cvssVector)] }

/-! ## All advisories -/

/-- What a mapping attached, and what ended it, if something did. -/
structure Attachment where
  attached : List Evidence
  ended : Option Mishap

/-- Maps advisories in order, and adds every entry to a record as soon as it is made; `seen` are the
    identifiers and packages that have an entry. -/
def attachTo (source : String) (ix : VersionIndex) :
    Record → List (String × String) → List Advisory → Record × Attachment
  | r, _, [] => (r, ⟨[], none⟩)
  | r, seen, a :: as =>
    match matchingVersion ix a with
    | .error e => (r, ⟨[], some (.numeral e)⟩)
    | .ok none => attachTo source ix r seen as
    | .ok (some v) =>
      if seen.contains (a.id, a.moduleName) then attachTo source ix r seen as
      else
        match evidence source a v with
        | .error m => (r, ⟨[], some m⟩)
        | .ok e =>
          let rest := attachTo source ix (r.add e) ((a.id, a.moduleName) :: seen) as
          (rest.1, ⟨e :: rest.2.attached, rest.2.ended⟩)

/-- Maps advisories onto a record. -/
def applyTo (source : String) (ix : VersionIndex) (r : Record) (as : List Advisory) : Record × Attachment :=
  attachTo source ix r [] as

/-- What a mapping attaches to a record, which does not depend on the record (`attachTo_snd`). -/
def attach (source : String) (ix : VersionIndex) (seen : List (String × String)) (as : List Advisory) :
    Attachment :=
  (attachTo source ix ⟨⟨⟨"", []⟩, ""⟩, []⟩ seen as).2

/-- What mapping advisories attaches. -/
def apply (source : String) (ix : VersionIndex) (as : List Advisory) : Attachment :=
  attach source ix [] as

variable {source : String} {ix : VersionIndex}

theorem attachTo_snd (r : Record) (seen : List (String × String)) (as : List Advisory) :
    (attachTo source ix r seen as).2 = attach source ix seen as := by
  -- The loop goes on with a longer record, so this is about any two records.
  suffices h : ∀ r s : Record, (attachTo source ix r seen as).2 = (attachTo source ix s seen as).2 from
    h r _
  induction as generalizing seen with
  | nil => exact fun _ _ => rfl
  | cons a as ih =>
    intro r s
    rw [attachTo, attachTo]
    cases matchingVersion ix a with
    | error e => rfl
    | ok found =>
      cases found with
      | none => exact ih seen r s
      | some v =>
        by_cases hs : seen.contains (a.id, a.moduleName) = true
        · simp only [if_pos hs]
          exact ih seen r s
        · simp only [if_neg hs]
          cases evidence source a v with
          | error m => rfl
          | ok e => simp only [ih ((a.id, a.moduleName) :: seen) (r.add e) (s.add e)]

@[simp] theorem attach_nil (seen : List (String × String)) : attach source ix seen [] = ⟨[], none⟩ := rfl

/-- What is attached for one more advisory in front. -/
theorem attach_cons (seen : List (String × String)) (a : Advisory) (as : List Advisory) :
    attach source ix seen (a :: as) =
      match matchingVersion ix a with
      | .error e => ⟨[], some (.numeral e)⟩
      | .ok none => attach source ix seen as
      | .ok (some v) =>
        if seen.contains (a.id, a.moduleName) then attach source ix seen as
        else
          match evidence source a v with
          | .error m => ⟨[], some m⟩
          | .ok e =>
            let rest := attach source ix ((a.id, a.moduleName) :: seen) as
            ⟨e :: rest.attached, rest.ended⟩ := by
  rw [attach, attachTo]
  cases matchingVersion ix a with
  | error e => rfl
  | ok found =>
    cases found with
    | none => rfl
    | some v =>
      by_cases hs : seen.contains (a.id, a.moduleName) = true
      · simp only [if_pos hs]
        rfl
      · simp only [if_neg hs]
        cases evidence source a v with
        | error m => rfl
        | ok e => simp only [attachTo_snd]

end LockAudit.Mapping
