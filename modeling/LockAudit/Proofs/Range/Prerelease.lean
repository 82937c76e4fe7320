import LockAudit.Proofs.Range.Comparison
import LockAudit.Proofs.Version.Prerelease

/-!
# `LockAudit.Proofs.Range.Prerelease` — prereleases and their release

A prerelease should be in the range below its release, and not in the range from the release on. It is,
unless its text is read as a revision; then it is the other way round.

* `prerelease_less_iff` — both ranges, for every prerelease that is a version.
* `post_not_less` — one that is read as a revision.
-/

namespace LockAudit.Range

open LockAudit.Text Version Spelled

variable {v : Semantic}

/-- The place of a prerelease in the order, beside its release. -/
theorem order_core (hpre : v.prerelease ≠ []) (hrun : ¬ HasLongRun v.text) (haccepted : v.Accepted) :
    ∃ x y, v.reading = .ok x ∧ v.core.reading = .ok y ∧
      (ReadsAsRevision (points v.prerelease) → x.order y = .gt) ∧
      (¬ ReadsAsRevision (points v.prerelease) → x.order y = .lt) := by
  obtain ⟨x, hx⟩ := Semantic.accepted_iff.mp haccepted
  obtain ⟨⟨hepoch, hrelease⟩, hiff, hmarked⟩ := Semantic.isRevision_iff hpre hrun hx
  refine ⟨x, _, hx, Semantic.core_reading hrun, fun hreads => ?_, fun hreads => ?_⟩
  · rw [← hrelease]
    exact order_of_isRevision hepoch (hiff.mpr hreads)
  · rw [← hiff] at hreads
    rw [← hrelease]
    refine order_of_not_isRevision hepoch hreads ?_
    -- A revision that is none of its release has a phase.
    rcases hmarked with hphase | hrevision | hdevelopment
    · exact .inl hphase
    · refine .inl (Option.isSome_iff_ne_none.mpr fun hnone => hreads ⟨hnone, hrevision⟩)
    · exact .inr hdevelopment

/-- **When a prerelease comes before its release.** A prerelease that is a version is below its release, and
    not from it on, exactly if its text is not read as a revision. If it is, it is not below its release,
    and in the range from it on. -/
theorem prerelease_less_iff (hpre : v.prerelease ≠ []) (hrun : ¬ HasLongRun v.text)
    (haccepted : v.Accepted) :
    (holds v .less v.core = .ok true ∧ holds v .greaterEqual v.core = .ok false ↔
      ¬ ReadsAsRevision (points v.prerelease)) ∧
    (ReadsAsRevision (points v.prerelease) →
      holds v .less v.core = .ok false ∧ holds v .greaterEqual v.core = .ok true) := by
  obtain ⟨x, y, hx, hy, hafter, hbefore⟩ := order_core hpre hrun haccepted
  have hcore : ¬ HasLongRun v.core.text := fun h => hrun (h.mono v.core_text_prefix.isInfix)
  have hless : holds v .less v.core = .ok (Relation.lt.holds (x.order y)) :=
    holds_of_reading rfl hcore hx hy
  have hfrom : holds v .greaterEqual v.core = .ok (Relation.ge.holds (x.order y)) :=
    holds_of_reading rfl hcore hx hy
  have hreads : ReadsAsRevision (points v.prerelease) →
      holds v .less v.core = .ok false ∧ holds v .greaterEqual v.core = .ok true := by
    intro hreads
    rw [hless, hfrom, hafter hreads]
    exact ⟨rfl, rfl⟩
  refine ⟨⟨fun ⟨htrue, _⟩ h => ?_, fun h => ?_⟩, hreads⟩
  · rw [(hreads h).1] at htrue
    cases htrue
  · rw [hless, hfrom, hbefore h]
    exact ⟨rfl, rfl⟩

/-- The first alpha of a release comes before it. -/
theorem alpha_prerelease_less : alpha.prerelease ≠ [] ∧ ¬ HasLongRun alpha.text ∧ alpha.Accepted ∧
    ¬ ReadsAsRevision (points alpha.prerelease) ∧
    holds alpha .less alpha.core = .ok true ∧ holds alpha .greaterEqual alpha.core = .ok false := by
  have hrun : ¬ HasLongRun alpha.text := not_hasLongRun_of_length (by decide)
  have haccepted : alpha.Accepted := by decide +kernel
  have hreads : ¬ ReadsAsRevision (points alpha.prerelease) := by
    rintro (h | ⟨h, -⟩ | ⟨⟨c, hc, hdigit⟩, -⟩)
    · exact absurd h (by decide)
    · exact absurd h (by decide)
    · cases hc
      cases hdigit
  exact ⟨by decide, hrun, haccepted, hreads, (prerelease_less_iff (by decide) hrun haccepted).1.mpr hreads⟩

/-- A prerelease of the sample release, whose text is a word for a revision. -/
def post : Semantic :=
  { release with prerelease := [['p', 'o', 's', 't']], prerelease_identifiers := by decide }

/-- It is a version, and it comes after its release. -/
theorem post_not_less : (String.ofList post.text, String.ofList post.core.text) = ("1.0.0-post", "1.0.0") ∧
    post.prerelease ≠ [] ∧ ¬ HasLongRun post.text ∧ post.Accepted ∧
    ¬ (holds post .less post.core = .ok true ∧ holds post .greaterEqual post.core = .ok false) ∧
    holds post .less post.core = .ok false ∧ holds post .greaterEqual post.core = .ok true := by
  have haccepted : post.Accepted := by decide +kernel
  have hless : holds post .less post.core = .ok false := eq_ok_of_toOption (by decide +kernel)
  have hfrom : holds post .greaterEqual post.core = .ok true := eq_ok_of_toOption (by decide +kernel)
  refine ⟨by decide, by decide, not_hasLongRun_of_length (by decide), haccepted, ?_, hless, hfrom⟩
  rintro ⟨htrue, -⟩
  rw [hless] at htrue
  cases htrue

end LockAudit.Range
