import LockAudit.Proofs.Advisory.Entries
import LockAudit.Proofs.Binary64.Text
import LockAudit.Proofs.Json.Numbers

/-!
# `LockAudit.Proofs.Advisory` — where a score comes from

An advisory keeps the object with its score as it stands in the response and looks at it only when
evidence is made. So a score is read twice, and what the response has there need not be a number at all.

* `cvss_of_describes` — the object stands in the entry that describes the advisory.
* `score_cases` — a score that is not finite is a number of the response.
-/

namespace LockAudit.Advisory

variable {v : Json} {a : Advisory} {as : List Advisory} {members : List (String × Json)} {x : Binary64}

/-- The object with a score is that of the entry. -/
theorem cvss_of_describes (h : Describes v a) (hcvss : a.cvss = some members) :
    ∃ ms, v = .obj ms ∧ Pairs.get? "cvss" ms = some (.obj members) := by
  obtain ⟨ms, rfl, hfields⟩ := h
  have hvalue : SaysMembers (Field.value? .cvss ms) a.cvss := hfields .cvss
  rw [value?_singleton rfl, hcvss] at hvalue
  rcases hvalue with ⟨-, hnone⟩ | ⟨ms', hget, heq⟩
  · cases hnone
  · cases heq
    exact ⟨ms, rfl, hget⟩

theorem exists_describes_of_mem {vs : List Json} (h : List.Forall₂ Describes vs as) (ha : a ∈ as) :
    ∃ v ∈ vs, Describes v a := by
  induction h with
  | nil => cases ha
  | @cons v b vs bs hv _ ih =>
    rcases List.mem_cons.mp ha with rfl | ha
    · exact ⟨v, List.mem_cons_self, hv⟩
    · obtain ⟨w, hw, hdescribes⟩ := ih ha
      exact ⟨w, List.mem_cons_of_mem v hw, hdescribes⟩

/-- The entries of a response stand in it. -/
theorem Holds.hasNumber {response : Json} {vs : List Json} (h : Holds response vs) (hv : v ∈ vs)
    {k : Number} (hk : v.HasNumber k) : response.HasNumber k := by
  cases h with
  | array => exact .item hv hk
  | under hget => exact .member (Pairs.mem_of_get? hget) (.item hv hk)
  | values hget =>
    obtain ⟨p, hp, rfl⟩ := List.mem_map.mp hv
    exact .member (Pairs.mem_of_get? hget) (.member hp hk)

/-- What stands in the object with a score stands in the response. -/
theorem hasNumber_of_listOfJson {response : Json} (h : listOfJson response = .ok as) (ha : a ∈ as)
    (hcvss : a.cvss = some members) {k : Number} (hk : (Json.obj members).HasNumber k) :
    response.HasNumber k := by
  obtain ⟨vs, hholds, has⟩ := listOfJson_ok_iff.mp h
  obtain ⟨v, hv, hdescribes⟩ := exists_describes_of_mem has ha
  obtain ⟨ms, rfl, hget⟩ := cvss_of_describes hdescribes hcvss
  exact hholds.hasNumber hv (.member (Pairs.mem_of_get? hget) hk)

/-- A score is a binary64 value of the entry, or finite: an integer that is too great is refused. -/
theorem scoreOf_cases (h : scoreOf v = .ok (some x)) : v = .num (.float x) ∨ x.isSpecial = false := by
  unfold scoreOf at h
  split at h
  · cases h
    exact .inl rfl
  · next n =>
    split at h
    · next hx =>
      cases h
      unfold Binary64.ofInt? at hx
      dsimp only at hx
      split at hx
      · next hlt =>
        cases hx
        exact .inr (Binary64.isSpecial_ofWord _ hlt)
      · cases hx
    · cases h
  · next b =>
    cases h
    cases b <;> exact .inr (by decide)
  · cases h

/-- **A score that is not finite is a number of the response.** -/
theorem score_cases {response : Json} (h : listOfJson response = .ok as) (ha : a ∈ as)
    (hscore : a.cvssScore = .ok (some x)) : response.HasNumber (.float x) ∨ x.isSpecial = false := by
  unfold cvssScore at hscore
  split at hscore
  · next w hw =>
    obtain ⟨members, hcvss, hget⟩ := Option.bind_eq_some_iff.mp hw
    rcases scoreOf_cases hscore with rfl | hfinite
    · exact .inl (hasNumber_of_listOfJson h ha hcvss (.member (Pairs.mem_of_get? hget) .here))
    · exact .inr hfinite
  · cases hscore

end LockAudit.Advisory
