import LockAudit.Proofs.Session.Evidence

/-!
# `LockAudit.Proofs.Session.Records` — what a failed analysis leaves on a record

An analysis that does not succeed reports no evidence. On the record it leaves none either, with one
exception: a mapping attaches entries as it goes, and when it breaks off, those of the advisories before
stay (`Mapping.BreaksOff`).

* `analyze_attached_ne_nil_iff` — an analysis that does not succeed attaches something exactly in that
  case, and then it is a failure of the mapping that reports nothing.
* `records_unchanged_iff` — so it is in every run.
* `records_changed_by_failure` — the exception does occur.
-/

namespace LockAudit

namespace Analysis

variable {s : Settings} {host : Host} {files : FileTree} {l : Lockfile}

/-- An analysis comes to a mapping that breaks off. -/
def LeavesEntries (s : Settings) (host : Host) (files : FileTree) (state : Lifecycle.State)
    (l : Lockfile) : Prop :=
  state = .enabled ∧ shouldProcess files l.path = true ∧
    ∃ sub : Submission s host files l,
      Mapping.BreaksOff Mapping.defaultSource sub.payload.index sub.advisories

/-- A mapping that is ended fails the analysis, which then reports no evidence. -/
theorem analyze_of_ended (hp : shouldProcess files l.path = true) (sub : Submission s host files l)
    {m : Mishap} (hm : sub.mapped.ended = some m) :
    analyze s host files .enabled l =
      ⟨.ok ⟨l, .failed, [], some ⟨.unexpected, .mapping, l.displayName, m.message⟩, noTime⟩,
        sub.mapped.attached, .enabled, sub.left,
        ⟨[auditLaunch s l.path.parent], [s.client.post sub.payload.text],
          [⟨.error, name ++ " failed unexpectedly on " ++ l.path.toString⟩]⟩⟩ := by
  have hrun := run_of_submission sub
  have hh : (run s host files l.path).halt = some ⟨.mapping, .mishap m⟩ := by
    rw [hrun, hm]
    rfl
  rw [analyze_of_halted hp hh, hrun]
  rfl

/-- **When an analysis that does not succeed attaches something.** -/
theorem analyze_attached_ne_nil_iff {state : Lifecycle.State}
    (h : ∀ r, (analyze s host files state l).result = .ok r → r.status ≠ .analyzed) :
    (analyze s host files state l).attached ≠ [] ↔ LeavesEntries s host files state l := by
  constructor
  · intro hne
    rcases analyze_cases s host files state l with ⟨rfl, hp⟩ | ⟨hnil, -⟩
    · refine ⟨rfl, hp, ?_⟩
      cases hh : (run s host files l.path).halt with
      | none =>
        rw [analyze_of_finished hp hh] at h
        exact absurd rfl (h _ rfl)
      | some halt =>
        -- Only the mapping attaches, so a run that does not come to it attaches nothing.
        rw [analyze_of_halted hp hh] at hne
        rcases run_cases s host files l with ⟨⟨sub⟩⟩ | ⟨-, hnil⟩
        · have hrun := run_of_submission sub
          rw [hrun] at hne hh
          refine ⟨sub, Mapping.breaksOff_iff.mpr ⟨?_, hne⟩⟩
          intro hnone
          rw [Submission.mapped, hnone] at hh
          cases hh
        · exact absurd hnil hne
    · exact absurd hnil hne
  · rintro ⟨rfl, hp, sub, hbreaks⟩
    obtain ⟨hended, hne⟩ := Mapping.breaksOff_iff.mp hbreaks
    obtain ⟨m, hm⟩ := Option.ne_none_iff_exists'.mp hended
    rw [analyze_of_ended hp sub hm]
    exact hne

end Analysis

namespace Session

open Analysis (Submission LeavesEntries)

theorem attach_eq_self_iff {record : Nat} {es : List Evidence} {evidence : Nat → List Evidence} :
    attach record es evidence = evidence ↔ es = [] := by
  constructor
  · intro h
    have hself := congrFun h record
    rw [attach_self] at hself
    exact List.append_right_eq_self.mp hself
  · rintro rfl
    exact attach_nil record evidence

/-- **When a failed analysis leaves the records as they were.** A mapping that is ended has attached
    nothing exactly if it does not break off. In every run, an analysis that does not succeed leaves the
    records as they were exactly if it does not come to a mapping that breaks off. Otherwise what the
    advisories before the failing one had given stays on the record, and the answer is a failure of the
    mapping that reports no evidence. -/
theorem records_unchanged_iff (s : Settings) (x : Session) (steps : List Step) :
    (∀ source ix as, (Mapping.apply source ix as).ended ≠ none →
      ((Mapping.apply source ix as).attached = [] ↔ ¬ Mapping.BreaksOff source ix as)) ∧
    ∀ e ∈ events s x steps, ∀ record l, e.step.request = .analyze record l →
      e.answer.finished? = none →
      (e.after.evidence = e.before.evidence ↔
        ¬ LeavesEntries s e.step.host e.step.files e.before.state l) ∧
      (LeavesEntries s e.step.host e.step.files e.before.state l →
        ∃ (sub : Submission s e.step.host e.step.files l) (m : String),
          e.after.evidence = attach record sub.mapped.attached e.before.evidence ∧
          e.answer = .result (.ok ⟨l, .failed, [],
            some ⟨.unexpected, .mapping, l.displayName, m⟩, Analysis.noTime⟩)) := by
  constructor
  · intro source ix as hended
    rw [Mapping.breaksOff_iff, not_and, Decidable.not_not]
    exact ⟨fun hnil _ => hnil, fun h => h hended⟩
  · intro e he record l hreq hnone
    obtain ⟨hans, -, hafter⟩ := event_of_analyze he hreq
    -- An answer that is no success comes from an analysis that is none.
    have hno : ∀ r, (Analysis.analyze s e.step.host e.step.files e.before.state l).result = .ok r →
        r.status ≠ .analyzed := by
      intro r hr hstatus
      rw [hr] at hans
      have hsome := Answer.finished?_eq_some_iff.mpr ⟨hans, hstatus⟩
      rw [hnone] at hsome
      cases hsome
    constructor
    · rw [hafter, attach_eq_self_iff, ← Analysis.analyze_attached_ne_nil_iff hno, Decidable.not_not]
    · rintro ⟨hstate, hp, sub, hbreaks⟩
      obtain ⟨m, hm⟩ := Option.ne_none_iff_exists'.mp (Mapping.breaksOff_iff.mp hbreaks).1
      rw [hstate, Analysis.analyze_of_ended hp sub hm] at hans hafter
      exact ⟨sub, m.message, hafter, hans⟩

/-- A score beyond all values, as the service writes it. -/
def hugeScore : List Char :=
  ",\"cvss\":\x7b\"score\":".toList ++ List.replicate 310 '9' ++ ['\x7d']

/-- Two advisories that match, the second with a score beyond all values. -/
def tornReply : List Char :=
  '[' :: sampleAdvisory "1" [] ++ ',' :: sampleAdvisory "2" hugeScore ++ [']']

/-- **A failed analysis may change a record.** Of two advisories the first matches, and the second has a
    score beyond all values: the analysis does not succeed, and the entry of the first stays on the
    record. -/
theorem records_changed_by_failure :
    ∃ e ∈ events .standard fresh [sampleStep tornReply],
      e.step.request = .analyze 0 sampleLockfile ∧ e.answer.finished? = none ∧
      (e.before.evidence 0).length = 0 ∧ (e.after.evidence 0).length = 1 := by
  -- Both facts are decided at once, so that the run is evaluated only once.
  have hboth : ((perform .standard fresh (sampleStep tornReply)).answer.finished?.isNone &&
      ((perform .standard fresh (sampleStep tornReply)).after.evidence 0).length == 1) = true := by
    decide +kernel
  obtain ⟨hfailed, hone⟩ := Bool.and_eq_true_iff.mp hboth
  exact ⟨_, List.mem_cons_self, rfl, Option.isNone_iff_eq_none.mp hfailed, rfl, eq_of_beq hone⟩

end Session

end LockAudit
