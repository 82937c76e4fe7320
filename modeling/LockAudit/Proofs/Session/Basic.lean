import LockAudit.Analysis

/-!
# `LockAudit.Proofs.Session.Basic` — one analyzer over time

An analyzer is used again and again: it is prepared, it analyzes the lockfiles of records, it is taken
out of service. A *session* is what it keeps between such requests: its state, and the evidence on the
records. Between two requests the files may change in any way, and every request may meet another host,
so each `Step` brings its own files and its own host.

`events` lists what happens in a run, one `Event` for each step.

## Contents
- **Sessions.** `Session`, and in its namespace `Request`, `Step`, `Answer`, `Event`, `perform` and
  `events`.
- **Single requests.** What `Analysis.analyze` does in each state (`analyze_of_not_enabled`,
  `analyze_of_skipped`, `analyze_of_finished`, `analyze_of_halted`), and what `prepare` does to an
  analyzer that is out of service.
- **Runs.** `mem_events_perform` reduces a fact about all events of a run to one about single steps.
-/

namespace LockAudit

/-! ## Sessions -/

/-- What an analyzer keeps between requests: its state, and the evidence of each record. Records are
    told apart by numbers. -/
structure Session where
  state : Lifecycle.State
  evidence : Nat → List Evidence

namespace Session

/-- What an analyzer is asked to do. -/
inductive Request
  | prepare
  | analyze (record : Nat) (lockfile : Lockfile)
  | disable (reason : String)

/-- A request, with the files that it finds and the host that serves it. -/
structure Step where
  request : Request
  files : FileTree
  host : Host

/-- What a request is answered with. -/
inductive Answer
  | state (result : Except Trouble Lifecycle.State)
  | result (result : Except Trouble Analysis.Result)

/-- The result of an analysis that succeeds. -/
def Answer.finished? : Answer → Option Analysis.Result
  | .result (.ok r) => if r.status = .analyzed then some r else none
  | _ => none

/-- A step, with the session before and after it, its answer, what it did to the world, and the files
    that it left behind. -/
structure Event where
  step : Step
  before : Session
  answer : Answer
  trace : Trace
  files : FileTree
  after : Session

/-- Adds evidence to a record. -/
def attach (record : Nat) (es : List Evidence) (evidence : Nat → List Evidence) :
    Nat → List Evidence :=
  fun n => if n = record then evidence n ++ es else evidence n

/-- Performs a step. -/
def perform (s : Settings) (x : Session) (a : Step) : Event :=
  match a.request with
  | .prepare =>
    let p := Analysis.prepare s a.host a.files x.state
    ⟨a, x, .state p.result, p.trace, p.files, ⟨p.state, x.evidence⟩⟩
  | .analyze record l =>
    let r := Analysis.analyze s a.host a.files x.state l
    ⟨a, x, .result r.result, r.trace, r.files, ⟨r.state, attach record r.attached x.evidence⟩⟩
  | .disable reason =>
    let c := Lifecycle.disable Analysis.name reason x.state
    ⟨a, x, .state (.ok c.state), ⟨[], [], c.logs⟩, a.files, ⟨c.state, x.evidence⟩⟩

/-- What happens when steps are performed one after the other. -/
def events (s : Settings) : Session → List Step → List Event
  | _, [] => []
  | x, a :: r => perform s x a :: events s (perform s x a).after r

theorem Answer.finished?_eq_some_iff {a : Answer} {r : Analysis.Result} :
    a.finished? = some r ↔ a = .result (.ok r) ∧ r.status = .analyzed := by
  constructor
  · intro h
    unfold finished? at h
    split at h
    · split at h
      · next hs =>
        rw [← Option.some.inj h]
        exact ⟨rfl, hs⟩
      · cases h
    · cases h
  · rintro ⟨rfl, hs⟩
    exact if_pos hs

@[simp] theorem attach_nil (record : Nat) (evidence : Nat → List Evidence) :
    attach record [] evidence = evidence := by
  funext n
  simp [attach]

theorem attach_self (record : Nat) (es : List Evidence) (evidence : Nat → List Evidence) :
    attach record es evidence record = evidence record ++ es := by
  simp [attach]

@[simp] theorem perform_step (s : Settings) (x : Session) (a : Step) : (perform s x a).step = a := by
  unfold perform
  split <;> rfl

@[simp] theorem perform_before (s : Settings) (x : Session) (a : Step) :
    (perform s x a).before = x := by
  unfold perform
  split <;> rfl

/-- What analyzing does in a session: what it does alone, and the record has the evidence. -/
theorem perform_of_analyze {s : Settings} {x : Session} {a : Step} {record : Nat} {l : Lockfile}
    (h : a.request = .analyze record l) :
    perform s x a =
      ⟨a, x, .result (Analysis.analyze s a.host a.files x.state l).result,
        (Analysis.analyze s a.host a.files x.state l).trace,
        (Analysis.analyze s a.host a.files x.state l).files,
        ⟨(Analysis.analyze s a.host a.files x.state l).state,
          attach record (Analysis.analyze s a.host a.files x.state l).attached x.evidence⟩⟩ := by
  unfold perform
  rw [h]

end Session

/-! ## Single requests -/

namespace Analysis

variable {s : Settings} {host : Host} {files : FileTree} {l : Lockfile}

/-- An analyzer that is not in service analyzes nothing, and looks at nothing. -/
theorem analyze_of_not_enabled {state : Lifecycle.State} (h : state ≠ .enabled) :
    analyze s host files state l = ⟨.ok (.of l .disabled), [], state, files, .empty⟩ := by
  have hb : state.isEnabled = false := by simpa [Lifecycle.State.isEnabled] using h
  simp [analyze, hb]

/-- A lockfile that is not worth analyzing is skipped. -/
theorem analyze_of_skipped (h : shouldProcess files l.path = false) :
    analyze s host files .enabled l = ⟨.ok (.of l .skipped), [], .enabled, files, .empty⟩ := by
  simp [analyze, Lifecycle.State.isEnabled, h]

/-- An analysis whose stages all succeed has the result that they come to. -/
theorem analyze_of_finished (h : shouldProcess files l.path = true)
    (hr : (run s host files l.path).halt = none) :
    analyze s host files .enabled l =
      ⟨.ok ⟨l, .analyzed, (run s host files l.path).attached, none, noTime⟩,
        (run s host files l.path).attached, .enabled, (run s host files l.path).files,
        ⟨(run s host files l.path).launches, (run s host files l.path).posts, []⟩⟩ := by
  simp [analyze, Lifecycle.State.isEnabled, h, hr]

/-- An analysis that a stage ends is judged by what ended it. -/
theorem analyze_of_halted (h : shouldProcess files l.path = true) {halt : Halt}
    (hr : (run s host files l.path).halt = some halt) :
    analyze s host files .enabled l =
      ⟨(judge l .enabled halt).result, (run s host files l.path).attached,
        (judge l .enabled halt).change.state, (run s host files l.path).files,
        ⟨(run s host files l.path).launches, (run s host files l.path).posts,
          (judge l .enabled halt).change.logs⟩⟩ := by
  simp [analyze, Lifecycle.State.isEnabled, h, hr]

/-- Preparing does nothing to an analyzer that is out of service. -/
theorem prepare_of_disabled (reason : String) :
    prepare s host files (.disabled reason) =
      ⟨.ok (.disabled reason), .disabled reason, files, .empty⟩ := by
  unfold prepare
  split
  · rfl
  · rfl

end Analysis

/-! ## Runs -/

namespace Session

/-- Every event of a run performs its own step on the session before it. -/
theorem mem_events_perform {s : Settings} {x : Session} {steps : List Step} {e : Event}
    (h : e ∈ events s x steps) : e = perform s e.before e.step := by
  induction steps generalizing x with
  | nil => simp [events] at h
  | cons a r ih =>
    rcases List.mem_cons.mp h with rfl | h
    · rw [perform_before, perform_step]
    · exact ih h

end Session

end LockAudit
