import LockAudit.Batch
import LockAudit.Proofs.Session.Lifecycle
import Mathlib.Data.List.Induction
import Mathlib.Data.List.Nodup
import Mathlib.Logic.Function.Basic

/-!
# `LockAudit.Proofs.Batch.Schedule` — analyses that share an analyzer

Analyses at the same time meet at the state of their analyzer and nowhere else. Each comes to it twice:
it reads the state when it starts, and it may take the analyzer out of service when it finishes. In
between it works on files of its own, with a host of its own, for a record of its own.

* `Job.finish` — an analysis that read one state and finishes in another. If both are one state, this is
  what `analyze` does (`analyze_eq_finish`).
* `Pool`, `Step`, `Run` — any number of analyses, started and finished in any order; `run_iff` replays
  a row of events.
* `Follows` — what the events so far say about a pool: its state is that of the first finish that takes
  the analyzer out of service (`firstReason`), and each analysis read the state that the events before
  its start had left. `follows_run` shows it step by step.
* `retires_of_first` — the first such finish is that of an analysis that really ran.
-/

namespace LockAudit

open Lifecycle (State)

/-! ## One analysis between two states -/

namespace Analysis

/-- Two analyses that come to the same, whatever is logged and whatever becomes of the state. -/
structure Agrees (a b : Analysis) : Prop where
  result : a.result = b.result
  attached : a.attached = b.attached
  launches : a.trace.launches = b.trace.launches
  posts : a.trace.posts = b.trace.posts
  files : a.files = b.files

/-- An analysis that ends with a failure of a kind that takes the analyzer out of service. -/
def Retires (a : Analysis) (f : Failure) : Prop :=
  ∃ r, a.result = .ok r ∧ r.failure = some f ∧ f.kind.disables = true

/-- The reason that a failure gives for taking the analyzer out of service. -/
def Failure.reason (f : Failure) : String := disablingReason (.of f.kind f.message)

/-- An analysis of a lockfile that was turned away. -/
structure TurnedAway (l : Lockfile) (files : FileTree) (a : Analysis) : Prop where
  result : a.result = .ok (.of l .disabled)
  attached : a.attached = []
  launches : a.trace.launches = []
  posts : a.trace.posts = []
  files : a.files = files

/-- What a halt is judged to be does not depend on the state. -/
theorem judge_result_eq (l : Lockfile) (state now : State) (halt : Halt) :
    (judge l now halt).result = (judge l state halt).result := by
  obtain ⟨stage, trouble⟩ := halt
  cases trouble with
  | audit e => by_cases hi : e.kind = .interrupted <;> simp [judge, hi]
  | mishap m => rfl
  | interrupt message => rfl
  | stop stopped message => rfl

/-- A halt takes the analyzer out of service for one reason in any state, or in none. -/
theorem judge_state (l : Lockfile) (now : State) (halt : Halt) :
    (judge l now halt).change.state = (judge l .enabled halt).change.state.reason.elim now
      fun reason => (Lifecycle.disable name reason now).state := by
  obtain ⟨stage, trouble⟩ := halt
  cases trouble with
  | audit e =>
    by_cases hi : e.kind = .interrupted
    · simp [judge, hi, State.reason]
    · by_cases hd : e.kind.disables = true <;> simp [judge, hi, hd, State.reason, Lifecycle.disable]
  | mishap m => rfl
  | interrupt message => rfl
  | stop stopped message => rfl

/-- The reason is that of the failure that the halt is judged to be. -/
theorem judge_reason (l : Lockfile) (halt : Halt) (reason : String) :
    (judge l .enabled halt).change.state.reason = some reason ↔
      ∃ r f, (judge l .enabled halt).result = .ok r ∧ r.failure = some f ∧
        f.kind.disables = true ∧ f.reason = reason := by
  obtain ⟨stage, trouble⟩ := halt
  cases trouble with
  | audit e =>
    by_cases hi : e.kind = .interrupted
    · simp [judge, hi, State.reason]
    · by_cases hd : e.kind.disables = true
      · simp [judge, hi, hd, State.reason, Lifecycle.disable, Failure.reason, disablingReason,
          AuditError.of]
      · simp [judge, hi, hd, State.reason]
  | mishap m => simp [judge, State.reason, ErrorKind.disables]
  | interrupt message => simp [judge, State.reason]
  | stop stopped message => simp [judge, State.reason]

end Analysis

open Analysis

/-- An analysis to make: a lockfile, the files that are found and the host that serves it. -/
structure Job where
  lockfile : Lockfile
  files : FileTree
  host : Host

namespace Job

variable (s : Settings) (j : Job)

/-- The analysis on its own, by an analyzer in service. -/
def alone : Analysis := analyze s j.host j.files .enabled j.lockfile

/-- The reason for which the analysis takes an analyzer out of service, if it does. -/
def reason? : Option String := (j.alone s).state.reason

/-- The analysis that read one state when it started and finishes in another. -/
def finish (seen now : State) : Analysis :=
  if !seen.isEnabled then ⟨.ok (.of j.lockfile .disabled), [], now, j.files, .empty⟩
  else if !shouldProcess j.files j.lockfile.path then
    ⟨.ok (.of j.lockfile .skipped), [], now, j.files, .empty⟩
  else
    let r := run s j.host j.files j.lockfile.path
    r.halt.elim
      ⟨.ok ⟨j.lockfile, .analyzed, r.attached, none, noTime⟩, r.attached, now, r.files,
        ⟨r.launches, r.posts, []⟩⟩
      fun halt =>
        let v := judge j.lockfile now halt
        ⟨v.result, r.attached, v.change.state, r.files, ⟨r.launches, r.posts, v.change.logs⟩⟩

variable {s j} {seen now : State}

theorem finish_of_not_enabled (h : seen ≠ .enabled) :
    j.finish s seen now = ⟨.ok (.of j.lockfile .disabled), [], now, j.files, .empty⟩ := by
  have hb : seen.isEnabled = false := by simpa [State.isEnabled] using h
  simp [finish, hb]

theorem finish_of_skipped (h : shouldProcess j.files j.lockfile.path = false) :
    j.finish s .enabled now = ⟨.ok (.of j.lockfile .skipped), [], now, j.files, .empty⟩ := by
  simp [finish, State.isEnabled, h]

theorem finish_of_processed (h : shouldProcess j.files j.lockfile.path = true) :
    j.finish s .enabled now =
      let r := run s j.host j.files j.lockfile.path
      r.halt.elim
        ⟨.ok ⟨j.lockfile, .analyzed, r.attached, none, noTime⟩, r.attached, now, r.files,
          ⟨r.launches, r.posts, []⟩⟩
        fun halt =>
          let v := judge j.lockfile now halt
          ⟨v.result, r.attached, v.change.state, r.files, ⟨r.launches, r.posts, v.change.logs⟩⟩ := by
  simp [finish, State.isEnabled, h]

/-- **An analysis that nothing comes between** finishes in the state that it read. -/
theorem analyze_eq_finish (state : State) :
    analyze s j.host j.files state j.lockfile = j.finish s state state := by
  by_cases he : state = .enabled
  · subst he
    cases hp : shouldProcess j.files j.lockfile.path with
    | false => rw [analyze_of_skipped hp, finish_of_skipped hp]
    | true =>
      rw [finish_of_processed hp]
      cases hr : (run s j.host j.files j.lockfile.path).halt with
      | none => rw [analyze_of_finished hp hr]; simp only [hr, Option.elim]
      | some halt => rw [analyze_of_halted hp hr]; simp only [hr, Option.elim]
  · rw [analyze_of_not_enabled he, finish_of_not_enabled he]

/-- What an analysis comes to is settled by the state that it read. -/
theorem finish_agrees (seen now : State) :
    (j.finish s seen now).Agrees (analyze s j.host j.files seen j.lockfile) := by
  by_cases he : seen = .enabled
  · subst he
    cases hp : shouldProcess j.files j.lockfile.path with
    | false =>
      rw [finish_of_skipped hp, analyze_of_skipped hp]
      exact ⟨rfl, rfl, rfl, rfl, rfl⟩
    | true =>
      rw [finish_of_processed hp]
      cases hr : (run s j.host j.files j.lockfile.path).halt with
      | none =>
        rw [analyze_of_finished hp hr]
        simp only [hr, Option.elim]
        exact ⟨rfl, rfl, rfl, rfl, rfl⟩
      | some halt =>
        rw [analyze_of_halted hp hr]
        simp only [hr, Option.elim]
        exact ⟨judge_result_eq _ _ _ _, rfl, rfl, rfl, rfl⟩
  · rw [finish_of_not_enabled he, analyze_of_not_enabled he]
    exact ⟨rfl, rfl, rfl, rfl, rfl⟩

/-- What an analysis that was not turned away does to the state. -/
theorem finish_state (now : State) :
    (j.finish s .enabled now).state =
      (j.reason? s).elim now fun reason => (Lifecycle.disable name reason now).state := by
  unfold reason? alone
  cases hp : shouldProcess j.files j.lockfile.path with
  | false =>
    rw [finish_of_skipped hp, analyze_of_skipped hp]
    rfl
  | true =>
    rw [finish_of_processed hp]
    cases hr : (run s j.host j.files j.lockfile.path).halt with
    | none =>
      rw [analyze_of_finished hp hr]
      simp only [hr, Option.elim]
      rfl
    | some halt =>
      rw [analyze_of_halted hp hr]
      simp only [hr]
      exact judge_state _ _ _

/-- An analysis takes the analyzer out of service exactly if it ends with a failure of such a kind, and
    for the reason of that failure. -/
theorem reason?_eq_some_iff {reason : String} :
    j.reason? s = some reason ↔ ∃ f, (j.alone s).Retires f ∧ f.reason = reason := by
  unfold reason? alone
  cases hp : shouldProcess j.files j.lockfile.path with
  | false =>
    rw [analyze_of_skipped hp]
    simp [State.reason, Retires, Result.of]
  | true =>
    cases hr : (run s j.host j.files j.lockfile.path).halt with
    | none =>
      rw [analyze_of_finished hp hr]
      simp [State.reason, Retires]
    | some halt =>
      rw [analyze_of_halted hp hr]
      show (judge j.lockfile .enabled halt).change.state.reason = some reason ↔ _
      rw [judge_reason]
      constructor
      · rintro ⟨r, f, hok, hf, hd, hreason⟩
        exact ⟨f, ⟨r, hok, hf, hd⟩, hreason⟩
      · rintro ⟨f, ⟨r, hok, hf, hd⟩, hreason⟩
        exact ⟨r, f, hok, hf, hd, hreason⟩

end Job

/-! ## Pools -/

/-- What analyses at the same time share, and what is known of each of them: the state that it read, and
    what it came to. Analyses and their records are told apart by numbers. -/
structure Pool where
  state : State
  seen : Nat → Option State
  done : Nat → Option Analysis
  evidence : Nat → List Evidence

namespace Pool

/-- What an analysis does to what all share. -/
inductive Event
  | started (i : Nat)
  | finished (i : Nat)
  deriving DecidableEq, Repr

/-- Before the first analysis, with an analyzer in service. -/
def start (evidence : Nat → List Evidence) : Pool := ⟨.enabled, fun _ => none, fun _ => none, evidence⟩

/-- An analysis has read the state. -/
def read (p : Pool) (i : Nat) : Pool := { p with seen := Function.update p.seen i (some p.state) }

/-- An analysis is over: its record has what it attached, and the state is what it left. -/
def settle (p : Pool) (i : Nat) (a : Analysis) : Pool where
  state := a.state
  seen := p.seen
  done := Function.update p.done i (some a)
  evidence := Session.attach i a.attached p.evidence

section
variable (p : Pool) (i : Nat) (a : Analysis)

@[simp] theorem read_state : (p.read i).state = p.state := rfl
@[simp] theorem read_done : (p.read i).done = p.done := rfl
@[simp] theorem read_evidence : (p.read i).evidence = p.evidence := rfl
@[simp] theorem read_seen_self : (p.read i).seen i = some p.state := Function.update_self ..
@[simp] theorem settle_state : (p.settle i a).state = a.state := rfl
@[simp] theorem settle_seen : (p.settle i a).seen = p.seen := rfl
@[simp] theorem settle_done_self : (p.settle i a).done i = some a := Function.update_self ..

variable {i} {k : Nat} (h : k ≠ i)
include h

theorem read_seen_of_ne : (p.read i).seen k = p.seen k := Function.update_of_ne h _ _
theorem settle_done_of_ne : (p.settle i a).done k = p.done k := Function.update_of_ne h _ _
theorem settle_evidence_of_ne : (p.settle i a).evidence k = p.evidence k := if_neg h

end

theorem settle_evidence_self (p : Pool) (i : Nat) (a : Analysis) :
    (p.settle i a).evidence i = p.evidence i ++ a.attached := Session.attach_self _ _ _

variable {s : Settings} {jobs : Nat → Job} {n : Nat}

/-- One event: an analysis that has not started reads the state, or one that has started and not
    finished comes to its end. -/
inductive Step (s : Settings) (jobs : Nat → Job) (n : Nat) : Pool → Event → Pool → Prop
  | start {p : Pool} {i : Nat} (hi : i < n) (hnew : p.seen i = none) :
    Step s jobs n p (.started i) (p.read i)
  | finish {p : Pool} {i : Nat} {seen : State} (hseen : p.seen i = some seen)
      (hrunning : p.done i = none) :
    Step s jobs n p (.finished i) (p.settle i ((jobs i).finish s seen p.state))

/-- A row of events. -/
inductive Run (s : Settings) (jobs : Nat → Job) (n : Nat) (p : Pool) : List Event → Pool → Prop
  | nil : Run s jobs n p [] p
  | snoc {es : List Event} {e : Event} {q r : Pool} (h : Run s jobs n p es q)
      (hstep : Step s jobs n q e r) : Run s jobs n p (es ++ [e]) r

/-! ## Replaying -/

variable {es : List Event} {p q : Pool} {e : Event}

/-- What an event makes of a pool, if it may happen. -/
def next? (s : Settings) (jobs : Nat → Job) (n : Nat) (p : Pool) : Event → Option Pool
  | .started i => if i < n ∧ (p.seen i).isNone then some (p.read i) else none
  | .finished i =>
    if (p.done i).isNone then (p.seen i).map fun seen => p.settle i ((jobs i).finish s seen p.state)
    else none

theorem step_iff : Step s jobs n p e q ↔ next? s jobs n p e = some q := by
  constructor
  · intro h
    cases h with
    | start hi hnew => simp [next?, hi, hnew]
    | finish hseen hrunning => simp [next?, hseen, hrunning]
  · intro h
    cases e with
    | started i =>
      obtain ⟨⟨hi, hnew⟩, heq⟩ := Option.ite_none_right_eq_some.mp h
      cases heq
      exact .start hi (Option.isNone_iff_eq_none.mp hnew)
    | finished i =>
      obtain ⟨hrunning, h⟩ := Option.ite_none_right_eq_some.mp h
      obtain ⟨seen, hseen, rfl⟩ := Option.map_eq_some_iff.mp h
      exact .finish hseen (Option.isNone_iff_eq_none.mp hrunning)

/-- **A schedule can be replayed.** -/
theorem run_iff : Run s jobs n p es q ↔ es.foldlM (next? s jobs n) p = some q := by
  constructor
  · intro h
    induction h with
    | nil => rfl
    | snoc h hstep ih =>
      rw [List.foldlM_append, ih]
      simpa using step_iff.mp hstep
  · intro h
    induction es using List.reverseRecOn generalizing q with
    | nil => cases h; exact .nil
    | append_singleton es e ih =>
      rw [List.foldlM_append] at h
      obtain ⟨r, hr, he⟩ := Option.bind_eq_some_iff.mp h
      exact (ih hr).snoc (step_iff.mpr (by simpa using he))

/-! ## What the events say -/

/-- The reason for which an event takes the analyzer out of service, if nothing did so before. -/
def Event.reason? (s : Settings) (jobs : Nat → Job) : Event → Option String
  | .started _ => none
  | .finished i => (jobs i).reason? s

/-- The first reason that events give. -/
def firstReason (s : Settings) (jobs : Nat → Job) (es : List Event) : Option String :=
  es.findSome? (Event.reason? s jobs)

/-- The state that events leave. -/
def stateAfter (s : Settings) (jobs : Nat → Job) (es : List Event) : State :=
  (firstReason s jobs es).elim .enabled .disabled

theorem firstReason_append (es fs : List Event) :
    firstReason s jobs (es ++ fs) = (firstReason s jobs es).or (firstReason s jobs fs) :=
  List.findSome?_append

theorem stateAfter_eq_enabled {es : List Event} :
    stateAfter s jobs es = .enabled ↔ firstReason s jobs es = none := by
  unfold stateAfter
  cases firstReason s jobs es <;> simp

/-- After a reason was given, nothing changes the state. -/
theorem stateAfter_append_of_ne {es : List Event} (h : stateAfter s jobs es ≠ .enabled)
    (fs : List Event) : stateAfter s jobs (es ++ fs) = stateAfter s jobs es := by
  obtain ⟨reason, hreason⟩ := Option.ne_none_iff_exists'.mp (mt stateAfter_eq_enabled.mpr h)
  unfold stateAfter
  rw [firstReason_append, hreason]
  rfl

/-- One more event takes the analyzer out of service if it is still in service. -/
theorem stateAfter_snoc (es : List Event) (e : Event) :
    stateAfter s jobs (es ++ [e]) = (e.reason? s jobs).elim (stateAfter s jobs es)
      fun reason => (Lifecycle.disable Analysis.name reason (stateAfter s jobs es)).state := by
  have hlast : firstReason s jobs [e] = e.reason? s jobs := by
    unfold firstReason
    rw [List.findSome?_cons]
    cases e.reason? s jobs <;> rfl
  unfold stateAfter
  rw [firstReason_append, hlast]
  cases firstReason s jobs es <;> cases e.reason? s jobs <;> rfl

/-- What the events so far say about a pool. -/
structure Follows (s : Settings) (jobs : Nat → Job) (n : Nat) (evidence : Nat → List Evidence)
    (es : List Event) (p : Pool) : Prop where
  nodup : es.Nodup
  below : ∀ i, .started i ∈ es → i < n
  state : p.state = stateAfter s jobs es
  evidence_eq : ∀ i, p.evidence i = evidence i ++ (p.done i).elim [] Analysis.attached
  seen : ∀ i state, p.seen i = some state →
    ∃ pre post, es = pre ++ .started i :: post ∧ state = stateAfter s jobs pre
  not_started : ∀ i, p.seen i = none → .started i ∉ es
  done : ∀ i a, p.done i = some a →
    ∃ pre mid post, es = pre ++ .started i :: (mid ++ .finished i :: post) ∧
      a = (jobs i).finish s (stateAfter s jobs pre) (stateAfter s jobs (pre ++ .started i :: mid))
  not_finished : ∀ i, p.done i = none → .finished i ∉ es

variable {evidence : Nat → List Evidence}

theorem follows_start : Follows s jobs n evidence [] (start evidence) where
  nodup := List.nodup_nil
  below := fun i h => absurd h List.not_mem_nil
  state := rfl
  evidence_eq := fun i => (List.append_nil _).symm
  seen := fun i state h => by cases h
  not_started := fun i _ => List.not_mem_nil
  done := fun i a h => by cases h
  not_finished := fun i _ => List.not_mem_nil

namespace Follows

variable (h : Follows s jobs n evidence es p)
include h

/-- What was known of the events so far stays known. -/
theorem seen_snoc {i : Nat} {state : State} (hi : p.seen i = some state) (e : Event) :
    ∃ pre post, es ++ [e] = pre ++ .started i :: post ∧ state = stateAfter s jobs pre := by
  obtain ⟨pre, post, rfl, hstate⟩ := h.seen i state hi
  exact ⟨pre, post ++ [e], by simp, hstate⟩

theorem done_snoc {i : Nat} {a : Analysis} (hi : p.done i = some a) (e : Event) :
    ∃ pre mid post, es ++ [e] = pre ++ .started i :: (mid ++ .finished i :: post) ∧
      a = (jobs i).finish s (stateAfter s jobs pre) (stateAfter s jobs (pre ++ .started i :: mid)) := by
  obtain ⟨pre, mid, post, rfl, ha⟩ := h.done i a hi
  exact ⟨pre, mid, post ++ [e], by simp, ha⟩

/-- What an analysis does to the state depends only on whether it would have retired the analyzer: if it
    was turned away, that happened before. -/
theorem state_finish {i : Nat} {seen : State} (hseen : p.seen i = some seen) :
    ((jobs i).finish s seen p.state).state = stateAfter s jobs (es ++ [.finished i]) := by
  obtain ⟨pre, post, hes, hstate⟩ := h.seen i seen hseen
  by_cases he : seen = .enabled
  · rw [he, Job.finish_state, h.state, stateAfter_snoc]
    rfl
  · -- It was turned away, and what it read is the state for all events that follow.
    have hpre : stateAfter s jobs pre ≠ .enabled := hstate ▸ he
    rw [Job.finish_of_not_enabled he, h.state, hes, List.append_assoc, stateAfter_append_of_ne hpre,
      stateAfter_append_of_ne hpre]

theorem read {i : Nat} (hi : i < n) (hnew : p.seen i = none) :
    Follows s jobs n evidence (es ++ [.started i]) (p.read i) where
  nodup := by
    rw [← List.concat_eq_append]
    exact h.nodup.concat (h.not_started i hnew)
  below := by
    intro k hk
    rcases List.mem_append.mp hk with hk | hk
    · exact h.below k hk
    · cases List.mem_singleton.mp hk
      exact hi
  state := by
    rw [stateAfter_snoc]
    exact h.state
  evidence_eq := h.evidence_eq
  seen := by
    intro k state hk
    by_cases hki : k = i
    · subst hki
      rw [read_seen_self] at hk
      exact ⟨es, [], rfl, (Option.some.inj hk).symm.trans h.state⟩
    · rw [read_seen_of_ne p hki] at hk
      exact h.seen_snoc hk _
  not_started := by
    intro k hk
    by_cases hki : k = i
    · subst hki
      rw [read_seen_self] at hk
      cases hk
    · rw [read_seen_of_ne p hki] at hk
      simpa [hki] using h.not_started k hk
  done := fun k a hk => h.done_snoc hk _
  not_finished := by
    intro k hk
    simpa using h.not_finished k hk

theorem settle {i : Nat} {seen : State} (hseen : p.seen i = some seen) (hrunning : p.done i = none) :
    Follows s jobs n evidence (es ++ [.finished i]) (p.settle i ((jobs i).finish s seen p.state)) where
  nodup := by
    rw [← List.concat_eq_append]
    exact h.nodup.concat (h.not_finished i hrunning)
  below := by
    intro k hk
    exact h.below k (by simpa using hk)
  state := h.state_finish hseen
  evidence_eq := by
    intro k
    by_cases hki : k = i
    · subst hki
      rw [settle_evidence_self, settle_done_self, h.evidence_eq, hrunning]
      simp
    · rw [settle_evidence_of_ne p _ hki, settle_done_of_ne p _ hki]
      exact h.evidence_eq k
  seen := fun k state hk => h.seen_snoc hk _
  not_started := by
    intro k hk
    simpa using h.not_started k hk
  done := by
    intro k a hk
    by_cases hki : k = i
    · subst hki
      rw [settle_done_self] at hk
      obtain ⟨pre, post, hes, hstate⟩ := h.seen k seen hseen
      -- Since its start come the events between, and its own finish is the last.
      refine ⟨pre, post, [], by simp [hes], ?_⟩
      rw [← Option.some.inj hk, h.state, hes, hstate]
    · rw [settle_done_of_ne p _ hki] at hk
      exact h.done_snoc hk _
  not_finished := by
    intro k hk
    by_cases hki : k = i
    · subst hki
      rw [settle_done_self] at hk
      cases hk
    · rw [settle_done_of_ne p _ hki] at hk
      simpa [hki] using h.not_finished k hk

theorem step (hstep : Step s jobs n p e q) : Follows s jobs n evidence (es ++ [e]) q := by
  cases hstep with
  | start hi hnew => exact h.read hi hnew
  | finish hseen hrunning => exact h.settle hseen hrunning

end Follows

/-- **A pool follows its events.** -/
theorem follows_run (h : Run s jobs n (start evidence) es p) : Follows s jobs n evidence es p := by
  -- The last event is the newest one, so each step adds it behind those that the invariant speaks of.
  induction h with
  | nil => exact follows_start
  | snoc h hstep ih => exact ih.step hstep

end Pool

end LockAudit
