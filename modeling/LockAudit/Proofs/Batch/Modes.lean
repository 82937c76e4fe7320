import LockAudit.Proofs.Batch.Outcome
import LockAudit.Proofs.Session.Evidence
import LockAudit.Proofs.Steps
import Mathlib.Data.List.Infix

/-!
# `LockAudit.Proofs.Batch.Modes` — one after the other, and at the same time

A batch can be analyzed in three ways: one lockfile after the other, at the same time by a number of
workers, or at the same time while someone awaits the results. All three are schedules of one pool. The first
two show what they do on a terminal, and rely on it to show what is said of the lockfiles (`Batch.Shows`).

* `gather_of_perm`, `asynchronous_of_perm` — results are put in the order of their lockfiles, whatever order
  they came in.
* `exists_run_sequential` — analyzing one after the other is a schedule: each analysis finishes before
  the next one starts.
* `outcome_of_schedule` — what every schedule comes to; if no failure takes the analyzer out of service,
  all three ways give the same results.
-/

namespace LockAudit

open Lifecycle (State)
open Analysis

/-! ## Completions -/

namespace Batch

theorem collect_ok (r : Nat → Result) (order : List Nat) :
    collect (order.map fun i => ⟨i, .ok (r i)⟩) = .ok (order.map fun i => (i, r i)) := by
  induction order with
  | nil => rfl
  | cons i order ih =>
    rw [List.map_cons, collect]
    show Except.map _ (collect _) = _
    rw [ih]
    rfl

/-- **Results are in the order of their lockfiles**, in whatever order they come. -/
theorem gather_of_perm {n : Nat} (r : Nat → Result) {order : List Nat}
    (h : order.Perm (List.range n)) :
    gather (order.map fun i => ⟨i, .ok (r i)⟩) = .ok ((List.range n).map r) := by
  have hsorted : (order.map fun i => (i, r i)).mergeSort (fun a b => a.1 ≤ b.1)
      = (List.range n).map fun i => (i, r i) := by
    have hright : ((List.range n).map fun i => (i, r i)).Pairwise fun a b => a.1 < b.1 := by
      apply List.pairwise_map.mpr
      exact List.pairwise_lt_range
    -- Two arrangements of the same places, of which one is sorted strictly, have one sorted form.
    exact Sorting.mergeSort_eq_of_perm (fun x : Nat × Result => x.1) (h.map _) hright
  rw [gather, collect_ok]
  unfold inOrder
  show Except.ok (((order.map fun i => (i, r i)).mergeSort fun a b => a.1 ≤ b.1).map (·.2)) = _
  rw [hsorted, List.map_map]
  rfl

/-- Awaiting results that all come is having them with their places. -/
theorem await_ok (r : Nat → Result) (order : List Nat) :
    await (order.map fun i => .completed ⟨i, .ok (r i)⟩) = (.ok (order.map fun i => (i, r i)), false) := by
  induction order with
  | nil => rfl
  | cons i order ih =>
    rw [List.map_cons, await]
    simp only [ih]
    rfl

/-- In its place stands the result that came for it. -/
theorem find?_place (r : Nat → Result) {order : List Nat} {i : Nat} (hi : i ∈ order) :
    (order.map fun k => (k, r k)).find? (fun p => p.1 == i) = some (i, r i) := by
  induction order with
  | nil => cases hi
  | cons k order ih =>
    rw [List.map_cons, List.find?_cons]
    by_cases hk : k = i
    · simp [hk]
    · have hbeq : (k == i) = false := by simpa using hk
      simp only [hbeq]
      apply ih
      rcases List.mem_cons.mp hi with rfl | hi
      · exact absurd rfl hk
      · exact hi

/-- **Awaited results are in the order of their lockfiles**, in whatever order they come. -/
theorem asynchronous_of_perm {n : Nat} (r : Nat → Result) {order : List Nat} (h : order.Perm (List.range n)) :
    asynchronous n (order.map fun i => .completed ⟨i, .ok (r i)⟩) = ⟨.ok ((List.range n).map r), false⟩ := by
  have hplaces : inPlaces n (order.map fun i => (i, r i)) = (List.range n).map r := by
    calc inPlaces n (order.map fun i => (i, r i))
        = (List.range n).filterMap (some ∘ r) := by
          unfold inPlaces
          apply List.filterMap_congr
          intro i hi
          rw [find?_place r (h.mem_iff.mpr hi)]
          rfl
      _ = (List.range n).map r := congrFun List.filterMap_eq_map _
  simp only [asynchronous, await_ok]
  show (⟨.ok (inPlaces n _), false⟩ : Awaited) = _
  rw [hplaces]

section
variable {d : Console.Display} {ls : List Lockfile} (hshown : Shows d ls)
include hshown

theorem sequential_cons {σ : Type} {analyze : σ → Lockfile → Except Trouble Result × σ} {x : σ}
    {l : Lockfile} {r : Result} (hl : l ∈ ls) (h : (analyze x l).1 = .ok r) (rest : List Lockfile) :
    (sequential d analyze x (l :: rest)).results
      = (sequential d analyze (analyze x l).2 rest).results.map (r :: ·) := by
  have hx : analyze x l = (.ok r, (analyze x l).2) := by rw [← h]
  have hsettle : settle l (.ok r) = .ok r := rfl
  rw [sequential, hshown.announcement l hl, hx]
  simp only [hsettle, hshown.conclusion l hl r]
  rfl

end

end Batch

/-! ## One after the other -/

namespace Pool

/-- Analyzes the lockfile of the next job, and hands on which job is next and the state. -/
def analyzeNext (s : Settings) (jobs : Nat → Job) (x : Nat × State) (l : Lockfile) :
    Except Trouble Result × (Nat × State) :=
  let a := analyze s (jobs x.1).host (jobs x.1).files x.2 l
  (a.result, (x.1 + 1, a.state))

/-- The result of an analysis that is over. -/
def result? (p : Pool) (i : Nat) : Option Result := (p.done i).bind fun a => a.result.toOption

variable {s : Settings} {jobs : Nat → Job} {n : Nat} {p q : Pool} {es : List Event}

/-- If no analysis is interrupted on its own, none is between any two states. -/
theorem exists_result (hok : ∀ i < n, ∃ r, ((jobs i).alone s).result = .ok r) {i : Nat} (hi : i < n)
    (seen now : State) : ∃ r, ((jobs i).finish s seen now).result = .ok r := by
  by_cases he : seen = .enabled
  · subst he
    obtain ⟨r, hr⟩ := hok i hi
    exact ⟨r, (Job.finish_agrees _ _).result.trans hr⟩
  · exact ⟨_, (Job.turnedAway_of_not_enabled he).result⟩

/-- **Analyzing one after the other is a schedule**: each analysis starts when the one before it has
    finished. -/
theorem exists_run_sequential {d : Console.Display}
    (hshown : Batch.Shows d ((List.range n).map fun i => (jobs i).lockfile))
    (hok : ∀ i < n, ∃ r, ((jobs i).alone s).result = .ok r)
    (hrun : Run s jobs n p es q) {k m : Nat} (hk : k + m ≤ n)
    (hfresh : ∀ i, k ≤ i → q.seen i = none ∧ q.done i = none) :
    ∃ fs q', Run s jobs n p (es ++ fs) q' ∧ (∀ i < k, q'.done i = q.done i) ∧
      (∀ i, k ≤ i → i < k + m → .finished i ∈ fs) ∧
      (Batch.sequential d (analyzeNext s jobs) (k, q.state)
        ((List.range' k m).map fun i => (jobs i).lockfile)).results
          = .ok ((List.range' k m).filterMap q'.result?) := by
  -- On the number of jobs that are left. The pool so far is any pool in which they have not started.
  induction m generalizing k es q with
  | zero => exact ⟨[], q, by simpa using hrun, fun _ _ => rfl, fun i _ _ => by omega, rfl⟩
  | succ m ih =>
    let a := (jobs k).finish s q.state q.state
    have hread : Run s jobs n p (es ++ [.started k]) (q.read k) :=
      hrun.snoc (.start (by omega) (hfresh k (Nat.le_refl k)).1)
    have hsettle : Run s jobs n p (es ++ [.started k] ++ [.finished k]) ((q.read k).settle k a) :=
      hread.snoc (.finish (read_seen_self q k) (hfresh k (Nat.le_refl k)).2)
    have hnext : ∀ i, k + 1 ≤ i →
        ((q.read k).settle k a).seen i = none ∧ ((q.read k).settle k a).done i = none := by
      intro i hi
      have hne : i ≠ k := by omega
      rw [settle_seen, read_seen_of_ne q hne, settle_done_of_ne _ a hne, read_done]
      exact hfresh i (by omega)
    obtain ⟨fs, q', hrun', hbefore, hfinished, hresults⟩ := ih hsettle (by omega) hnext
    refine ⟨[.started k, .finished k] ++ fs, q', ?_, ?_, ?_, ?_⟩
    · simpa using hrun'
    · intro i hi
      rw [hbefore i (by omega), settle_done_of_ne _ a (by omega), read_done]
    · intro i hi hlt
      rcases Nat.eq_or_lt_of_le hi with rfl | hi
      · simp
      · exact List.mem_append_right _ (hfinished i hi (by omega))
    · obtain ⟨r, hr⟩ := exists_result hok (show k < n by omega) q.state q.state
      have hdone : q'.done k = some a := by rw [hbefore k (Nat.lt_succ_self k), settle_done_self]
      have hresult : q'.result? k = some r := by
        rw [result?, hdone]
        show a.result.toOption = some r
        rw [show a.result = .ok r from hr]
        rfl
      -- Nothing comes between start and finish, so this is what the analyzer does by itself.
      have hanalyze : analyze s (jobs k).host (jobs k).files q.state (jobs k).lockfile = a :=
        Job.analyze_eq_finish q.state
      have hfirst : (analyzeNext s jobs (k, q.state) (jobs k).lockfile).1 = .ok r := by
        show (analyze s (jobs k).host (jobs k).files q.state (jobs k).lockfile).result = _
        rw [hanalyze]
        exact hr
      have hstate : (analyzeNext s jobs (k, q.state) (jobs k).lockfile).2
          = (k + 1, ((q.read k).settle k a).state) := by
        show (k + 1, (analyze s (jobs k).host (jobs k).files q.state (jobs k).lockfile).state) = _
        rw [hanalyze]
        rfl
      have hlockfile : (jobs k).lockfile ∈ (List.range n).map fun i => (jobs i).lockfile :=
        List.mem_map.mpr ⟨k, List.mem_range.mpr (by omega), rfl⟩
      rw [List.range'_succ, List.map_cons, Batch.sequential_cons hshown hlockfile hfirst, hstate, hresults,
        List.filterMap_cons_some hresult]
      rfl

/-! ## At the same time -/

/-- The completion of an analysis that is over. -/
def completion? (jobs : Nat → Job) (p : Pool) (i : Nat) : Option Batch.Completion :=
  (p.done i).map fun a => ⟨i, Batch.settle (jobs i).lockfile a.result⟩

/-- Whether an event is a start. -/
def Event.isStart : Event → Bool
  | .started _ => true
  | .finished _ => false

/-- At no time do more analyses run than there are workers. -/
def Within (workers : Int) (es : List Event) : Prop :=
  ∀ pre, pre <+: es →
    (pre.countP Event.isStart : Int) ≤ workers + pre.countP fun e => !e.isStart

instance (workers : Int) (es : List Event) : Decidable (Within workers es) :=
  decidable_of_iff (∀ pre ∈ es.inits,
      (pre.countP Event.isStart : Int) ≤ workers + pre.countP fun e => !e.isStart)
    ⟨fun h pre hpre => h pre ((List.mem_inits _ _).mpr hpre), fun h pre hpre => h pre ((List.mem_inits _ _).mp hpre)⟩

/-- Analyses that all end on their own, none of them with a failure that takes the analyzer out of
    service. -/
def Quiet (s : Settings) (jobs : Nat → Job) (n : Nat) (r : Nat → Result) : Prop :=
  ∀ i < n, ((jobs i).alone s).result = .ok (r i) ∧
    ∀ f, (r i).failure = some f → f.kind.disables = false

namespace Follows

variable {evidence : Nat → List Evidence} (h : Follows s jobs n evidence es p)
include h

theorem exists_done {i : Nat} (hi : .finished i ∈ es) : ∃ a, p.done i = some a := by
  cases hd : p.done i with
  | none => exact absurd hi (h.not_finished i hd)
  | some a => exact ⟨a, rfl⟩

theorem lt_of_done {i : Nat} {a : Analysis} (hd : p.done i = some a) : i < n := by
  obtain ⟨pre, mid, post, rfl, -⟩ := h.done i a hd
  exact h.below i (by simp)

/-- The first event is a start, so a schedule needs a worker. -/
theorem one_le_workers {workers : Int} (hw : Within workers es) (hne : es ≠ []) : 1 ≤ workers := by
  obtain ⟨e, rest, rfl⟩ := List.exists_cons_of_ne_nil hne
  have hfirst := hw [e] ⟨rest, rfl⟩
  cases e with
  | started i => simpa [Event.isStart] using hfirst
  | finished i =>
    obtain ⟨a, hd⟩ := h.exists_done List.mem_cons_self
    obtain ⟨pre, mid, post, hes, -⟩ := h.done i a hd
    have hcut : [] ++ .finished i :: rest = (pre ++ .started i :: mid) ++ .finished i :: post := by
      simpa using hes
    have hempty := eq_of_split h.nodup hcut
    simp at hempty

/-- Without a failure that takes the analyzer out of service, every analysis comes to what it comes to on
    its own. -/
theorem result?_of_quiet {r : Nat → Result} (hquiet : Quiet s jobs n r) {i : Nat}
    (hi : .finished i ∈ es) : p.result? i = some (r i) := by
  obtain ⟨a, hd⟩ := h.exists_done hi
  rcases h.done_cases hd with ⟨⟨pre, post, -, k, b, f, -, hk, hf⟩, -⟩ | ⟨-, hagrees⟩
  · -- No failure is of such a kind, so none has finished before.
    obtain ⟨g, ⟨x, hx, hg, hkind⟩, -⟩ := Job.reason?_eq_some_iff.mp (h.reason?_of_retires hk hf)
    obtain ⟨hr, hno⟩ := hquiet k (h.lt_of_done hk)
    rw [Except.ok.inj (hx.symm.trans hr)] at hg
    rw [hno g hg] at hkind
    cases hkind
  · have hr : a.result = .ok (r i) := hagrees.result.trans (hquiet i (h.lt_of_done hd)).1
    rw [result?, hd, Option.bind_some, hr]
    rfl

end Follows

section
variable {r : Nat → Result} (hr : ∀ i < n, p.result? i = some (r i))
include hr

/-- The completions of a pool, in whatever order they come. -/
theorem completions_eq {order : List Nat} (horder : order.Perm (List.range n)) :
    order.filterMap (p.completion? jobs) = order.map fun i => ⟨i, .ok (r i)⟩ := by
  rw [← List.filterMap_eq_map]
  apply List.filterMap_congr
  intro i hi
  obtain ⟨a, hd, ha⟩ := Option.bind_eq_some_iff.mp (hr i (List.mem_range.mp (horder.mem_iff.mp hi)))
  rw [completion?, hd, Option.map_some, eq_ok_of_toOption ha]
  rfl

/-- The results of a pool, in the order of their lockfiles. -/
theorem results_eq : (List.range n).filterMap p.result? = (List.range n).map r := by
  rw [← List.filterMap_eq_map]
  exact List.filterMap_congr fun i hi => hr i (List.mem_range.mp hi)

end

section
variable {d : Console.Display} (hshown : Batch.Shows d ((List.range n).map fun i => (jobs i).lockfile))
include hshown

theorem concurrent_of_perm {workers : Int} (hw : n ≠ 0 → 1 ≤ workers) (progress : Bool) (r : Nat → Result)
    {order : List Nat} (horder : order.Perm (List.range n)) :
    Batch.concurrent d progress workers ((List.range n).map fun i => (jobs i).lockfile)
      (order.map fun i => ⟨i, .ok (r i)⟩) = .ok ((List.range n).map r) := by
  unfold Batch.concurrent
  by_cases hn : n = 0
  · subst hn
    rfl
  · have hsome : ((List.range n).map fun i => (jobs i).lockfile).isEmpty = false := by simpa using hn
    have hworkers : ¬ workers < 1 := Int.not_lt.mpr (hw hn)
    rw [hsome, if_neg hworkers, Batch.progressFault?_of_shows hshown, Batch.gather_of_perm r horder]
    rfl

theorem sequential_of_quiet {r : Nat → Result} (hquiet : Quiet s jobs n r) :
    (Batch.sequential d (analyzeNext s jobs) (0, .enabled)
      ((List.range n).map fun i => (jobs i).lockfile)).results = .ok ((List.range n).map r) := by
  have hok : ∀ i < n, ∃ r, ((jobs i).alone s).result = .ok r := fun i hi => ⟨r i, (hquiet i hi).1⟩
  have hnone : Run s jobs n (start fun _ => []) [] (start fun _ => []) := .nil
  obtain ⟨es, p, hrun, -, hfinished, hresults⟩ :=
    exists_run_sequential hshown hok hnone (Nat.le_of_eq (Nat.zero_add n)) fun _ _ => ⟨rfl, rfl⟩
  rw [List.nil_append] at hrun
  have hr : ∀ i < n, p.result? i = some (r i) := fun i hi =>
    (follows_run hrun).result?_of_quiet hquiet (hfinished i (Nat.zero_le i) (by omega))
  rw [← results_eq hr, List.range_eq_range']
  exact hresults

end

variable {evidence : Nat → List Evidence}

/-- **What analyses at the same time come to.** In whatever order analyses that share an analyzer start
    and finish: an analysis is turned away, without a launch, a post or evidence, exactly if a failure
    that takes the analyzer out of service had finished before it started, and otherwise it comes to what
    it comes to on its own; a record gains what its own analysis attaches and nothing else; and the
    analyzer is out of service exactly if such a failure has finished, for the reason of the first to
    finish. If there is none, the results that someone awaits are those, in the order of the lockfiles; and on a
    terminal that shows what is said of the lockfiles, so are the results by workers, for any number of them
    that the schedule keeps to, with a progress display or without, and the results of one after the other. -/
theorem outcome_of_schedule (h : Run s jobs n (start evidence) es p) :
    (∀ i a, p.done i = some a →
      ((∃ r, a.result = .ok r ∧ r.status = .disabled) ↔ p.RetiredBefore es i) ∧
      (p.RetiredBefore es i → TurnedAway (jobs i).lockfile (jobs i).files a) ∧
      (¬ p.RetiredBefore es i → a.Agrees ((jobs i).alone s))) ∧
    (∀ i, p.evidence i = evidence i ++ (p.done i).elim [] Analysis.attached) ∧
    (∀ reason, p.state = .disabled reason ↔ ∃ f, p.FirstToRetire es f ∧ f.reason = reason) ∧
    (p.state = .enabled ↔ ¬ p.Retired es) ∧
    ∀ (r : Nat → Result) (order : List Nat), Quiet s jobs n r →
      (∀ i < n, .finished i ∈ es) → order.Perm (List.range n) →
        Batch.asynchronous n ((order.filterMap (p.completion? jobs)).map .completed) =
          ⟨.ok ((List.range n).map r), false⟩ ∧
        ∀ d, Batch.Shows d ((List.range n).map fun i => (jobs i).lockfile) →
          (∀ workers progress, Within workers es →
            Batch.concurrent d progress workers ((List.range n).map fun i => (jobs i).lockfile)
              (order.filterMap (p.completion? jobs)) = .ok ((List.range n).map r)) ∧
          (Batch.sequential d (analyzeNext s jobs) (0, .enabled)
            ((List.range n).map fun i => (jobs i).lockfile)).results = .ok ((List.range n).map r) := by
  have h := follows_run h
  refine ⟨?_, h.evidence_eq, ?_, h.state_eq_enabled_iff, ?_⟩
  · intro i a hd
    rcases h.done_cases hd with ⟨hbefore, haway⟩ | ⟨hnot, hagrees⟩
    · exact ⟨iff_of_true ⟨_, haway.result, rfl⟩ hbefore, fun _ => haway, fun hnot => absurd hbefore hnot⟩
    · refine ⟨iff_of_false ?_ hnot, fun hbefore => absurd hbefore hnot, fun _ => hagrees⟩
      rintro ⟨r, hr, hstatus⟩
      exact Job.status_alone (hagrees.result.symm.trans hr) hstatus
  · intro reason
    exact h.state_eq_disabled_iff
  · intro r order hquiet hall horder
    have hr : ∀ i < n, p.result? i = some (r i) := by
      intro i hi
      exact h.result?_of_quiet hquiet (hall i hi)
    rw [completions_eq hr horder]
    constructor
    · rw [List.map_map]
      exact Batch.asynchronous_of_perm r horder
    · intro d hshown
      refine ⟨?_, sequential_of_quiet hshown hquiet⟩
      intro workers progress hw
      apply concurrent_of_perm hshown _ progress r horder
      intro hn
      exact h.one_le_workers hw (List.ne_nil_of_mem (hall 0 (Nat.pos_of_ne_zero hn)))

/-! ## Sample schedules -/

/-- A job whose launch fails. -/
def brokenJob : Job :=
  ⟨Session.sampleLockfile, Session.sampleFiles,
    ⟨fun files _ => (.error (.audit (.of .launchFailure "no such program")), files),
      fun _ => .response 200 [], fun _ => ""⟩⟩

/-- A job that finds a vulnerability. -/
def soundJob : Job :=
  ⟨Session.sampleLockfile, Session.sampleFiles, Session.sampleHost Session.sampleReply⟩

/-- The first of three analyses fails, after the second and before the third has started. -/
def overlapping : List Event :=
  [.started 0, .started 1, .finished 0, .started 2, .finished 1, .finished 2]

theorem reason?_brokenJob :
    brokenJob.reason? .standard = some (disablingReason (.of .launchFailure "no such program")) := by
  decide +kernel

theorem exists_result_soundJob :
    ∃ r, (soundJob.alone .standard).result = .ok r ∧ r.failure = none ∧
      (soundJob.alone .standard).attached.length = 1 := by
  have h : (soundJob.alone .standard).result.toOption.map
      (fun r => (r.status, r.failure.isNone, r.evidence.length)) = some (.analyzed, true, 1) := by
    decide +kernel
  obtain ⟨r, hr, heq⟩ := Option.map_eq_some_iff.mp h
  simp only [Prod.mk.injEq, Option.isNone_iff_eq_none] at heq
  obtain ⟨hstatus, hfailure, hlength⟩ := heq
  obtain ⟨-, sub, -, hevidence, hattached, -⟩ := analyze_of_analyzed (eq_ok_of_toOption hr) hstatus
  refine ⟨r, eq_ok_of_toOption hr, hfailure, ?_⟩
  rw [← hlength, hevidence, ← hattached]
  rfl

/-- Two analyses that cross: the one that starts last finishes first. -/
def crossing : List Event := [.started 0, .started 1, .finished 1, .finished 0]

theorem outcome_of_samples :
    (∃ p, Run .standard (fun i => if i = 0 then brokenJob else soundJob) 3 (start fun _ => [])
        overlapping p ∧
      p.state = .disabled (disablingReason (.of .launchFailure "no such program")) ∧
      (p.evidence 1).length = 1 ∧
      ∃ a, p.done 2 = some a ∧ TurnedAway soundJob.lockfile soundJob.files a) ∧
    ∃ p r, Run .standard (fun _ => soundJob) 2 (start fun _ => []) crossing p ∧
      (Batch.asynchronous 2 (([1, 0].filterMap (p.completion? fun _ => soundJob)).map .completed)).results =
        .ok [r, r] ∧
      Batch.concurrent .plain true 2 [soundJob.lockfile, soundJob.lockfile]
        ([1, 0].filterMap (p.completion? fun _ => soundJob)) = .ok [r, r] := by
  obtain ⟨r, hr, hfailure, hattached⟩ := exists_result_soundJob
  constructor
  · obtain ⟨p, hp⟩ : ∃ p, overlapping.foldlM
        (next? .standard (fun i => if i = 0 then brokenJob else soundJob) 3) (start fun _ => [])
          = some p := ⟨_, rfl⟩
    have hrun := run_iff.mpr hp
    have h := follows_run hrun
    obtain ⟨hcases, hevidence, hstate, -, -⟩ := outcome_of_schedule hrun
    obtain ⟨a, ha⟩ := h.exists_done (i := 0) (by decide)
    obtain ⟨b, hb⟩ := h.exists_done (i := 1) (by decide)
    obtain ⟨c, hc⟩ := h.exists_done (i := 2) (by decide)
    have hzero : overlapping = [] ++ .started 0 :: overlapping.drop 1 := rfl
    have hone : overlapping = [.started 0] ++ .started 1 :: overlapping.drop 2 := rfl
    have htwo : overlapping = [.started 0, .started 1, .finished 0] ++ .started 2 :: overlapping.drop 4 :=
      rfl
    have hquiet : ∀ {xs}, (∀ i, .finished i ∉ xs) → ¬ p.Retired xs :=
      fun hxs ⟨i, _, _, hi, _⟩ => hxs i hi
    have hfirst : ¬ p.RetiredBefore overlapping 0 := by
      rw [h.retiredBefore_iff hzero]
      exact hquiet (by simp)
    have hsecond : ¬ p.RetiredBefore overlapping 1 := by
      rw [h.retiredBefore_iff hone]
      exact hquiet (by simp)
    obtain ⟨f, hf, hreason⟩ := Job.reason?_eq_some_iff.mp reason?_brokenJob
    have hretires : a.Retires f := ((hcases 0 a ha).2.2 hfirst).retires hf
    have hthird : p.RetiredBefore overlapping 2 :=
      (h.retiredBefore_iff htwo).mpr ⟨0, a, f, by simp, ha, hretires⟩
    refine ⟨p, hrun, (hstate _).mpr ⟨f, ?_, hreason⟩, ?_, c, hc, (hcases 2 c hc).2.1 hthird⟩
    · exact ⟨[.started 0, .started 1], 0, overlapping.drop 3, a, rfl, hquiet (by simp), ha, hretires⟩
    · rw [hevidence 1, hb]
      show b.attached.length = 1
      rw [((hcases 1 b hb).2.2 hsecond).attached]
      exact hattached
  · obtain ⟨p, hp⟩ : ∃ p, crossing.foldlM (next? .standard (fun _ => soundJob) 2) (start fun _ => [])
        = some p := ⟨_, rfl⟩
    obtain ⟨-, -, -, -, hmodes⟩ := outcome_of_schedule (run_iff.mpr hp)
    have hquiet : Quiet .standard (fun _ => soundJob) 2 fun _ => r := by
      intro i _
      refine ⟨hr, fun f hf => ?_⟩
      rw [hfailure] at hf
      cases hf
    have hall : ∀ i < 2, .finished i ∈ crossing := by decide
    have hswap : [1, 0].Perm (List.range 2) := .swap 0 1 []
    obtain ⟨hawaited, hshows⟩ := hmodes _ [1, 0] hquiet hall hswap
    have hplain : Batch.Shows .plain ((List.range 2).map fun _ => soundJob.lockfile) :=
      ⟨fun _ _ => rfl, fun _ _ _ => rfl, fun _ _ => rfl, fun _ _ _ => rfl⟩
    exact ⟨p, r, run_iff.mpr hp, congrArg Batch.Awaited.results hawaited,
      (hshows .plain hplain).1 2 true (by decide)⟩

end Pool

end LockAudit
