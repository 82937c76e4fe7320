import LockAudit.Batch
import LockAudit.Proofs.Session.Evidence
import LockAudit.Proofs.Session.Stages
import LockAudit.Proofs.Sorting

/-!
# `LockAudit.Proofs.Batch.Crew` — a batch that workers share

A batch is put into a queue, and each worker that is free takes the next record of it. What is finished is
taken up by the batch itself, one after the other, in any order in which it comes. The first that was
interrupted ends the batch: it cancels the analyses that still run, drops the rest of the queue, and waits
for the workers. Otherwise the results are put back into the order of the records, by the record that each
result is for.

* `Workload` — records that are told apart by identity, and what the analyzer answers for each; `Delivers`
  is what a record comes to. `concurrent_completions` says that the batch of the library is the one described here.
* `Crew`, `Step`, `Run` — what workers do, one event at a time.
* `Follows` — what holds after each event: no record is lost, the batch has ended exactly if it took up an
  interruption, and the events are limited in number. `follows_run` shows it step by step.
* `exists_step` — until the batch is over, something can happen.
* `crew_outcome` — so every run comes to an end, and what it comes to does not depend on the order of events.
-/

namespace LockAudit

open Analysis

/-! ## Records and answers -/

/-- A result as a worker hands it over: with the record that it is for. -/
structure Handed (ρ : Type) where
  record : ρ
  result : Result

/-- A batch of records, what they stand for, and what the analyzer answers for each; and the terminal on
    which it may show its progress. -/
structure Workload (ρ : Type) where
  records : List ρ
  lockfile : ρ → Lockfile
  answer : ρ → Except Trouble (Handed ρ)
  workers : Int
  display : Console.Display
  progress : Bool

namespace Workload

variable {ρ : Type} (b : Workload ρ)

/-- What a worker hands over for a record: the answer, or a failure in place of an error. -/
def handed (r : ρ) : Except Trouble (Handed ρ) :=
  match b.answer r with
  | .ok h => .ok h
  | .error t => (Batch.settle (b.lockfile r) (.error t)).map fun result => ⟨r, result⟩

/-- What ends the batch when a record is taken up. -/
def failure? (r : ρ) : Option Trouble :=
  match b.handed r with
  | .ok _ => none
  | .error t => some t

/-- The answer for a record, or the failure that stands for an error. -/
def delivered (r : ρ) : Handed ρ :=
  match b.answer r with
  | .ok h => h
  | .error t => ⟨r, Batch.brokenResult (b.lockfile r) t.message⟩

/-- What a record comes to: the answer for it, or, in place of an error, an unexpected failure at the first
    stage, which has the text of the error and no evidence, for the lockfile of the record. -/
inductive Delivers (b : Workload ρ) (r : ρ) : Handed ρ → Prop
  | answer {h : Handed ρ} (hanswer : b.answer r = .ok h) : Delivers b r h
  | failure {t : Trouble} {result : Result} (hanswer : b.answer r = .error t)
      (hlockfile : result.lockfile = b.lockfile r) (hstatus : result.status = .failed)
      (hevidence : result.evidence = [])
      (hfailure : result.failure = some ⟨.unexpected, .prepare, (b.lockfile r).displayName, t.message⟩) :
      Delivers b r ⟨r, result⟩

/-- The terminal shows all that may be said of the lockfiles of the batch. -/
def IsShown : Prop := Batch.Shows b.display (b.records.map b.lockfile)

/-- Every answer is a result for the record, or an error. -/
def IsSound : Prop :=
  ∀ r ∈ b.records, (∃ result, b.answer r = .ok ⟨r, result⟩ ∧ result.lockfile = b.lockfile r) ∨
    ∃ t, b.answer r = .error t ∧ t.IsError

/-- The analysis of a record is interrupted. -/
def IsInterrupted (r : ρ) : Prop := ∃ t, b.answer r = .error t ∧ t.isInterruption = true

variable {b} {r : ρ} {taken : List ρ} {t : Trouble}

theorem failure?_eq_none_iff : b.failure? r = none ↔ ∃ h, b.handed r = .ok h := by
  unfold failure?
  cases b.handed r <;> simp

theorem failure?_eq_some_iff : b.failure? r = some t ↔ b.handed r = .error t := by
  unfold failure?
  cases b.handed r <;> simp

/-- What is not interrupted is handed over. -/
theorem handed_of_not_interrupted (hsound : b.IsSound) (hr : r ∈ b.records) (h : ¬ b.IsInterrupted r) :
    b.handed r = .ok (b.delivered r) := by
  unfold handed delivered
  rcases hsound r hr with ⟨result, hanswer, -⟩ | ⟨t, hanswer, ht⟩
  · rw [hanswer]
  · have hnot : t.isInterruption = false := by
      rw [← Bool.not_eq_true]
      intro hi
      exact h ⟨t, hanswer, hi⟩
    rw [hanswer]
    cases t with
    | audit e => simp [Batch.settle, hnot, Except.map]
    | mishap m => simp [Batch.settle, hnot, Except.map]
    | _ => cases ht

/-- An interruption is handed on. -/
theorem failure?_of_interrupted (h : b.IsInterrupted r) :
    ∃ t, b.failure? r = some t ∧ t.isInterruption = true := by
  obtain ⟨t, hanswer, hi⟩ := h
  refine ⟨t, failure?_eq_some_iff.mpr ?_, hi⟩
  unfold handed
  rw [hanswer]
  cases t with
  | audit e => simp [Batch.settle, hi, Except.map]
  | _ => simp [Trouble.isInterruption] at hi

/-- Nothing but an interruption is handed on. -/
theorem isInterruption_of_failure? (hsound : b.IsSound) (hr : r ∈ b.records) (h : b.failure? r = some t) :
    t.isInterruption = true := by
  by_cases hi : b.IsInterrupted r
  · obtain ⟨t', ht', hinterruption⟩ := failure?_of_interrupted hi
    obtain rfl : t = t' := Option.some.inj (h.symm.trans ht')
    exact hinterruption
  · rw [failure?_eq_some_iff, handed_of_not_interrupted hsound hr hi] at h
    cases h

/-- What is delivered for a record is for that record. -/
theorem record_delivered (hsound : b.IsSound) (hr : r ∈ b.records) :
    (b.delivered r).record = r ∧ (b.delivered r).result.lockfile = b.lockfile r := by
  unfold delivered
  rcases hsound r hr with ⟨result, hanswer, hlockfile⟩ | ⟨t, hanswer, -⟩
  · rw [hanswer]
    exact ⟨rfl, hlockfile⟩
  · rw [hanswer]
    exact ⟨rfl, rfl⟩

theorem delivers_delivered (b : Workload ρ) (r : ρ) : b.Delivers r (b.delivered r) := by
  unfold delivered
  cases hanswer : b.answer r with
  | ok h => exact .answer hanswer
  | error t => exact .failure hanswer rfl rfl rfl rfl

/-- Taking up records stops at the first that is interrupted. -/
theorem mapM_handed (b : Workload ρ) (taken : List ρ) :
    (∃ t, taken.findSome? b.failure? = some t ∧ taken.mapM b.handed = .error t) ∨
    ∃ hs, taken.findSome? b.failure? = none ∧ taken.mapM b.handed = .ok hs := by
  induction taken with
  | nil => exact .inr ⟨[], rfl, rfl⟩
  | cons r taken ih =>
    cases hr : b.handed r with
    | error t =>
      refine .inl ⟨t, ?_, ?_⟩
      · rw [List.findSome?_cons, failure?_eq_some_iff.mpr hr]
      · rw [List.mapM_cons, hr]
        rfl
    | ok h =>
      have hnone : b.failure? r = none := failure?_eq_none_iff.mpr ⟨h, hr⟩
      rw [List.findSome?_cons, hnone, List.mapM_cons, hr]
      rcases ih with ⟨t, hfind, hmap⟩ | ⟨hs, hfind, hmap⟩
      · exact .inl ⟨t, hfind, by rw [hmap]; rfl⟩
      · exact .inr ⟨h :: hs, hfind, by rw [hmap]; rfl⟩

/-! ## Taking up -/

section

variable [DecidableEq ρ] (b)

/-- The place of a record among all, and the place behind the last for any other record. -/
def place (r : ρ) : Nat := b.records.idxOf r

/-- The results for the records that were taken up, by the places of the records that they are for. -/
def gathered (taken : List ρ) : Except Trouble (List (Handed ρ)) :=
  (taken.mapM b.handed).map fun hs => hs.mergeSort fun x y => b.place x.record ≤ b.place y.record

/-- The end of an analysis, as the batch takes it up. -/
def completion (r : ρ) : Batch.Completion where
  place := match b.handed r with
    | .ok h => b.place h.record
    | .error _ => b.place r
  result := (b.handed r).map (·.result)

/-- What the batch comes to when it has taken up some records. -/
def outcome (taken : List ρ) : Except Trouble (List Result) :=
  Batch.concurrent b.display b.progress b.workers (b.records.map b.lockfile) (taken.map b.completion)

variable {b}

theorem gathered_of_failure (h : taken.findSome? b.failure? = some t) : b.gathered taken = .error t := by
  unfold gathered
  rcases b.mapM_handed taken with ⟨t', hfind, hmap⟩ | ⟨hs, hfind, -⟩
  · rw [hmap, ← Option.some.inj (h.symm.trans hfind)]
    rfl
  · rw [h] at hfind
    cases hfind

/-- The batch of the library collects what is handed over, with the places. -/
theorem collect_completions (b : Workload ρ) (taken : List ρ) :
    Batch.collect (taken.map b.completion) =
      (taken.mapM b.handed).map fun hs => hs.map fun h => (b.place h.record, h.result) := by
  induction taken with
  | nil => rfl
  | cons r taken ih =>
    rw [List.map_cons, Batch.collect, ih, List.mapM_cons]
    unfold completion
    cases b.handed r with
    | error t => rfl
    | ok h => cases taken.mapM b.handed <;> rfl

/-- **The batch of the library** sorts results by places as it does here by records. -/
theorem concurrent_completions (hshown : b.IsShown) (hworkers : 1 ≤ b.workers)
    (hempty : b.records = [] → taken = []) :
    b.outcome taken = (b.gathered taken).map fun hs => hs.map (·.result) := by
  unfold outcome Batch.concurrent
  by_cases hrecords : b.records = []
  · rw [hempty hrecords, hrecords]
    unfold gathered
    show Except.ok [] = Except.ok (List.map _ (List.mergeSort [] _))
    rw [List.mergeSort_nil, List.map_nil]
  · have hsome : (b.records.map b.lockfile).isEmpty = false := by simpa using hrecords
    rw [hsome, if_neg (Int.not_lt.mpr hworkers), Batch.progressFault?_of_shows hshown]
    simp only [Bool.false_eq_true, if_false, Batch.gather, Batch.inOrder, collect_completions, gathered]
    cases taken.mapM b.handed with
    | error t => rfl
    | ok hs =>
      have hsort : (hs.map fun h => (b.place h.record, h.result)).mergeSort (fun x y => x.1 ≤ y.1) =
          (hs.mergeSort fun x y => b.place x.record ≤ b.place y.record).map
            fun h => (b.place h.record, h.result) :=
        (List.map_mergeSort (f := fun h : Handed ρ => (b.place h.record, h.result)) fun _ _ _ _ => rfl).symm
      refine congrArg Except.ok ?_
      show (List.mergeSort _ _).map _ = _
      rw [hsort, List.map_map]
      rfl

/-- Places grow along the records. -/
theorem pairwise_place (h : b.records.Nodup) : b.records.Pairwise fun r s => b.place r < b.place s := by
  rw [List.pairwise_iff_getElem]
  intro i j hi hj hlt
  unfold place
  rw [h.idxOf_getElem i hi, h.idxOf_getElem j hj]
  exact hlt

/-- **Results are put back into the order of the records**, in whatever order they were taken up. -/
theorem gathered_of_perm (hrecords : b.records.Nodup) (hsound : b.IsSound)
    (hnone : ∀ r ∈ b.records, ¬ b.IsInterrupted r) (hperm : taken.Perm b.records) :
    b.gathered taken = .ok (b.records.map b.delivered) := by
  have hmap : taken.mapM b.handed = .ok (taken.map b.delivered) := by
    have hall : ∀ r ∈ taken, b.handed r = .ok (b.delivered r) := by
      intro r hr
      have hr := hperm.mem_iff.mp hr
      exact handed_of_not_interrupted hsound hr (hnone r hr)
    clear hperm
    induction taken with
    | nil => rfl
    | cons r taken ih =>
      rw [List.mapM_cons, hall r List.mem_cons_self, ih fun s hs => hall s (List.mem_cons_of_mem r hs)]
      rfl
  have hsorted : (b.records.map b.delivered).Pairwise fun x y => b.place x.record < b.place y.record := by
    refine List.pairwise_map.mpr ((pairwise_place hrecords).imp_of_mem ?_)
    intro r s hr hs hlt
    rwa [(record_delivered hsound hr).1, (record_delivered hsound hs).1]
  unfold gathered
  rw [hmap]
  exact congrArg Except.ok
    (Sorting.mergeSort_eq_of_perm (fun h : Handed ρ => b.place h.record) (hperm.map b.delivered) hsorted)

end

end Workload

/-! ## Workers -/

/-- A batch at work: the records in the queue, those that are analyzed, those that are finished, those that
    the batch has taken up, and those that it has dropped; what has ended it, whether it has closed the
    queue, and whether the analyses are cancelled. -/
structure Crew (ρ : Type) where
  waiting : List ρ
  running : List ρ
  finished : List ρ
  taken : List ρ
  dropped : List ρ
  ended : Option Trouble
  closed : Bool
  cancelled : Bool

namespace Crew

variable {ρ : Type}

/-- What happens to a record, or to the queue. -/
inductive Event (ρ : Type)
  | started (r : ρ)
  | finished (r : ρ)
  | taken (r : ρ)
  | closed

/-- All records are in the queue. Somebody else may have cancelled the analyses. -/
def start (records : List ρ) (cancelled : Bool) : Crew ρ := ⟨records, [], [], [], [], none, false, cancelled⟩

/-- A worker has begun with a record, and the others wait. -/
def begin (c : Crew ρ) (r : ρ) (rest : List ρ) : Crew ρ :=
  { c with waiting := rest, running := r :: c.running }

/-- A worker has finished a record. -/
def finish [DecidableEq ρ] (c : Crew ρ) (r : ρ) : Crew ρ :=
  { c with running := c.running.erase r, finished := r :: c.finished }

/-- The batch takes up a record that is finished. If this ends the batch, it may cancel the analyses. -/
def take [DecidableEq ρ] (b : Workload ρ) (c : Crew ρ) (r : ρ) : Crew ρ :=
  { c with
    finished := c.finished.erase r
    taken := c.taken ++ [r]
    ended := b.failure? r
    cancelled := c.cancelled || (b.failure? r).any Batch.cancels }

/-- The batch drops what is in the queue. -/
def close (c : Crew ρ) : Crew ρ := { c with waiting := [], dropped := c.waiting, closed := true }

/-- One event: a worker that is free begins with the next record, a worker finishes, the batch takes up a
    record unless it has ended, or it closes the queue. -/
inductive Step [DecidableEq ρ] (b : Workload ρ) (c : Crew ρ) : Event ρ → Crew ρ → Prop
  | begin {r : ρ} {rest : List ρ} (hfree : (c.running.length : Int) < b.workers)
      (hnext : c.waiting = r :: rest) : Step b c (.started r) (c.begin r rest)
  | finish {r : ρ} (hr : r ∈ c.running) : Step b c (.finished r) (c.finish r)
  | take {r : ρ} (hr : r ∈ c.finished) (hopen : c.ended = none) : Step b c (.taken r) (c.take b r)
  | close {t : Trouble} (hended : c.ended = some t) (ht : Batch.cancels t = true) (hopen : c.closed = false) :
      Step b c .closed c.close

/-- A row of events. -/
inductive Run [DecidableEq ρ] (b : Workload ρ) (p : Crew ρ) : List (Event ρ) → Crew ρ → Prop
  | nil : Run b p [] p
  | snoc {es : List (Event ρ)} {e : Event ρ} {c c' : Crew ρ} (h : Run b p es c) (hstep : Step b c e c') :
      Run b p (es ++ [e]) c'

/-- The batch returns: it has taken up all records, or what ended it has also stopped the workers. -/
def Over (c : Crew ρ) : Prop :=
  (c.ended = none ∧ c.waiting = [] ∧ c.running = [] ∧ c.finished = []) ∨
  ∃ t, c.ended = some t ∧ (Batch.cancels t = true → c.closed = true ∧ c.running = [])

/-- How many events there can still be. -/
def left (c : Crew ρ) : Nat :=
  3 * c.waiting.length + 2 * c.running.length + c.finished.length + (!c.closed).toNat

/-- What the events so far say about a batch. -/
structure Follows (b : Workload ρ) (es : List (Event ρ)) (c : Crew ρ) : Prop where
  perm : (c.taken ++ (c.finished ++ (c.running ++ (c.waiting ++ c.dropped)))).Perm b.records
  ended : c.ended = c.taken.findSome? b.failure?
  cancelled : ∀ t, c.ended = some t → Batch.cancels t = true → c.cancelled = true
  dropped : c.ended = none → c.dropped = []
  not_closed : c.closed = false → c.dropped = []
  ran : ∀ r, .started r ∈ es → r ∈ c.taken ∨ r ∈ c.finished ∨ r ∈ c.running
  few : es.length + c.left ≤ 3 * b.records.length + 1

variable {b : Workload ρ} {es : List (Event ρ)} {c c' : Crew ρ} {e : Event ρ} {r : ρ}

theorem follows_start (b : Workload ρ) (cancelled : Bool) : Follows b [] (start b.records cancelled) where
  perm := by simp [start]
  ended := rfl
  cancelled := by simp [start]
  dropped := fun _ => rfl
  not_closed := fun _ => rfl
  ran := by simp
  few := by simp [left, start]

namespace Follows

variable (h : Follows b es c)
include h

/-- What the batch has taken up are records of it. -/
theorem mem_records (hr : r ∈ c.taken) : r ∈ b.records := h.perm.mem_iff.mp (List.mem_append_left _ hr)

/-- What ended the batch is an interruption. -/
theorem isInterruption (hsound : b.IsSound) {t : Trouble} (ht : c.ended = some t) : t.isInterruption = true := by
  rw [h.ended] at ht
  obtain ⟨r, hr, hfailure⟩ := List.exists_of_findSome?_eq_some ht
  exact Workload.isInterruption_of_failure? hsound (h.mem_records hr) hfailure

/-- An event of another kind adds nothing to what was begun. -/
theorem ran_snoc (he : ∀ r, e ≠ .started r) (hr : .started r ∈ es ++ [e]) :
    r ∈ c.taken ∨ r ∈ c.finished ∨ r ∈ c.running := by
  rcases List.mem_append.mp hr with hr | hr
  · exact h.ran r hr
  · exact absurd (List.mem_singleton.mp hr).symm (he r)

theorem begin {rest : List ρ} (hnext : c.waiting = r :: rest) :
    Follows b (es ++ [.started r]) (c.begin r rest) where
  perm := by
    have hmove : (r :: c.running ++ (rest ++ c.dropped)).Perm (c.running ++ (r :: rest ++ c.dropped)) :=
      List.perm_middle.symm
    have hperm := h.perm
    rw [hnext] at hperm
    exact ((hmove.append_left _).append_left _).trans hperm
  ended := h.ended
  cancelled := h.cancelled
  dropped := h.dropped
  not_closed := h.not_closed
  ran := by
    intro s hs
    show s ∈ c.taken ∨ s ∈ c.finished ∨ s ∈ r :: c.running
    rcases List.mem_append.mp hs with hs | hs
    · exact (h.ran s hs).imp_right (Or.imp_right (List.mem_cons_of_mem r))
    · cases List.mem_singleton.mp hs
      exact .inr (.inr List.mem_cons_self)
  few := by
    have hfew := h.few
    simp only [left, Crew.begin, hnext, List.length_append, List.length_cons, List.length_nil] at hfew ⊢
    omega

theorem close {t : Trouble} (hended : c.ended = some t) (hopen : c.closed = false) :
    Follows b (es ++ [.closed]) c.close where
  perm := by
    have hperm := h.perm
    rw [h.not_closed hopen, List.append_nil] at hperm
    exact hperm
  ended := h.ended
  cancelled := h.cancelled
  dropped := by
    intro hnone
    rw [show c.close.ended = c.ended from rfl, hended] at hnone
    cases hnone
  not_closed := by
    intro hclosed
    cases hclosed
  ran := by
    intro s hs
    exact h.ran_snoc (fun _ => by simp) hs
  few := by
    have hfew := h.few
    simp only [left, Crew.close, hopen, List.length_append, List.length_cons, List.length_nil,
      Bool.not_false, Bool.not_true, Bool.toNat_true, Bool.toNat_false] at hfew ⊢
    omega

variable [DecidableEq ρ]

theorem finish (hr : r ∈ c.running) : Follows b (es ++ [.finished r]) (c.finish r) where
  perm := by
    have hmove : (r :: c.finished ++ (c.running.erase r ++ (c.waiting ++ c.dropped))).Perm
        (c.finished ++ (c.running ++ (c.waiting ++ c.dropped))) :=
      List.perm_middle.symm.trans
        (((List.perm_cons_erase hr).symm.append_right (c.waiting ++ c.dropped)).append_left c.finished)
    exact (hmove.append_left _).trans h.perm
  ended := h.ended
  cancelled := h.cancelled
  dropped := h.dropped
  not_closed := h.not_closed
  ran := by
    intro s hs
    show s ∈ c.taken ∨ s ∈ r :: c.finished ∨ s ∈ c.running.erase r
    by_cases heq : s = r
    · subst heq
      exact .inr (.inl List.mem_cons_self)
    · rw [List.mem_erase_of_ne heq, List.mem_cons]
      exact (h.ran_snoc (fun _ => by simp) hs).imp_right (Or.imp_left .inr)
  few := by
    have hfew := h.few
    have hlength := List.length_erase_of_mem hr
    have hpos := List.length_pos_of_mem hr
    simp only [left, Crew.finish, List.length_append, List.length_cons, List.length_nil, hlength] at hfew ⊢
    omega

theorem take (hr : r ∈ c.finished) (hopen : c.ended = none) : Follows b (es ++ [.taken r]) (c.take b r) where
  perm := by
    have hmove : (c.taken ++ [r] ++ (c.finished.erase r ++ (c.running ++ (c.waiting ++ c.dropped)))).Perm
        (c.taken ++ (c.finished ++ (c.running ++ (c.waiting ++ c.dropped)))) := by
      rw [List.append_assoc]
      exact ((List.perm_cons_erase hr).symm.append_right _).append_left c.taken
    exact hmove.trans h.perm
  ended := by
    have hnone := h.ended.symm.trans hopen
    show b.failure? r = (c.taken ++ [r]).findSome? b.failure?
    rw [List.findSome?_append, hnone, Option.none_or, List.findSome?_singleton]
  cancelled := by
    intro t ht hcancels
    have ht : b.failure? r = some t := ht
    show (c.cancelled || (b.failure? r).any Batch.cancels) = true
    rw [ht, Option.any_some, hcancels, Bool.or_true]
  dropped := fun _ => h.dropped hopen
  not_closed := h.not_closed
  ran := by
    intro s hs
    show s ∈ c.taken ++ [r] ∨ s ∈ c.finished.erase r ∨ s ∈ c.running
    by_cases heq : s = r
    · subst heq
      exact .inl (by simp)
    · rw [List.mem_erase_of_ne heq, List.mem_append]
      exact (h.ran_snoc (fun _ => by simp) hs).imp_left .inl
  few := by
    have hfew := h.few
    have hlength := List.length_erase_of_mem hr
    have hpos := List.length_pos_of_mem hr
    simp only [left, Crew.take, List.length_append, List.length_cons, List.length_nil, hlength] at hfew ⊢
    omega

theorem step (hstep : Step b c e c') : Follows b (es ++ [e]) c' := by
  cases hstep with
  | begin hfree hnext => exact h.begin hnext
  | finish hr => exact h.finish hr
  | take hr hopen => exact h.take hr hopen
  | close hended ht hopen => exact h.close hended hopen

end Follows

/-- **A batch follows its events.** -/
theorem follows_run [DecidableEq ρ] {cancelled : Bool} (h : Run b (start b.records cancelled) es c) :
    Follows b es c := by
  -- Each step adds its event behind those that the invariant speaks of.
  induction h with
  | nil => exact follows_start b cancelled
  | snoc h hstep ih => exact ih.step hstep

/-- **Until the batch is over, something can happen.** -/
theorem exists_step [DecidableEq ρ] (hworkers : 1 ≤ b.workers) (h : ¬ c.Over) : ∃ e c', Step b c e c' := by
  have hrunning : c.running ≠ [] → ∃ e c', Step b c e c' := by
    intro hne
    obtain ⟨r, hr⟩ := List.exists_mem_of_ne_nil _ hne
    exact ⟨_, _, .finish hr⟩
  cases hended : c.ended with
  | none =>
    by_cases hr : c.running = []
    · by_cases hf : c.finished = []
      · cases hw : c.waiting with
        | nil => exact absurd (.inl ⟨hended, hw, hr, hf⟩) h
        | cons r rest =>
          refine ⟨_, _, .begin ?_ hw⟩
          rw [hr]
          exact hworkers
      · obtain ⟨r, hr⟩ := List.exists_mem_of_ne_nil _ hf
        exact ⟨_, _, .take hr hended⟩
    · exact hrunning hr
  | some t =>
    have hnot : ¬ (Batch.cancels t = true → c.closed = true ∧ c.running = []) :=
      fun hall => h (.inr ⟨t, hended, hall⟩)
    obtain ⟨ht, hnot⟩ := Classical.not_imp.mp hnot
    cases hclosed : c.closed with
    | false => exact ⟨_, _, .close hended ht hclosed⟩
    | true => exact hrunning fun hr => hnot ⟨hclosed, hr⟩

/-! ## Outcomes -/

theorem cancels_of_isInterruption {t : Trouble} (h : t.isInterruption = true) : Batch.cancels t = true := by
  cases t with
  | interrupt message => rfl
  | _ => exact h

/-- A batch that ends without an interruption has taken up all records. -/
theorem perm_taken (h : Follows b es c) (hover : c.Over) (hended : c.ended = none) :
    c.taken.Perm b.records ∧ c.finished = [] ∧ c.running = [] := by
  rcases hover with ⟨-, hw, hr, hf⟩ | ⟨t, ht, -⟩
  · have hperm := h.perm
    rw [hw, hr, hf, h.dropped hended] at hperm
    exact ⟨by simpa using hperm, hf, hr⟩
  · rw [hended] at ht
    cases ht

section

variable [DecidableEq ρ] (h : Follows b es c) (hsound : b.IsSound) (hshown : b.IsShown)
  (hworkers : 1 ≤ b.workers)
include h hshown hworkers

/-- What the batch of the library makes of the records that were taken up. -/
theorem outcome_taken : b.outcome c.taken = (b.gathered c.taken).map fun hs => hs.map (·.result) := by
  refine Workload.concurrent_completions hshown hworkers ?_
  intro hnil
  have hperm := h.perm
  rw [hnil, List.perm_nil] at hperm
  exact (List.append_eq_nil_iff.mp hperm).1

include hsound

/-- Without an interruption nothing ends the batch, and the records come back in their order. -/
theorem outcome_of_not_interrupted (hrecords : b.records.Nodup) (hover : c.Over)
    (hnone : ∀ r ∈ b.records, ¬ b.IsInterrupted r) :
    b.gathered c.taken = .ok (b.records.map b.delivered) ∧
    b.outcome c.taken = .ok ((b.records.map b.delivered).map (·.result)) := by
  have hended : c.ended = none := by
    rw [h.ended, List.findSome?_eq_none_iff]
    intro r hr
    have hr := h.mem_records hr
    exact Workload.failure?_eq_none_iff.mpr
      ⟨_, Workload.handed_of_not_interrupted hsound hr (hnone r hr)⟩
  have hgathered := Workload.gathered_of_perm hrecords hsound hnone (perm_taken h hover hended).1
  refine ⟨hgathered, ?_⟩
  rw [outcome_taken h hshown hworkers, hgathered]
  rfl

/-- An analysis that has begun and is interrupted ends the batch, itself or after another. -/
theorem outcome_of_interrupted (hover : c.Over) (hr : .started r ∈ es) (hi : b.IsInterrupted r) :
    ∃ t, t.isInterruption = true ∧ b.outcome c.taken = .error t ∧ c.cancelled = true := by
  obtain ⟨t, hfailure, -⟩ := Workload.failure?_of_interrupted hi
  cases hended : c.ended with
  | none =>
    -- Then the batch has taken it up, and that would have ended it.
    obtain ⟨-, hfinished, hrunning⟩ := perm_taken h hover hended
    rcases h.ran r hr with htaken | hr | hr
    · have hnone := List.findSome?_eq_none_iff.mp (h.ended.symm.trans hended) r htaken
      rw [hfailure] at hnone
      cases hnone
    · rw [hfinished] at hr
      cases hr
    · rw [hrunning] at hr
      cases hr
  | some t' =>
    have hinterruption := h.isInterruption hsound hended
    refine ⟨t', hinterruption, ?_, h.cancelled t' hended (cancels_of_isInterruption hinterruption)⟩
    rw [outcome_taken h hshown hworkers, Workload.gathered_of_failure (h.ended.symm.trans hended)]
    rfl

end

/-- **What a batch comes to.** Let the records of a batch be distinct, let every answer of the analyzer be a
    result for its record or an error, and let the terminal show what is said of the lockfiles. With one worker
    or more, the batch comes to an end, whatever happens: until it is over something can happen, and there is an
    end to that. If no analysis is interrupted it has, in whatever order things happened, one result for each
    record, in the order of the records and for these records: the answer, or a failure of an unexpected kind
    with the text of the error. If an analysis that has run was interrupted, the batch ends with an
    interruption, and the analyses are cancelled. -/
theorem crew_outcome [DecidableEq ρ] (hrecords : b.records.Nodup) (hsound : b.IsSound) (hshown : b.IsShown)
    (hworkers : 1 ≤ b.workers) {cancelled : Bool} (hrun : Run b (start b.records cancelled) es c) :
    (¬ c.Over → ∃ e c', Step b c e c') ∧
    es.length ≤ 3 * b.records.length + 1 ∧
    (c.Over → (∀ r ∈ b.records, ¬ b.IsInterrupted r) →
      ∃ hs, b.gathered c.taken = .ok hs ∧ b.outcome c.taken = .ok (hs.map (·.result)) ∧
        hs = b.records.map b.delivered ∧ (∀ r ∈ b.records, b.Delivers r (b.delivered r)) ∧
        hs.length = b.records.length ∧ hs.map (·.record) = b.records ∧
        hs.map (·.result.lockfile) = b.records.map b.lockfile) ∧
    (c.Over → (∃ r, .started r ∈ es ∧ b.IsInterrupted r) →
      ∃ t, t.isInterruption = true ∧ b.outcome c.taken = .error t ∧ c.cancelled = true) := by
  have h := follows_run hrun
  refine ⟨exists_step hworkers, Nat.le_trans (Nat.le_add_right _ _) h.few, ?_, ?_⟩
  · intro hover hnone
    obtain ⟨hgathered, houtcome⟩ := outcome_of_not_interrupted h hsound hshown hworkers hrecords hover hnone
    refine ⟨_, hgathered, houtcome, rfl, ?_, List.length_map _, ?_, ?_⟩
    · intro r _
      exact b.delivers_delivered r
    · rw [List.map_map]
      exact (List.map_congr_left fun r hr => (Workload.record_delivered hsound hr).1).trans (List.map_id _)
    · rw [List.map_map]
      exact List.map_congr_left fun r hr => (Workload.record_delivered hsound hr).2
  · rintro hover ⟨r, hr, hi⟩
    exact outcome_of_interrupted h hsound hshown hworkers hover hr hi

/-- Two records, for the first of which there is no result. Their progress is shown. -/
def sampleWorkload (workers : Int) (t : Trouble) : Workload Nat where
  records := [7, 3]
  lockfile := fun _ => Session.sampleLockfile
  answer := fun r => if r = 7 then .error t else .ok ⟨r, .of Session.sampleLockfile .analyzed⟩
  workers := workers
  display := .plain
  progress := true

theorem isSound_sampleWorkload {workers : Int} {t : Trouble} (ht : t.IsError) :
    (sampleWorkload workers t).IsSound := by
  intro r hr
  by_cases h : r = 7
  · exact .inr ⟨t, if_pos h, ht⟩
  · exact .inl ⟨_, if_neg h, rfl⟩

theorem isShown_sampleWorkload (workers : Int) (t : Trouble) : (sampleWorkload workers t).IsShown where
  announcement := fun _ _ => rfl
  conclusion := fun _ _ _ => rfl
  waitingLine := fun _ _ => rfl
  doneLine := fun _ _ _ => rfl

/-- Two workers, and an analysis that breaks. -/
def brokenSample : Workload Nat := sampleWorkload 2 (.mishap (.foreign "ValueError" "broken"))

/-- One worker, and an analysis that is interrupted. -/
def stoppedSample : Workload Nat := sampleWorkload 1 (.of .interrupted "stopped")

theorem crew_outcome_samples :
    (∃ es c, Run brokenSample (start [7, 3] false) es c ∧ c.taken = [3, 7] ∧
      brokenSample.outcome c.taken =
        .ok [⟨Session.sampleLockfile, .failed, [],
            some ⟨.unexpected, .prepare, Session.sampleLockfile.displayName, "broken"⟩, noTime⟩,
          ⟨Session.sampleLockfile, .analyzed, [], none, noTime⟩]) ∧
    ∃ es c t, Run stoppedSample (start [7, 3] false) es c ∧ c.dropped = [3] ∧ t.isInterruption = true ∧
      c.cancelled = true ∧ stoppedSample.outcome c.taken = .error t := by
  constructor
  · have hsound : brokenSample.IsSound := isSound_sampleWorkload trivial
    have hshown : brokenSample.IsShown := isShown_sampleWorkload _ _
    have hnone : ∀ r ∈ brokenSample.records, ¬ brokenSample.IsInterrupted r := by
      rintro r - ⟨t, ht, hi⟩
      by_cases h : r = 7
      · rw [← Except.error.inj ((if_pos h).symm.trans ht)] at hi
        cases hi
      · cases (if_neg h).symm.trans ht
    -- The record that is begun last is finished first.
    have hbegun : Run brokenSample (start [7, 3] false) _ (((start [7, 3] false).begin 7 [3]).begin 3 []) :=
      (Run.nil.snoc (.begin (by decide) rfl)).snoc (.begin (by decide) rfl)
    have hfirst := (hbegun.snoc (.finish (r := 3) (by decide))).snoc (.take (r := 3) (by decide) rfl)
    have hrun := (hfirst.snoc (.finish (r := 7) (by decide))).snoc (.take (r := 7) (by decide) rfl)
    have h := crew_outcome (by decide) hsound hshown (by decide) hrun
    obtain ⟨hs, -, houtcome, rfl, -⟩ := h.2.2.1 (.inl ⟨rfl, rfl, rfl, rfl⟩) hnone
    exact ⟨_, _, hrun, rfl, houtcome⟩
  · have hsound : stoppedSample.IsSound := isSound_sampleWorkload trivial
    have hshown : stoppedSample.IsShown := isShown_sampleWorkload _ _
    have hbegun : Run stoppedSample (start [7, 3] false) _ ((start [7, 3] false).begin 7 [3]) :=
      Run.nil.snoc (.begin (by decide) rfl)
    have htaken := (hbegun.snoc (.finish (r := 7) (by decide))).snoc (.take (r := 7) (by decide) rfl)
    have hrun := htaken.snoc (.close rfl rfl rfl)
    have h := crew_outcome (by decide) hsound hshown (by decide) hrun
    obtain ⟨t, ht, houtcome, hcancelled⟩ :=
      h.2.2.2 (.inr ⟨_, rfl, fun _ => ⟨rfl, rfl⟩⟩) ⟨7, by simp, _, rfl, rfl⟩
    exact ⟨_, _, t, hrun, rfl, ht, hcancelled, houtcome⟩

end Crew

end LockAudit
