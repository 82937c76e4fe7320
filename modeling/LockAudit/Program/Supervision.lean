import LockAudit.Binary64.Arithmetic
import LockAudit.Program.Basic

/-!
# `LockAudit.Program.Supervision` — watching a program that runs

A program that was started is waited for in short turns. When a turn is over and the program is not,
the cancel event is looked at first and the clock second. What happens in a turn is an `Event`, and
the first event that decides brings the ending. Whoever leaves before the program has ended kills it
and waits for it once more; what comes of that is a `Reap`. Times are in seconds.

## Contents
- **Time.** `ticksPerSecond`, `turn`; `seconds?` and `deadline?`.
- **What happens.** `Event`, `Reap`, `Course`; `Refusal`, if nothing is started.
- **What is done, and the ending.** `Action`, `Ending`, `Report`.
- **`supervise`** for a program that runs, `Launch.run` for a launch as a whole.
- **For the one who asked.** `Ending.outcome?`, `Launch.outcome?`.
-/

namespace LockAudit.Program

/-! ## Time -/

/-- The ticks of the clock in a second. -/
def ticksPerSecond : Nat := 1000000

/-- The length of a turn in ticks: a fifth of a second. -/
def turn : Nat := ticksPerSecond / 5

/-- A launch with the timeout that is in effect: its own, or else the one that is standard for whoever
    runs it. -/
def Launch.effective (standard : Option Number) (l : Launch) : Launch :=
  { l with timeout := l.timeout.or standard }

/-- The time at which a run that starts at a time is over. Zero seconds and none at all leave it without
    an end. The sum is one of the clock's values, and an integer that is too great for it is an error. -/
def deadline? (start : Binary64) (timeout : Option Number) : Except Mishap (Option Binary64) :=
  match timeout with
  | none => .ok none
  | some n =>
    if !n.isSet then .ok none
    else match n.float? with
      | some x => .ok (some (start.add x))
      | none => .error .integerTooLarge

/-! ## What happens -/

/-- What happens in a turn. -/
inductive Event
  /-- The turn is over and the program is not. Then this is the cancel event and this the time. -/
  | waited (cancelled : Bool) (now : Binary64)
  /-- The program ended by itself. -/
  | ended (e : Exit)
  /-- The operator interrupts, while waiting or while the cancel event is looked at. -/
  | interrupted
  deriving DecidableEq, Repr

/-- What comes of waiting for a program that was killed. -/
inductive Reap
  /-- It has ended. -/
  | gone
  /-- It has not ended after some seconds. This is logged, and the program is left to the system. -/
  | stays
  /-- The operator interrupts. -/
  | interrupted
  deriving DecidableEq, Repr

/-- What happens to a program that was started. -/
structure Course where
  /-- The time at which it was started. -/
  start : Binary64
  /-- What happens in its turns, as far as one looks. -/
  events : List Event
  /-- What comes of waiting for it, if it is killed. -/
  reap : Reap
  /-- What comes of this the second time, if the operator interrupts the first. -/
  again : Reap
  deriving DecidableEq, Repr

/-- Why nothing is started. -/
inductive Refusal
  /-- A text holds the character that ends texts. -/
  | nullByte
  /-- The system refuses the launch. -/
  | system (reason : String)
  deriving DecidableEq, Repr

/-! ## What is done, and the ending -/

/-- What is done about a program. -/
inductive Action
  | start
  | wait
  | kill
  | reap
  /-- It is logged that a program which was killed has not ended. -/
  | warn
  deriving DecidableEq, Repr

/-- How a launch comes to its end. -/
inductive Ending
  | refused (r : Refusal)
  | completed (e : Exit)
  | cancelled
  | timedOut
  | interrupted
  /-- It was started, and then there was an error. No one waits for it. -/
  | broken (m : Mishap)
  /-- The events are over and the program still runs. -/
  | running
  deriving DecidableEq, Repr

/-- The ending, and what was done until then. -/
structure Report where
  ending : Ending
  actions : List Action
  deriving DecidableEq, Repr

/-- The report with one more turn before it. -/
def Report.later (r : Report) : Report := { r with actions := .wait :: r.actions }

/-- Kills a program and waits for it. -/
def Reap.actions : Reap → List Action
  | .gone | .interrupted => [.kill, .reap]
  | .stays => [.kill, .reap, .warn]

/-- Leaves a program that runs, as the operator has interrupted. -/
def Report.abandoned (reap : Reap) : Report := ⟨.interrupted, reap.actions⟩

/-- Ends a run by force. An operator who interrupts this has the program killed once more. -/
def Report.forced (ending : Ending) (reap again : Reap) : Report :=
  if reap = .interrupted then
    let r := Report.abandoned again
    { r with actions := reap.actions ++ r.actions }
  else ⟨ending, reap.actions⟩

/-- Watches a program until the first event that decides. -/
def supervise (deadline : Option Binary64) (reap again : Reap) : List Event → Report
  | [] => ⟨.running, []⟩
  | .ended e :: _ => Report.later ⟨.completed e, []⟩
  | .interrupted :: _ => (Report.abandoned reap).later
  | .waited cancelled now :: rest =>
    if cancelled then (Report.forced .cancelled reap again).later
    else if deadline.any (·.le now) then (Report.forced .timedOut reap again).later
    else (supervise deadline reap again rest).later

/-- What is done for a launch, if this is what happens to the program. Its deadline is found when it runs
    already. -/
def Launch.run (l : Launch) : Except Refusal Course → Report
  | .error r => ⟨.refused r, []⟩
  | .ok c =>
    match deadline? c.start l.timeout with
    | .error m => ⟨.broken m, [.start]⟩
    | .ok deadline =>
      let r := supervise deadline c.reap c.again c.events
      { r with actions := .start :: r.actions }

/-! ## For the one who asked -/

/-- The text of a timeout. -/
def timeoutText (timeout : Option Number) : String :=
  match timeout with
  | some n => String.ofList n.text
  | none => "None"

/-- What a launch that was refused comes to. -/
def Refusal.trouble (l : Launch) : Refusal → Trouble
  | .nullByte => .mishap .embeddedNull
  | .system reason => .of .launchFailure ("Unable to launch " ++ l.command ++ ": " ++ reason)

/-- What a launch comes to, if it comes to an end. -/
def Ending.outcome? (l : Launch) : Ending → Option Outcome
  | .refused r => some (.error (r.trouble l))
  | .completed e => some (.ok e)
  | .cancelled =>
    some (.error (.of .interrupted (l.command ++ " was cancelled while running")))
  | .timedOut =>
    some (.error (.of .timeout
      (l.command ++ " timed out after " ++ timeoutText l.timeout ++ "s")))
  | .interrupted => some (.error (.interrupt ""))
  | .broken m => some (.error (.mishap m))
  | .running => none

/-- What the one who asked for a launch gets, if this is what happens. -/
def Launch.outcome? (l : Launch) (c : Except Refusal Course) : Option Outcome :=
  (l.run c).ending.outcome? l

end LockAudit.Program
