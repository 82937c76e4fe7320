import LockAudit.Report

/-!
# `LockAudit.Batch` — analyzing many lockfiles

Each lockfile gets a result: what the analyzer returned, or, if the analyzer itself broke, a failure
at the first stage (`settle`). Only an interruption or a request to end the program ends a batch, and a
terminal that refuses a text that is handed to it.

Lockfiles are analyzed one after the other (`sequential`), or at the same time by a number of workers.
In the second case what counts is the order in which analyses complete: `concurrent` takes the
completions in that order, and its results are in the order of the lockfiles whatever that order was.
It may show a progress display with a line for each lockfile. In the third way the analyses are awaited
(`asynchronous`), and nothing is shown.

## Contents
- **One lockfile.** `settle`; what is shown for it.
- **One after the other.** `Outcome`, `sequential`.
- **By workers.** `Completion`, `gather`, `concurrent`.
- **Awaited.** `Arrival`, `asynchronous`.
-/

namespace LockAudit.Batch

open LockAudit.Analysis

/-- The result for a lockfile whose analysis broke. -/
def brokenResult (l : Lockfile) (message : String) : Result :=
  { Result.of l .failed with failure := some ⟨.unexpected, .prepare, l.displayName, message⟩ }

/-- The result for a lockfile, unless its analysis was interrupted or the program is to end. -/
def settle (l : Lockfile) : Except Trouble Result → Except Trouble Result
  | .ok r => .ok r
  | .error (.interrupt message) => .error (.interrupt message)
  | .error (.stop name message) => .error (.stop name message)
  | .error t => if t.isInterruption then .error t else .ok (brokenResult l t.message)

/-- The mark of a result. -/
def badge (r : Result) : String :=
  match r.status with
  | .failed => Console.styled "red" "✗"
  | .disabled => Console.styled "yellow" "-"
  | _ => Console.styled "green" "✓"

/-- What is shown before a lockfile is analyzed. -/
def announcement (l : Lockfile) : Console.Item :=
  .text (Console.styled "cyan" ("Analyzing " ++ l.displayName ++ "..."))

/-- What is shown after a lockfile was analyzed. -/
def conclusion (l : Lockfile) (r : Result) : Console.Item :=
  .text ("  " ++ badge r ++ " " ++ l.displayName ++ ": " ++ Nat.repr r.evidence.length
    ++ " vulnerabilities (" ++ Report.secondsText r.seconds ++ ")")

/-- The line of a lockfile in the progress display, until its analysis has come to an end. -/
def waitingLine (l : Lockfile) : Console.Item := .task (Console.styled "cyan" l.displayName)

/-- The line of a lockfile that has a result. -/
def doneLine (l : Lockfile) (r : Result) : Console.Item :=
  .task (badge r ++ " " ++ l.displayName ++ ": " ++ Nat.repr r.evidence.length ++ " vulnerabilities")

/-- The terminal shows all that may be said of some lockfiles, as a batch of them relies on. -/
structure Shows (d : Console.Display) (ls : List Lockfile) : Prop where
  announcement : ∀ l ∈ ls, d.fault? (announcement l) = none
  conclusion : ∀ l ∈ ls, ∀ r, d.fault? (conclusion l r) = none
  waitingLine : ∀ l ∈ ls, d.fault? (waitingLine l) = none
  doneLine : ∀ l ∈ ls, ∀ r, d.fault? (doneLine l r) = none

/-! ## One after the other -/

/-- What a batch comes to: the results or what ended it, what was shown, and a state that the
    analyses hand on. -/
structure Outcome (σ : Type) where
  results : Except Trouble (List Result)
  shown : List Console.Item
  state : σ

/-- Puts a result in front of a batch. -/
def Outcome.cons {σ : Type} (r : Result) (shown : List Console.Item) (o : Outcome σ) : Outcome σ :=
  ⟨o.results.map (r :: ·), shown ++ o.shown, o.state⟩

/-- Analyzes lockfiles one after the other. -/
def sequential {σ : Type} (d : Console.Display) (analyze : σ → Lockfile → Except Trouble Result × σ) :
    σ → List Lockfile → Outcome σ
  | s, [] => ⟨.ok [], [], s⟩
  | s, l :: ls =>
    match d.fault? (announcement l) with
    | some m => ⟨.error (.mishap m), [], s⟩
    | none =>
      let (result, s) := analyze s l
      match settle l result with
      | .error t => ⟨.error t, [announcement l], s⟩
      | .ok r =>
        match d.fault? (conclusion l r) with
        | some m => ⟨.error (.mishap m), [announcement l], s⟩
        | none => (sequential d analyze s ls).cons r [announcement l, conclusion l r]

/-! ## By workers -/

/-- The end of one analysis: the place of its lockfile, and what it came to. -/
structure Completion where
  place : Nat
  result : Except Trouble Result

/-- The first completion that ends the batch, or the results with their places. -/
def collect : List Completion → Except Trouble (List (Nat × Result))
  | [] => .ok []
  | c :: cs =>
    match c.result with
    | .error t => .error t
    | .ok r => (collect cs).map ((c.place, r) :: ·)

/-- The results with their places, in the order of the places. -/
def inOrder (rs : List (Nat × Result)) : List (Nat × Result) := rs.mergeSort fun a b => a.1 ≤ b.1

/-- The results of completions, in the order of their lockfiles. -/
def gather (cs : List Completion) : Except Trouble (List Result) :=
  (collect cs).map fun rs => (inOrder rs).map (·.2)

/-- The results that come before the first completion that ends the batch. -/
def taken : List Completion → List (Nat × Result)
  | [] => []
  | c :: cs =>
    match c.result with
    | .error _ => []
    | .ok r => (c.place, r) :: taken cs

/-- What the progress display shows: a line for each lockfile before the first result is there, and in the
    end those of the lockfiles that have one. -/
def progressLines (ls : List Lockfile) (cs : List Completion) : List Console.Item :=
  ls.map waitingLine ++ (inOrder (taken cs)).filterMap fun p => ls[p.1]?.map fun l => doneLine l p.2

/-- What goes wrong with the progress display, if it is wanted. -/
def progressFault? (d : Console.Display) (progress : Bool) (ls : List Lockfile) (cs : List Completion) :
    Option Mishap :=
  if progress then (progressLines ls cs).findSome? d.fault? else none

/-- The progress display of a batch is drawn on a terminal that shows all that may be said of it. -/
theorem progressFault?_of_shows {d : Console.Display} {ls : List Lockfile} (h : Shows d ls) (progress : Bool)
    (cs : List Completion) : progressFault? d progress ls cs = none := by
  have hlines : d.Shows (progressLines ls cs) := by
    intro i hi
    rcases List.mem_append.mp hi with hi | hi
    · obtain ⟨l, hl, rfl⟩ := List.mem_map.mp hi
      exact h.waitingLine l hl
    · obtain ⟨p, -, hp⟩ := List.mem_filterMap.mp hi
      obtain ⟨l, hl, rfl⟩ := Option.map_eq_some_iff.mp hp
      exact h.doneLine l (List.mem_of_getElem? hl) p.2
  unfold progressFault?
  split
  · exact Console.Display.findSome?_of_shows hlines
  · rfl

/-- Whether what ended a batch cancels the analyses that still run. -/
def cancels : Trouble → Bool
  | .interrupt _ => true
  | t => t.isInterruption

/-- A batch with a number of workers, from its completions in the order in which they happened. What the
    progress display refuses goes before everything else: it is drawn once more when the batch is left. -/
def concurrent (d : Console.Display) (progress : Bool) (workers : Int) (ls : List Lockfile)
    (cs : List Completion) : Except Trouble (List Result) :=
  if ls.isEmpty then .ok []
  else if workers < 1 then .error (.mishap .noWorkers)
  else match progressFault? d progress ls cs with
    | some m => .error (.mishap m)
    | none => gather cs

/-! ## Awaited -/

/-- What comes to one who awaits a batch. -/
inductive Arrival
  | completed (c : Completion)
  /-- The one who awaits is cancelled. -/
  | cancelled

/-- What a batch that is awaited comes to, and whether the analyses that still run are cancelled. -/
structure Awaited where
  results : Except Trouble (List Result)
  cancelled : Bool

/-- What a cancelled task ends with. -/
def cancellation : Trouble := .stop "CancelledError" ""

/-- Awaits analyses: the first error among them is handed on, and they are cancelled only by a
    cancellation. -/
def await : List Arrival → Except Trouble (List (Nat × Result)) × Bool
  | [] => (.ok [], false)
  | .cancelled :: _ => (.error cancellation, true)
  | .completed c :: as =>
    match c.result with
    | .error t => (.error t, false)
    | .ok r =>
      let (rs, cancelled) := await as
      (rs.map ((c.place, r) :: ·), cancelled)

/-- The results for a number of places, each as it stands in its place. -/
def inPlaces (n : Nat) (rs : List (Nat × Result)) : List Result :=
  (List.range n).filterMap fun i => (rs.find? fun p => p.1 == i).map (·.2)

/-- A batch that is awaited, from what comes in the order in which it comes. -/
def asynchronous (n : Nat) (as : List Arrival) : Awaited :=
  let (rs, cancelled) := await as
  ⟨rs.map (inPlaces n), cancelled⟩

end LockAudit.Batch
