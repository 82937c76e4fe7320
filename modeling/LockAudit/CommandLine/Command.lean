import LockAudit.CommandLine.Arguments
import LockAudit.Config.Environment
import LockAudit.Config.File
import LockAudit.Scan

/-!
# `LockAudit.CommandLine.Command` — the command as a whole

A command reads its line, loads the configuration, lets the environment and then the line override
it, and scans. What ends a scan early becomes a line of text and an exit code, with two exceptions: a
request to end the program passes, and so does trouble on the way to the configuration.

What a line asks for goes before what a configuration says. An empty text and a worker count of zero ask
for nothing; the other switches can only be turned the one way they are named for.

## Contents
- **Settings from the line.** `CommandLine.override`.
- **Inputs.** `Setting`, `logLevel`, `configOf`.
- **Endings.** `Ending`, `lastWords`, `handle`.
- **`Command`** and `Command.run`.
-/

namespace LockAudit

/-! ## Settings from the line -/

namespace CommandLine

/-- A text that was given and is not empty. -/
def given? (s : Option String) : Option String := s.filter (· ≠ "")

/-- A worker count that was given and is not zero, as a count of at least one. -/
def workers? (n : Option Int) : Option Nat := (n.filter (· ≠ 0)).map fun n => max 1 n.toNat

/-- The configuration with what a command line asks for. -/
def override (c : Config) (a : Arguments) : Config :=
  { c with
    maxWorkers := (workers? a.workers).getD c.maxWorkers
    parallel := c.parallel && !a.sequential
    analyzer := { c.analyzer with
      skipDev := a.skipDev.getD c.analyzer.skipDev
      policy := a.devPolicy.getD c.analyzer.policy
      command := (given? a.command).getD c.analyzer.command
      url := (given? a.url).getD c.analyzer.url }
    reporting := { c.reporting with
      failOnSeverity := a.severity.getD c.reporting.failOnSeverity
      jsonOutput := (given? a.jsonOutput).orElse fun _ => c.reporting.jsonOutput
      failOnFindings := c.reporting.failOnFindings && !a.noFail } }

end CommandLine

namespace Command

open CommandLine (Arguments Stop)

/-! ## Inputs -/

/-- Where a command runs. -/
structure Setting where
  files : FileTree
  /-- The current folder. -/
  here : Path
  environment : Config.Environment
  host : Host

/-- The least important messages that are shown. -/
def logLevel (a : Arguments) : Log.Level :=
  if a.verbose then .debug else if a.quiet then .warning else .info

/-- The folder to scan. -/
def folderOf (a : Arguments) (here : Path) : Path := .normalized here a.path

/-- The configuration of a command: the defaults or a file, then the environment, then the line. -/
def configOf (a : Arguments) (s : Setting) : Except Mishap Config := do
  let named := (CommandLine.given? a.config).map Path.ofString
  let loading ← Config.load s.files s.here (folderOf a s.here) named
  pure (CommandLine.override (loading.config.withEnvironment s.environment) a)

/-! ## Endings -/

/-- How a command ends. -/
inductive Ending
  /-- The line asked for no scan, or is wrong. -/
  | stopped (stop : Stop)
  | exited (code : Nat)
  /-- What no one handled. -/
  | escaped (trouble : Trouble)
  deriving DecidableEq, Repr

/-- The exit code after an interruption. -/
def interruptedCode : Nat := 130

/-- The exit code after any other trouble. -/
def troubleCode : Nat := 1

/-- How a command ends after a scan, and what it is to show then. -/
def lastWords : Except Trouble Scan.Verdict → Ending × List Console.Item
  | .ok v => (.exited v.exitCode, [])
  | .error t =>
    if Batch.cancels t then
      (.exited interruptedCode, [.text ("\n" ++ Console.styled "yellow" "Interrupted by user")])
    else match t with
      | .stop name message => (.escaped (.stop name message), [])
      | t => (.exited troubleCode, [.text (Console.styled "red" ("Error: " ++ t.message))])

/-- How a command ends after a scan, and what it shows then, unless the terminal refuses that. -/
def handle (d : Console.Display) (verdict : Except Trouble Scan.Verdict) : Ending × List Console.Item :=
  let (ending, words) := lastWords verdict
  match d.print words with
  | (shown, some m) => (.escaped (.mishap m), shown)
  | (shown, none) => (ending, shown)

end Command

/-! ## Commands -/

/-- What a command comes to. -/
structure Command where
  ending : Command.Ending
  /-- The level of its messages, once the line is read. -/
  level : Option Log.Level
  shown : List Console.Item
  files : FileTree
  trace : Trace

namespace Command

/-- Runs a command with its words, on a terminal. -/
def run (d : Console.Display) (s : Setting) (words : List String) : Command :=
  match CommandLine.parse words with
  | .error stop => ⟨.stopped stop, none, [], s.files, .empty⟩
  | .ok a =>
    let level := some (logLevel a)
    match configOf a s with
    | .error m => ⟨.escaped (.mishap m), level, [], s.files, .empty⟩
    | .ok c =>
      let scan := Scan.run ⟨d, !a.quiet⟩ c s.host s.here (folderOf a s.here) s.files
      let (ending, note) := handle d scan.verdict
      ⟨ending, level, scan.shown ++ note, scan.files, scan.trace⟩

end Command

end LockAudit
