import LockAudit.Failure
import LockAudit.Json.Value
import LockAudit.Path

/-!
# `LockAudit.Program.Basic` — programs that are run

What is asked for (`Launch`) and what a program that ended left behind (`Exit`).
-/

namespace LockAudit.Program

/-- A program to run. -/
structure Launch where
  command : String
  arguments : List String
  /-- The folder to run it in, if it is not the current one. -/
  folder : Option Path
  /-- Seconds after which it is stopped. -/
  timeout : Option Number
  deriving DecidableEq, Repr

/-- The command with its arguments. -/
def Launch.words (l : Launch) : List String := l.command :: l.arguments

/-- What a program left behind. A program that a signal ended has the signal's number as its code,
    below zero. -/
structure Exit where
  code : Int
  stdout : String
  stderr : String
  deriving DecidableEq, Repr

/-- The result of running a program. -/
abbrev Outcome := Except Trouble Exit

end LockAudit.Program
