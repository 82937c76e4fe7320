/-!
# `LockAudit.Shell.Script` — commands of the shell

A script is a command; a command is a simple one, which names a program with its arguments, or is made
of other commands. A word of a simple command has parts, some of which the shell replaces before the
command runs. Characters stand for bytes.
-/

namespace LockAudit.Shell

/-- What a parameter gives when it is not set. -/
inductive Fallback
  | nothing
  /-- A word for a parameter that is not set. -/
  | unset (word : List Char)
  /-- A word for a parameter that is not set or is empty. -/
  | blank (word : List Char)
  /-- The length of the value. -/
  | length
  deriving DecidableEq, Repr

/-- A simple expression over integers. -/
inductive Sum
  | number (n : Int)
  | variable (name : String)
  | binary (op : Char) (left right : Sum)
  deriving DecidableEq, Repr

/-- Where a redirection leads. -/
inductive Direction
  | input
  | output
  | append
  /-- To where another descriptor leads. -/
  | duplicate
  /-- From a text that stands in the script. -/
  | here
  deriving DecidableEq, Repr

mutual

/-- A part of a word. -/
inductive Part
  | text (s : List Char)
  | quoted (s : List Char)
  | parameter (name : String) (fallback : Fallback) (isQuoted : Bool)
  /-- What a script writes. -/
  | output (script : List Char) (isQuoted : Bool)
  | sum (e : Sum) (isQuoted : Bool)

/-- A redirection of a descriptor. -/
inductive Redirection
  | mk (descriptor : Nat) (direction : Direction) (target : List Part)

/-- A command. -/
inductive Command
  | nothing
  | simple (line : Nat) (assignments : List (String × List Part)) (words : List (List Part))
      (redirections : List Redirection)
  | pipe (left right : Command)
  | negation (c : Command)
  | both (left right : Command)
  | either (left right : Command)
  | sequence (left right : Command)
  | background (c : Command)
  /-- In a shell of its own. -/
  | apart (c : Command) (redirections : List Redirection)
  | group (c : Command) (redirections : List Redirection)
  | condition (test first second : Command)
  /-- Repeated while the test succeeds, or until it does. -/
  | loop (isUntil : Bool) (test body : Command)
  | each (name : String) (words : List (List Part)) (body : Command)
  /-- The first command of which a pattern matches a word. -/
  | choice (word : List Part) (cases : List (List (List Part) × Command))
  /-- Gives a command a name. -/
  | definition (name : String) (body : Command)

end

/-- A word: parts one after the other. -/
abbrev Word := List Part

end LockAudit.Shell
