import LockAudit.CommandLine.Options
import LockAudit.Config.Basic
import LockAudit.Text.Printable

/-!
# `LockAudit.CommandLine.Arguments` — what a command line asks for

`parse` reads a command line from the left. It ends early with an explanation of what is wrong, or
because help or the version is asked for. An option that is given twice has its last value.

## Contents
- **`Arguments`** and **`Stop`**.
- **Values.** `store`, which gives an option its value.
- **Clusters.** `uses`, the options that one word names.
- **The line.** `run`, `parse`.
-/

namespace LockAudit.CommandLine

open LockAudit.Text

/-- What a command line asks for. -/
structure Arguments where
  path : String
  skipDev : Option Bool
  devPolicy : Option DevPolicy
  command : Option String
  url : Option String
  workers : Option Int
  sequential : Bool
  severity : Option Severity
  jsonOutput : Option String
  noFail : Bool
  config : Option String
  verbose : Bool
  quiet : Bool
  deriving DecidableEq, Repr

/-- An empty command line. -/
def Arguments.empty : Arguments :=
  ⟨".", none, none, none, none, none, false, none, none, false, none, false, false⟩

/-- Why a command line is not carried out. -/
inductive Stop
  | help
  | version
  /-- Something is wrong with it. -/
  | wrong (message : String)
  deriving DecidableEq, Repr

/-- How the program names itself and its version. -/
def versionText : String := "yarn-audit-scan 0.1.0\n"

/-! ## Values -/

/-- An option's names, as messages give them. -/
def Key.title (k : Key) : String := "/".intercalate k.names

/-- Something is wrong with the use of an option. -/
def wrongUse {α : Type} (k : Key) (message : String) : Except Stop α :=
  .error (.wrong ("argument " ++ k.title ++ ": " ++ message))

/-- A value that is none of the choices. -/
def wrongChoice {α : Type} (k : Key) (value : String) (choices : List String) : Except Stop α :=
  wrongUse k ("invalid choice: " ++ quoted value ++ " (choose from "
    ++ ", ".intercalate (choices.map quoted) ++ ")")

/-- The names of the policies. -/
def policyNames : List String := [DevPolicy.flagged, .declared].map DevPolicy.name

/-- The names of the levels. -/
def levelNames : List String := Severity.levels.map Severity.name

/-- Gives an option that has a value its value. -/
def store (a : Arguments) (k : Key) (value : String) : Except Stop Arguments :=
  match k with
  | .devPolicy =>
    match DevPolicy.ofName? value with
    | some p => .ok { a with devPolicy := some p }
    | none => wrongChoice k value policyNames
  | .severity =>
    match Config.severityOfName? value with
    | some s => .ok { a with severity := some s }
    | none => wrongChoice k value levelNames
  | .workers =>
    match Numeral.integer? value.toList with
    | some n => .ok { a with workers := some n }
    | none => wrongUse k ("invalid int value: " ++ quoted value)
  | .command => .ok { a with command := some value }
  | .url => .ok { a with url := some value }
  | .jsonOutput => .ok { a with jsonOutput := some value }
  | .config => .ok { a with config := some value }
  | _ => .ok a

/-- Switches on an option that has no value. -/
def switchOn (a : Arguments) (k : Key) (name : String) : Except Stop Arguments :=
  match k with
  | .help => .error .help
  | .version => .error .version
  | .skipDev => .ok { a with skipDev := some (!startsWith name "--no-") }
  | .sequential => .ok { a with sequential := true }
  | .noFail => .ok { a with noFail := true }
  | .verbose => .ok { a with verbose := true }
  | .quiet => .ok { a with quiet := true }
  | _ => .ok a

/-! ## Clusters -/

/-- Whether a name has a single hyphen. -/
def isShort (name : String) : Bool :=
  match name.toList with
  | '-' :: '-' :: _ => false
  | _ => true

/-- An attached text that an option has no use for. -/
def ignored {α : Type} (k : Key) (attached : List Char) : Except Stop α :=
  wrongUse k ("ignored explicit argument " ++ quoted (String.ofList attached))

/-- The options that a word names, where `attached` follows the first name: an option that has a value
    takes all that is attached, and behind an option of one letter that has none the next letter is
    an option too. -/
def uses (k : Key) (name : String) : List Char → Except Stop (List Use)
  | [] => if k.takesValue then .ok [⟨k, name, some ""⟩] else ignored k []
  | c :: r =>
    if k.takesValue then .ok [⟨k, name, some (String.ofList (c :: r))⟩]
    else if isShort name then
      let next := String.ofList ['-', c]
      match keyOf? next with
      | none => ignored k (c :: r)
      | some k' =>
        match r with
        | [] => .ok [⟨k, name, none⟩, ⟨k', next, none⟩]
        | r =>
          match uses k' next r with
          | .ok us => .ok (⟨k, name, none⟩ :: us)
          | .error e => .error e
    else ignored k (c :: r)

/-- The options that a use stands for. -/
def Use.expand (u : Use) : Except Stop (List Use) :=
  match u.attached with
  | none => .ok [u]
  | some s => uses u.key u.name s.toList

/-! ## The line -/

/-- How far a command line has been read. -/
structure Progress where
  arguments : Arguments
  hasPath : Bool
  /-- Words that have no place. -/
  extras : List String

/-- Carries out the options of one word; the last may have the next word for its value. -/
def carryOut (a : Arguments) (next : Option String) : List Use → Except Stop (Arguments × Bool)
  | [] => .ok (a, false)
  | u :: us =>
    match u.attached, u.key.takesValue with
    | some value, _ => do
      let a ← store a u.key value
      carryOut a next us
    | none, false => do
      let a ← switchOn a u.key u.name
      carryOut a next us
    | none, true =>
      match next with
      | some value => (store a u.key value).map fun a => (a, true)
      | none => wrongUse u.key "expected one argument"

/-- Reads the words from the left. The first argument is the path. The separator goes with it; without
    an argument to go with, it has no place unless the path is still open. -/
def run : Progress → List Word → Except Stop Progress
  | p, [] => .ok p
  | p, .argument s :: .separator :: r =>
    if p.hasPath then run { p with extras := p.extras ++ [s, "--"] } r
    else run { p with arguments := { p.arguments with path := s }, hasPath := true } r
  | p, .argument s :: r =>
    if p.hasPath then run { p with extras := p.extras ++ [s] } r
    else run { p with arguments := { p.arguments with path := s }, hasPath := true } r
  | p, [.separator] => if p.hasPath then .ok { p with extras := p.extras ++ ["--"] } else .ok p
  | p, .separator :: w :: r =>
    if p.hasPath then run { p with extras := p.extras ++ ["--", w.text] } r
    else
      run { p with arguments := { p.arguments with path := w.text }, hasPath := true } r
  | p, .unknown s :: r => run { p with extras := p.extras ++ [s] } r
  | p, .option u _ :: r =>
    match u.expand with
    | .error e => .error e
    | .ok us =>
      match r with
      | .argument s :: t =>
        match carryOut p.arguments (some s) us with
        | .error e => .error e
        | .ok (a, true) => run { p with arguments := a } t
        | .ok (a, false) => run { p with arguments := a } (.argument s :: t)
      | r =>
        match carryOut p.arguments none us with
        | .error e => .error e
        | .ok (a, _) => run { p with arguments := a } r
termination_by _ ws => ws.length

/-- Reads a command line. -/
def parse (line : List String) : Except Stop Arguments :=
  match classifyAll line with
  | .error e =>
    .error (.wrong ("ambiguous option: " ++ e.word ++ " could match " ++ ", ".intercalate e.names))
  | .ok ws =>
    match run ⟨.empty, false, []⟩ ws with
    | .error e => .error e
    | .ok p =>
      if p.extras.isEmpty then .ok p.arguments
      else .error (.wrong ("unrecognized arguments: " ++ " ".intercalate p.extras))

end LockAudit.CommandLine
