import LockAudit.Analysis
import LockAudit.Config.Basic
import LockAudit.Console
import LockAudit.Json.Writer

/-!
# `LockAudit.Report` — what a scan found

The results of a scan are shown in three ways, which all count the same evidence: a table with a row
for each lockfile, a table with a row for each level of severity that occurs, and a panel for each
piece of evidence, the most severe first. The report for other programs is a JSON value.

## Contents
- **Counting.** `evidenceOf`, `countAt`, `shouldFail`.
- **The screen.** `summary`, `findings`.
- **The report.** `Report.toJson`, `Report.text`.
-/

namespace LockAudit.Report

open LockAudit.Analysis

/-! ## Counting -/

/-- All evidence, in the order of the results. -/
def evidenceOf (rs : List Result) : List Evidence := rs.flatMap (·.evidence)

/-- How much evidence has a level. -/
def countAt (level : Severity) (rs : List Result) : Nat :=
  (evidenceOf rs).countP fun e => e.severity == level

/-- How many results have a status. -/
def countOf (status : Status) (rs : List Result) : Nat := rs.countP fun r => r.status == status

/-- Whether a scan fails: something was found at or above the configured level. -/
def shouldFail (c : ReportingConfig) (rs : List Result) : Bool :=
  c.failOnFindings && (evidenceOf rs).any fun e => e.severity.atLeast c.failOnSeverity

/-! ## The screen -/

/-- The color of a level. -/
def color : Severity → String
  | .critical => "red"
  | .high => "orange1"
  | .medium => "yellow"
  | .low => "blue"
  | .info => "dim"

/-- The name of a level in capitals. -/
def capitals (s : Severity) : String := String.ofList (s.name.toList.map Char.toUpper)

/-- Seconds with two places and their unit. -/
def secondsText (t : Number) : String := String.ofList (t.nearest.fixed 2) ++ "s"

/-- How a lockfile's analysis ended. -/
def statusText (r : Result) : String :=
  match r.status, r.failure with
  | .failed, some f => "❌ Failed (" ++ f.stage.name ++ "): " ++ f.message
  | .failed, none => "✅ Analyzed"
  | .disabled, _ => "⏸ Not analyzed (analyzer disabled)"
  | .skipped, _ => "⏭ Skipped"
  | .analyzed, _ => "✅ Analyzed"

/-- The table of the lockfiles. -/
def lockfileTable (rs : List Result) : Console.Item :=
  .table "🔍 Yarn Audit Summary"
    [("Lockfile", .left), ("Status", .left), ("Vulnerabilities", .right), ("Time", .right)]
    (rs.map fun r =>
      [r.lockfile.displayName, statusText r, Nat.repr r.evidence.length, secondsText r.seconds])

/-- The table of the levels that occur. -/
def severityTable (rs : List Result) : Console.Item :=
  .table "📊 Vulnerabilities by Severity" [("Severity", .left), ("Count", .right)]
    ((Severity.levels.filter fun l => 0 < countAt l rs).map fun l =>
      [Console.styled (color l) (capitals l), Nat.repr (countAt l rs)])

/-- The two tables. -/
def summary (rs : List Result) : List Console.Item :=
  [lockfileTable rs, .text "", severityTable rs]

/-- A text that is there and not empty, as a line in front of others. -/
def lineOf (s : Option String) (line : String → String) : List String :=
  match s with
  | none => []
  | some s => if s = "" then [] else [line s]

/-- A title, or words for one that is missing. -/
def titleOf (e : Evidence) : String :=
  match e.title with
  | none => "Vulnerability"
  | some s => if s = "" then "Vulnerability" else s

/-- How many identifiers a panel shows. -/
def shownIdentifiers : Nat := 5

/-- The lines of a panel. -/
def panelLines (l : Lockfile) (e : Evidence) : List String :=
  let dim := Console.styled "dim"
  [Console.styled (color e.severity) ("[" ++ capitals e.severity ++ "]") ++ " " ++ titleOf e,
    dim ("📁 " ++ l.displayName), dim ("Vulnerable: " ++ e.vulnerableVersions)]
    ++ lineOf e.patchedVersions (fun s => Console.styled "green" ("💡 Patched: " ++ s))
    ++ (if e.identifiers.isEmpty then []
      else [dim ("IDs: " ++ ", ".intercalate (e.identifiers.take shownIdentifiers))])
    ++ lineOf e.url dim

/-- The panel of a piece of evidence, with its number. -/
def panel (n : Nat) (l : Lockfile) (e : Evidence) : Console.Item :=
  .panel (Console.title ("#" ++ Nat.repr n ++ " " ++ e.package ++ " " ++ e.name))
    ("\n".intercalate (panelLines l e)) (color e.severity)

/-- All evidence with its lockfile, the most severe first; equal levels keep their order. -/
def ranked (rs : List Result) : List (Lockfile × Evidence) :=
  (rs.flatMap fun r => r.evidence.map fun e => (r.lockfile, e)).mergeSort
    fun a b => a.2.severity.place ≤ b.2.severity.place

/-- The panels, numbered from a number on. -/
def panels (n : Nat) : List (Lockfile × Evidence) → List Console.Item
  | [] => []
  | (l, e) :: r => panel n l e :: panels (n + 1) r

/-- The findings in detail. -/
def findings (rs : List Result) : List Console.Item :=
  match ranked rs with
  | [] => [.text ("\n" ++ Console.styled "green" "No vulnerable dependencies found!" ++ "\n")]
  | es => .text ("\n" ++ Console.styled "bold" "📋 Detailed Findings" ++ "\n") :: panels 1 es

/-! ## The report -/

/-- A text, or null. -/
def orNull : Option String → Json
  | some s => .str s
  | none => .null

/-- The value of a number. -/
def count (n : Nat) : Json := .num (.int n)

/-- The value of a piece of evidence. -/
def evidenceJson (e : Evidence) : Json :=
  .obj [("name", .str e.name), ("source", .str e.source), ("module", .str e.moduleName),
    ("version", .str e.resolvedVersion), ("vulnerable_versions", .str e.vulnerableVersions),
    ("patched_versions", orNull e.patchedVersions), ("severity", .str e.severity.name),
    ("identifiers", .arr (e.identifiers.map .str)), ("title", orNull e.title),
    ("url", orNull e.url), ("metadata", .obj e.metadata)]

/-- The value of a failure. -/
def failureJson (f : Failure) : Json :=
  .obj [("kind", .str f.kind.name), ("stage", .str f.stage.name), ("message", .str f.message)]

/-- The value of a result. -/
def resultJson (r : Result) : Json :=
  .obj [("lockfile", .str r.lockfile.path.toString), ("name", .str r.lockfile.displayName),
    ("status", .str r.status.name), ("execution_time", .num (r.seconds.roundTo 3)),
    ("error", (r.failure.map failureJson).getD .null),
    ("vulnerabilities", .arr (r.evidence.map evidenceJson))]

/-- The value of a report. -/
def toJson (rs : List Result) : Json :=
  .obj [("version", .str "1.0"),
    ("summary", .obj [("lockfiles", count rs.length), ("analyzed", count (countOf .analyzed rs)),
      ("failed", count (countOf .failed rs)), ("disabled", count (countOf .disabled rs)),
      ("vulnerabilities", count (evidenceOf rs).length)]),
    ("results", .arr (rs.map resultJson))]

/-- The text of a report. -/
def text (rs : List Result) : String := (toJson rs).indented

end LockAudit.Report
