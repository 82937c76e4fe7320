import LockAudit.Batch
import LockAudit.Discovery

/-!
# `LockAudit.Scan` — auditing a workspace

A scan finds the lockfiles of a folder, prepares the analyzer, analyzes every lockfile, shows what was
found, saves a report if one is asked for, and comes to a verdict. An analyzer that cannot be prepared
does not end the scan: every lockfile is then reported as not analyzed.

What analyses do to the files and to the state of the analyzer is handed on from one to the next, also
when they are said to run at the same time: such a scan is one of those that may happen.

## Contents
- **Steps.** `View`, `World`, `prepare`, `analyses`, `saveReport`.
- **Verdicts.** `Verdict`, `judge`, `exitCode_judge`.
- **Scans.** `Scan`, `Scan.run`.
-/

namespace LockAudit

namespace Scan

open LockAudit.Analysis

/-! ## Steps -/

/-- How a scan is shown: on which terminal, and whether with a progress display. -/
structure View where
  display : Console.Display
  progress : Bool

/-- What the steps of a scan hand on. -/
structure World where
  state : Lifecycle.State
  files : FileTree
  trace : Trace

/-- The settings of an analyzer with a configuration. -/
def settingsOf (c : AnalyzerConfig) : Settings where
  command := c.command
  enabled := c.enabled
  skipDev := c.skipDev
  policy := c.policy
  processTimeout := some (.float c.processTimeout)
  client := ⟨c.url, .float c.requestTimeout, c.userAgent⟩

/-- What is shown when the analyzer cannot be prepared. -/
def disabledNote (reason : String) : Console.Item :=
  .text (Console.styled "yellow" ("⚠ " ++ Analysis.name ++ " disabled: " ++ reason))

/-- What a preparation shows, unless it ends the scan. -/
def noteOf : Except Trouble Lifecycle.State → Except Trouble (List Console.Item)
  | .ok _ => .ok []
  | .error (.audit e) =>
    if e.kind = .initialization then .ok [disabledNote e.message] else .error (.audit e)
  | .error t => .error t

/-- Prepares an analyzer in a world. -/
def prepare (s : Settings) (host : Host) (w : World) :
    Except Trouble (List Console.Item) × World :=
  let p := Analysis.prepare s host w.files w.state
  (noteOf p.result, ⟨p.state, p.files, w.trace.append p.trace⟩)

/-- Analyzes a lockfile in a world. -/
def analyzeIn (s : Settings) (host : Host) (w : World) (l : Lockfile) :
    Except Trouble Result × World :=
  let a := Analysis.analyze s host w.files w.state l
  (a.result, ⟨a.state, a.files, w.trace.append a.trace⟩)

/-- The completions of the analyses of lockfiles, the first of which has a place. -/
def completions (s : Settings) (host : Host) (place : Nat) :
    World → List Lockfile → List Batch.Completion × World
  | w, [] => ([], w)
  | w, l :: ls =>
    let (result, w) := analyzeIn s host w l
    let (cs, w) := completions s host (place + 1) w ls
    (⟨place, Batch.settle l result⟩ :: cs, w)

/-- Analyzes lockfiles in the way that a configuration asks for. -/
def analyses (v : View) (c : Config) (host : Host) (w : World) (ls : List Lockfile) :
    Batch.Outcome World :=
  let s := settingsOf c.analyzer
  if c.parallel then
    let (cs, w) := completions s host 0 w ls
    ⟨Batch.concurrent v.display v.progress c.maxWorkers ls cs, [], w⟩
  else Batch.sequential v.display (analyzeIn s host) w ls

/-- What is shown when a report is saved. -/
def savedNote (path : String) : Console.Item :=
  .text ("  " ++ Console.styled "green" "✓" ++ " JSON report saved: " ++ path)

/-- Saves the report, if there is a path for it. -/
def saveReport (path : Option String) (here : Path) (rs : List Result) (files : FileTree) :
    Except Mishap (List Console.Item × FileTree) :=
  match path with
  | none => .ok ([], files)
  | some path =>
    if path = "" then .ok ([], files)
    else if path.toList.contains '\x00' then .error .embeddedNull
    else match FileTree.save here (.ofString path) (Report.text rs).toUTF8.toList files with
      | .ok files => .ok ([savedNote path], files)
      | .error r => .error (.system r)

/-! ## Verdicts -/

/-- What a scan that reached its end says of the workspace. -/
inductive Verdict
  | nothingToScan
  | passed
  /-- There is evidence at or above this level. -/
  | failed (level : Severity)
  deriving DecidableEq, Repr

/-- The exit code of a verdict. -/
def Verdict.exitCode : Verdict → Nat
  | .failed _ => 1
  | _ => 0

/-- What is shown last. -/
def Verdict.closing : Verdict → Console.Item
  | .nothingToScan => .text (Console.styled "dim" "No yarn.lock files found")
  | .passed => .text ("\n" ++ Console.styled "bold green" "✅ Yarn audit completed")
  | .failed level =>
    .text ("\n" ++ Console.styled "bold red"
      ("❌ Yarn audit failed: Found vulnerabilities at or above " ++ level.name ++ " severity"))

/-- Judges results. -/
def judge (c : ReportingConfig) (rs : List Result) : Verdict :=
  if Report.shouldFail c rs then .failed c.failOnSeverity else .passed

/-- Results fail by their exit code exactly if something was found at or above the configured level. -/
theorem exitCode_judge (c : ReportingConfig) (rs : List Result) :
    (judge c rs).exitCode = 1 ↔ Report.shouldFail c rs = true := by
  unfold judge
  split
  · next h => simp [Verdict.exitCode, h]
  · next h => simp [Verdict.exitCode, h]

end Scan

/-! ## Scans -/

/-- What a scan comes to: a verdict or what ended it early, what was shown, and what was done. -/
structure Scan where
  verdict : Except Trouble Scan.Verdict
  shown : List Console.Item
  files : FileTree
  trace : Trace

namespace Scan

open LockAudit.Analysis

/-- A scan that ended in a world. -/
def ended (w : World) (shown : List Console.Item) (verdict : Except Trouble Verdict) : Scan :=
  ⟨verdict, shown, w.files, w.trace⟩

/-- Prints items behind those that were shown, and goes on unless the terminal refuses one. -/
def showing (d : Console.Display) (w : World) (shown items : List Console.Item)
    (next : List Console.Item → Scan) : Scan :=
  match d.print items with
  | (printed, some m) => ended w (shown ++ printed) (.error (.mishap m))
  | (printed, none) => next (shown ++ printed)

/-- The end of a scan with results. -/
def conclude (d : Console.Display) (c : ReportingConfig) (here : Path) (w : World)
    (shown : List Console.Item) (rs : List Result) : Scan :=
  showing d w shown (Report.summary rs ++ Report.findings rs) fun shown =>
    match saveReport c.jsonOutput here rs w.files with
    | .error m => ended w shown (.error (.mishap m))
    | .ok (note, files) =>
      let w := { w with files }
      let v := judge c rs
      showing d w shown (note ++ [v.closing]) fun shown => ended w shown (.ok v)

/-- All that may be shown at the end of a scan with results. -/
def lastItems (c : ReportingConfig) (rs : List Result) : List Console.Item :=
  Report.summary rs ++ Report.findings rs ++ (c.jsonOutput.map savedNote).toList ++ [(judge c rs).closing]

/-- Analyzes lockfiles with an analyzer that was not used before. -/
def audit (v : View) (c : Config) (host : Host) (here : Path) (files : FileTree) (ls : List Lockfile) :
    Scan :=
  match prepare (settingsOf c.analyzer) host ⟨.unprobed, files, .empty⟩ with
  | (.error t, w) => ended w [] (.error t)
  | (.ok note, w) =>
    showing v.display w [] note fun shown =>
      let o := analyses v c host w ls
      match o.results with
      | .error t => ended o.state (shown ++ o.shown) (.error t)
      | .ok rs => conclude v.display c.reporting here o.state (shown ++ o.shown) rs

/-- Scans a folder. A report's path is meant below the current folder. -/
def run (v : View) (c : Config) (host : Host) (here folder : Path) (files : FileTree) : Scan :=
  let start : World := ⟨.unprobed, files, .empty⟩
  if folder.toString.toList.contains '\x00' then ended start [] (.error (.mishap .embeddedNull))
  else match Discovery.discover files folder with
    | [] =>
      showing v.display start [] [Verdict.nothingToScan.closing] fun shown =>
        ended start shown (.ok .nothingToScan)
    | ls => audit v c host here files ls

end Scan

end LockAudit
