import LockAudit.AdvisoryService
import LockAudit.AuditRequest
import LockAudit.Lifecycle
import LockAudit.Mapping
import LockAudit.Payload.Basic

/-!
# `LockAudit.Analysis` — analyzing one lockfile

An analysis goes through stages: run the package manager in the lockfile's folder, find its audit
request, read the manifest beside the lockfile, build the payload, submit it, map the advisories that
come back. The first stage that fails ends it.

A failure is a result, not an error: it names the stage and the kind. Two things pass instead of
becoming results, an interruption and a request to end the program. A failure of a kind that makes
further analyses pointless disables the analyzer.

The world is a parameter: a `Host` launches programs, which may change files, and exchanges requests.
Everything that an analysis does to the world is in its `Trace`.

## Contents
- **Parameters.** `Settings`, `Host`.
- **Stages.** `Stage`, `Halt`; `payloadOf`, `mapReply`, `run`.
- **Results.** `Status`, `Result`, `Analysis`, `analyze`, `prepare`.
-/

namespace LockAudit

/-! ## Parameters -/

/-- How an analyzer works. -/
structure Settings where
  /-- The package manager. -/
  command : String
  enabled : Bool
  skipDev : Bool
  policy : DevPolicy
  processTimeout : Option Number
  client : Client
  deriving Repr

/-- The settings of an analyzer that nothing else is said about. -/
def Settings.standard : Settings := ⟨"yarn", true, false, .flagged, some (.int 300), Client.public⟩

/-- What the analyzer needs of the world. A launch sees the files and leaves files behind. -/
structure Host where
  launch : FileTree → Program.Launch → Program.Outcome × FileTree
  exchange : Post → Reply
  /-- How issues with an entry of a response are put into words. -/
  wording : Advisory.Wording

/-- What was done to the world. -/
structure Trace where
  launches : List Program.Launch
  posts : List Post
  logs : List Log.Entry
  deriving Repr

/-- Nothing done. -/
def Trace.empty : Trace := ⟨[], [], []⟩

/-- One thing done after another. -/
def Trace.append (t u : Trace) : Trace :=
  ⟨t.launches ++ u.launches, t.posts ++ u.posts, t.logs ++ u.logs⟩

namespace Analysis

/-- The name of the analyzer. -/
def name : String := "Yarn Audit Analyzer"

/-! ## Stages -/

/-- The stages of an analysis. -/
inductive Stage
  | prepare
  | process
  | extract
  | manifest
  | payload
  | advisory
  | mapping
  deriving DecidableEq, Repr

/-- The name of a stage. -/
def Stage.name : Stage → String
  | .prepare => "prepare"
  | .process => "process"
  | .extract => "extract"
  | .manifest => "manifest"
  | .payload => "payload"
  | .advisory => "advisory"
  | .mapping => "mapping"

/-- Where and why an analysis stopped. -/
structure Halt where
  stage : Stage
  trouble : Trouble
  deriving DecidableEq, Repr

/-- The launch that makes the package manager log its audit request. -/
def auditLaunch (s : Settings) (folder : Path) : Program.Launch where
  command := s.command
  arguments :=
    ["audit", "--offline"] ++ (if s.skipDev then ["--groups", "dependencies"] else [])
      ++ ["--json", "--verbose"]
  folder := some folder
  timeout := s.processTimeout

/-- What makes a stage's fault a halt. -/
def haltAt {ε α : Type} (stage : Stage) (trouble : ε → Trouble) : Except ε α → Except Halt α
  | .ok a => .ok a
  | .error e => .error ⟨stage, trouble e⟩

/-- The payload of a lockfile, from what the package manager left behind and from the manifest. -/
def payloadOf (s : Settings) (files : FileTree) (path : Path) (exit : Program.Exit) :
    Except Halt Payload := do
  let request ← haltAt .extract AuditRequest.Fault.trouble
    (AuditRequest.extract exit.stdout exit.stderr path.toString).result
  let manifest ← haltAt .manifest Manifest.ReadFault.trouble
    (Manifest.read files (path.parent.child Manifest.fileName))
  haltAt .payload Payload.Fault.trouble (Payload.build s.policy request manifest s.skipDev)

/-- The advisories of a reply, mapped to a payload's tree. -/
def mapReply (s : Settings) (wording : Advisory.Wording) (p : Payload) (reply : Reply) :
    Except Halt Mapping.Attachment := do
  let as ← haltAt .advisory (AdvisoryService.Fault.trouble wording)
    (AdvisoryService.advisories s.client.url reply)
  pure (Mapping.apply Mapping.defaultSource p.index as)

/-- How far an analysis came: what it attached, what stopped it, and what it did. -/
structure Run where
  attached : List Evidence
  halt : Option Halt
  launches : List Program.Launch
  posts : List Post
  files : FileTree

/-- Runs the stages on a lockfile. -/
def run (s : Settings) (host : Host) (files : FileTree) (path : Path) : Run :=
  let folder := path.parent
  if !files.isFolder folder then
    ⟨[], some ⟨.prepare, .of .invalidTarget
      (folder.toString ++ " should have been a directory.")⟩, [], [], files⟩
  else
    let launch := auditLaunch s folder
    match host.launch files launch with
    | (.error t, files) => ⟨[], some ⟨.process, t⟩, [launch], [], files⟩
    | (.ok exit, files) =>
      match payloadOf s files path exit with
      | .error halt => ⟨[], some halt, [launch], [], files⟩
      | .ok p =>
        let post := s.client.post p.text
        match mapReply s host.wording p (host.exchange post) with
        | .error halt => ⟨[], some halt, [launch], [post], files⟩
        | .ok a =>
          ⟨a.attached, a.ended.map fun m => ⟨.mapping, .mishap m⟩, [launch], [post], files⟩

/-! ## Results -/

/-- How an analysis ended. -/
inductive Status
  | analyzed
  | skipped
  | disabled
  | failed
  deriving DecidableEq, Repr

/-- The name of a status. -/
def Status.name : Status → String
  | .analyzed => "analyzed"
  | .skipped => "skipped"
  | .disabled => "disabled"
  | .failed => "failed"

/-- Whether a status is a success. -/
def Status.isSuccess (s : Status) : Bool := s == .analyzed || s == .skipped

/-- Why an analysis failed, and where. -/
structure Failure where
  kind : ErrorKind
  stage : Stage
  dependency : String
  message : String
  deriving DecidableEq, Repr

/-- The result for a lockfile. -/
structure Result where
  lockfile : Lockfile
  status : Status
  evidence : List Evidence
  failure : Option Failure
  /-- Seconds that it took. -/
  seconds : Number
  deriving Repr

/-- No time. -/
def noTime : Number := .float (.zero false)

/-- A result without evidence or failure. -/
def Result.of (l : Lockfile) (status : Status) : Result := ⟨l, status, [], none, noTime⟩

/-- Whether a lockfile is worth analyzing: a file of the right name that is not empty and does not
    belong to an installed package. -/
def shouldProcess (files : FileTree) (path : Path) : Bool :=
  path.name == Lockfile.fileName && !(path.names.contains Lockfile.installFolder)
    && match files.find path with
      | .ok (.file bytes _) => !bytes.isEmpty
      | _ => false

/-- The reason for which a failure disables the analyzer. -/
def disablingReason (e : AuditError) : String :=
  e.message ++ " The analyzer is being disabled and may result in false negatives."

/-- What a halt comes to. -/
structure Verdict where
  result : Except Trouble Result
  change : Lifecycle.Change

/-- Judges a halt in a state. -/
def judge (l : Lockfile) (state : Lifecycle.State) (halt : Halt) : Verdict :=
  let shown := l.path.toString
  let failed (kind : ErrorKind) (message : String) : Result :=
    ⟨l, .failed, [], some ⟨kind, halt.stage, l.displayName, message⟩, noTime⟩
  match halt.trouble with
  | .interrupt message => ⟨.error (.interrupt message), ⟨state, []⟩⟩
  | .stop name message => ⟨.error (.stop name message), ⟨state, []⟩⟩
  | .mishap m =>
    ⟨.ok (failed .unexpected m.message),
      ⟨state, [⟨.error, name ++ " failed unexpectedly on " ++ shown⟩]⟩⟩
  | .audit e =>
    if e.kind = .interrupted then ⟨.error (.audit e), ⟨state, []⟩⟩
    else
      let c := if e.kind.disables then Lifecycle.disable name (disablingReason e) state
        else ⟨state, []⟩
      let log := name ++ " failed on " ++ shown ++ " (" ++ halt.stage.name ++ "): " ++ e.message
      ⟨.ok (failed e.kind e.message), ⟨c.state, c.logs ++ [⟨.error, log⟩]⟩⟩

end Analysis

/-- What an analysis comes to: a result or what passed instead, the evidence that the lockfile's
    record gained, and the state and the world afterwards. -/
structure Analysis where
  result : Except Trouble Analysis.Result
  attached : List Evidence
  state : Lifecycle.State
  files : FileTree
  trace : Trace

namespace Analysis

/-- Analyzes a lockfile in a state. -/
def analyze (s : Settings) (host : Host) (files : FileTree) (state : Lifecycle.State)
    (l : Lockfile) : Analysis :=
  if !state.isEnabled then ⟨.ok (.of l .disabled), [], state, files, .empty⟩
  else if !shouldProcess files l.path then ⟨.ok (.of l .skipped), [], state, files, .empty⟩
  else
    let r := run s host files l.path
    match r.halt with
    | none =>
      ⟨.ok ⟨l, .analyzed, r.attached, none, noTime⟩, r.attached, state, r.files,
        ⟨r.launches, r.posts, []⟩⟩
    | some halt =>
      let v := judge l state halt
      ⟨v.result, r.attached, v.change.state, r.files, ⟨r.launches, r.posts, v.change.logs⟩⟩

/-! ## Preparing -/

/-- What preparing an analyzer comes to. -/
structure Preparation where
  result : Except Trouble Lifecycle.State
  state : Lifecycle.State
  files : FileTree
  trace : Trace

/-- Prepares an analyzer: disables one that is not wanted, and probes the package manager of any
    other that is unprobed. -/
def prepare (s : Settings) (host : Host) (files : FileTree) (state : Lifecycle.State) :
    Preparation :=
  if !s.enabled then
    let c := Lifecycle.disable name "Disabled by configuration." state
    ⟨.ok c.state, c.state, files, ⟨[], [], c.logs⟩⟩
  else if Lifecycle.needsProbe state then
    let launch := Lifecycle.probeLaunch s.command s.processTimeout
    let (outcome, files) := host.launch files launch
    let p := Lifecycle.probe name s.command state outcome
    ⟨p.result, p.change.state, files, ⟨[launch], [], p.change.logs⟩⟩
  else ⟨.ok state, state, files, .empty⟩

end Analysis

end LockAudit
