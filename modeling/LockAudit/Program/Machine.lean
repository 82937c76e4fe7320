import LockAudit.Shell.Run

/-!
# `LockAudit.Program.Machine` — a machine that runs programs

A machine with files, a shell and the small programs of `LockAudit.Shell.Tool`. A launch is refused for
the reasons that a system has; a program that is started ends by itself or is ended by its supervisor.

## Contents
- **Starting.** `image`, what is run for a path; `findImage`, for a command.
- **`Child`**, a program that runs, and `start`.
- **Supervision.** `Cancel`, `Child.events`, `Child.course`, `run`.
-/

namespace LockAudit.Program.Machine

open LockAudit.Shell
open Tool (Chars chars)

/-! ## Starting -/

/-- A program of the system with what it is called by and its arguments. -/
structure Image where
  program : String
  name : Chars
  arguments : List Chars
  deriving DecidableEq, Repr

/-- The most interpreters that stand behind each other. -/
def maxInterpreters : Nat := 5

/-- Whether the system has a program. -/
def isInstalled (name : String) : Bool :=
  Running.isShell name || name == "env" || (Tool.named? name).isSome

/-- What is run for a path. A script is run by the interpreter that its first line names. -/
def image (files : FileTree) (folder : Path) :
    Nat → Chars → List Chars → Except SystemError Image
  | 0, _, _ => .error .noPermission
  | n + 1, path, args =>
    let p := folder.join (.ofString (textOf path))
    let endsInSlash := path.getLast? = some '/'
    match Running.systemName? p with
    | some name =>
      if !isInstalled name then .error .noEntry
      else if endsInSlash then .error .notFolder
      else .ok ⟨name, path, args⟩
    | none =>
      if Running.isSystemFolder p then .error .noPermission
      else match files.find p with
      | .error e => .error e
      | .ok (.folder _) => .error .noPermission
      | .ok (.file bytes x) =>
        if endsInSlash then .error .notFolder
        else if !x then .error .noPermission
        else match Running.interpreter? bytes with
          | none => .error .execFormat
          | some (interpreter, extra) => image files folder n interpreter (extra ++ path :: args)

/-- What is run for a command: a path if there is a slash in it, else a program of the system. -/
def findImage (files : FileTree) (folder : Path) (command : Chars) (args : List Chars) :
    Except SystemError Image :=
  if command.contains '/' then image files folder maxInterpreters command args
  else if command.isEmpty || command = ['.'] || command = ['.', '.'] then .error .noPermission
  else if isInstalled (textOf command) then .ok ⟨textOf command, command, args⟩
  else .error .noEntry

/-! ## Children -/

/-- A program that runs. -/
structure Child where
  /-- What it leaves behind when it ends. -/
  exit : Exit
  /-- The ticks until then; it may never end. -/
  ticks : Option Nat
  files : FileTree

/-- The bound on steps within each other. -/
def maxSteps : Nat := 100000

/-- The session in which a program begins. -/
def session (files : FileTree) (folder : Path) (name : Chars) : Session where
  files
  folder
  name
  arguments := []
  values := [("PWD", byteChars folder.toString), ("PATH", chars "/usr/bin:/bin")]
  functions := []
  exported := ["PWD", "PATH"]
  status := 0
  descriptors := [(0, .channel 0), (1, .channel 1), (2, .channel 2)]
  channels := []
  fresh := 3
  clock := 0
  pending := 0
  ignored := []
  atExit := []
  isStrict := false

/-- Runs a program of the system. `env` stands aside for the program that it is given. -/
def runImage (i : Image) : Running Unit :=
  if Running.isShell i.program then Running.shell maxSteps i.name i.arguments
  else if i.program = "env" then
    match i.arguments with
    | c :: r =>
      if Running.isShell (textOf c) then Running.shell maxSteps c r
      else Running.named maxSteps 1 c r (Running.refuseForEnv c)
    | [] => pure ()
  else match Tool.named? i.program with
    | some p => Running.call p i.name i.arguments
    | none => pure ()

/-- The program that an image makes. -/
def Child.ofImage (files : FileTree) (folder : Path) (i : Image) : Child :=
  let (ended, s) := StateT.run (ExceptT.run (runImage i)) (session files folder i.name)
  let written (id : Nat) : String := outputText (Running.contents s id).bytes
  let code : Int := match ended with
    | .ok () => s.status
    | .error (.exit code) => code
    | .error (.back code) => code
    | .error (.killed signal) => -(signal : Int)
    | .error _ => 0
  let ticks := match ended with
    | .error .endless => none
    | _ => some (max s.clock s.pending)
  ⟨⟨code, written 1, written 2⟩, ticks, s.files⟩

/-- Starts a program. The folder is gone to before the program is looked for. -/
def start (files : FileTree) (here : Path) (l : Launch) : Except Refusal Child :=
  let texts := l.folder.toList.map Path.toString ++ l.words
  if texts.any fun s => s.toList.contains '\x00' then .error .nullByte
  else
    let folder := (l.folder.map here.join).getD here
    let refuseFolder (e : SystemError) : Except Refusal Child :=
      .error (.system (e.message ((l.folder.map Path.toString).getD "")))
    match files.find folder with
    | .error e => refuseFolder e
    | .ok (.file _ _) => refuseFolder .notFolder
    | .ok (.folder _) =>
      match findImage files folder (byteChars l.command) (l.arguments.map byteChars) with
      | .error e => .error (.system (e.message l.command))
      | .ok i => .ok (.ofImage files folder i)

/-! ## Supervision -/

/-- What the supervisor finds when it looks at the cancel event. -/
inductive Cancel
  | unset
  | isSet
  | interrupts
  deriving DecidableEq, Repr

/-- The event at the end of a turn in which a program has not ended. -/
def turnEvent (cancel : Cancel) (number : Nat) : Event :=
  match cancel with
  | .interrupts => .interrupted
  | _ => .waited (cancel == .isSet) (Binary64.ofRatio false (number * turn) ticksPerSecond)

/-- The number of the turn after which a deadline has passed, if it ever passes. -/
def turnsUntil (deadline : Binary64) : Option Nat :=
  let (num, den) := deadline.magnitude
  if deadline.isNaN then none
  else if deadline.isNegative then some 1
  else if deadline.isSpecial then none
  else some (num * ticksPerSecond / (den * turn) + 1)

/-- What happens while a program runs, up to the turn that is over after a deadline. A program that ends
    at the end of a turn is found after it. -/
def Child.events (c : Child) (cancel : Cancel) (deadline : Option Binary64) : List Event :=
  let last? := deadline.bind turnsUntil
  let most := last?.getD 1
  match c.ticks with
  | none => (List.range most).map fun i => turnEvent cancel (i + 1)
  | some t =>
    let turns := t / turn
    let seen := if last?.isSome || cancel != .unset then min turns most else turns
    (List.range seen).map (fun i => turnEvent cancel (i + 1))
      ++ if seen = turns then [.ended c.exit] else []

/-- What happens to a program. If it is killed it is gone. -/
def Child.course (c : Child) (cancel : Cancel) (timeout : Option Number) : Course :=
  let start := Binary64.zero false
  ⟨start, c.events cancel ((deadline? start timeout).toOption.getD none), .gone, .gone⟩

/-- Runs a program under supervision. What it did to the files is seen if it ends by itself. A run
    without an end is left as if the operator had interrupted it. -/
def run (cancel : Cancel) (standard : Option Number) (files : FileTree) (here : Path) (l : Launch) :
    Outcome × FileTree :=
  let l := l.effective standard
  let started := start files here l
  let outcome? := l.outcome? (started.map fun c => c.course cancel l.timeout)
  let seen := match started, outcome? with
    | .ok c, some (.ok _) => c.files
    | _, _ => files
  (outcome?.getD (.error (.interrupt "")), seen)

end LockAudit.Program.Machine
