import LockAudit.Shell.Reader
import LockAudit.Shell.Tool

/-!
# `LockAudit.Shell.Session` — what a shell keeps while it runs

A shell keeps files, variables, descriptors and a clock. What is written goes into channels: one for
each of the two outputs, and one for each pipe. A command can end the shell, and one that never comes
to an end ends the reckoning.

## Contents
- **`Session`**, `Halt` and the monad `Running`.
- **Variables.** `parameter?`, `assign`.
- **Channels and descriptors.** `write`, `readAll`, `redirect`.
- **Signals.** `signal?`.
-/

namespace LockAudit.Shell

open LockAudit.Program
open Tool (Chars chars)

/-- Where a descriptor leads. -/
inductive Handle
  | channel (id : Nat)
  | file (p : Path)
  | nowhere
  deriving DecidableEq, Repr

/-- What a shell keeps. -/
structure Session where
  files : FileTree
  folder : Path
  /-- The name of the shell or of its script. -/
  name : Chars
  arguments : List Chars
  values : List (String × Chars)
  /-- The commands that have been given a name. -/
  functions : List (String × Command)
  /-- The names of the variables that other programs see. -/
  exported : List String
  /-- The code of the last command. -/
  status : Nat
  descriptors : List (Nat × Handle)
  /-- What has been written into each channel, the latest first. -/
  channels : List (Nat × List Stream)
  /-- The next channel that is not in use. -/
  fresh : Nat
  /-- The ticks since the start. -/
  clock : Nat
  /-- When the last command in the background ends. -/
  pending : Nat
  /-- The signals that are ignored. -/
  ignored : List Nat
  /-- What is run at the end. -/
  atExit : Chars
  /-- Whether a command that fails ends the shell. -/
  isStrict : Bool

/-- How a shell ends before its script does. -/
inductive Halt
  | exit (code : Nat)
  /-- Leaves a command that has a name. -/
  | back (code : Nat)
  | killed (signal : Nat)
  /-- It goes on for ever. -/
  | endless
  /-- Leaves some loops. -/
  | leave (loops : Nat)
  /-- Leaves some loops, the last one only for this time. -/
  | again (loops : Nat)
  deriving DecidableEq, Repr

/-- A step of a shell. What was done before a halt is kept. -/
abbrev Running := ExceptT Halt (StateM Session)

namespace Running

/-! ## Variables -/

/-- The value of a parameter that has one value. -/
def parameter? (s : Session) (name : String) : Option Chars :=
  match name with
  | "#" => some (Nat.repr s.arguments.length).toList
  | "?" => some (Nat.repr s.status).toList
  | "$" => some ['1']
  | "!" => some []
  | "-" => some []
  | "0" => some s.name
  | _ =>
    match name.toNat? with
    | some n => s.arguments[n - 1]?
    | none => s.values.lookup name

/-- Gives a variable a value. -/
def assign (name : String) (value : Chars) : Running Unit :=
  modify fun s =>
    { s with values := (name, value) :: s.values.filter fun v => v.1 ≠ name }

/-- Sets the code of the last command. -/
def finish (code : Nat) : Running Unit := modify fun s => { s with status := code }

/-! ## Channels -/

/-- What is in a channel. -/
def contents (s : Session) (id : Nat) : Stream :=
  ((s.channels.lookup id).getD []).reverse.foldr Stream.append .empty

/-- What is in a channel. -/
def channel (id : Nat) : Running Stream := do pure (contents (← get) id)

/-- Changes what is in a channel. -/
def setChannel (id : Nat) (t : Stream) : Running Unit :=
  modify fun s => { s with channels := (id, [t]) :: s.channels.filter fun c => c.1 ≠ id }

/-- Adds to what is in a channel. -/
def addToChannel (id : Nat) (t : Stream) : Running Unit :=
  modify fun s =>
    { s with channels := (id, t :: (s.channels.lookup id).getD [])
        :: s.channels.filter fun c => c.1 ≠ id }

/-- A new channel. -/
def newChannel (t : Stream) : Running Nat := do
  let id := (← get).fresh
  modify fun s => { s with fresh := id + 1, channels := (id, [t]) :: s.channels }
  pure id

/-- The channels whose other end is the one who started the shell. -/
def isOuter (id : Nat) : Bool := id == 1 || id == 2

/-- Writes to where a handle leads. What has no end can only go into a pipe. -/
def writeTo (h : Handle) (t : Stream) : Running Unit := do
  match h with
  | .channel id =>
    addToChannel id t
    if t.isEndless && isOuter id then throw .endless
  | .file p =>
    if t.isEndless then throw .endless
    let s ← get
    let (old, x) := match s.files.find p with
      | .ok (.file bs x) => (bs, x)
      | _ => ([], false)
    match FileTree.write (.file (old ++ t.bytes) x) p.names s.files with
    | .ok files => set { s with files }
    | .error _ => pure ()
  | .nowhere => if t.isEndless then throw .endless

/-- Writes to a descriptor. -/
def write (descriptor : Nat) (t : Stream) : Running Unit := do
  match (← get).descriptors.lookup descriptor with
  | some h => writeTo h t
  | none => pure ()

/-- Writes a message of the shell on a line of its script. -/
def complain (line : Nat) (s : Chars) : Running Unit := do
  let place := (← get).name ++ chars ": " ++ (Nat.repr line).toList ++ chars ": "
  write 2 (.ofBytes (bytesOf (place ++ s ++ ['\n'])))

/-- The input. -/
def input : Running Stream := do
  match (← get).descriptors.lookup 0 with
  | some (.channel id) => channel id
  | _ => pure .empty

/-- Leaves something of the input. -/
def setInput (t : Stream) : Running Unit := do
  match (← get).descriptors.lookup 0 with
  | some (.channel id) => setChannel id t
  | _ => pure ()

/-! ## Descriptors -/

/-- Lets a descriptor lead somewhere. -/
def describe (descriptor : Nat) (h : Handle) : Running Unit :=
  modify fun s =>
    { s with descriptors := (descriptor, h) :: s.descriptors.filter fun d => d.1 ≠ descriptor }

/-- Why a file cannot be opened or made. -/
def openReason (e : SystemError) (missing : String) : Chars :=
  chars (if e = .noEntry ∨ e = .notFolder then missing else e.reason)

/-- Opens a file to write, empty or at its end. -/
def create (target : Chars) (isEmptied : Bool) : Running (Except SystemError Handle) := do
  let s ← get
  let p := s.folder.join (.ofString (textOf target))
  if p.names = ["dev", "null"] then return .ok .nowhere
  for (device, d) in [("stdout", 1), ("stderr", 2)] do
    if p.names = ["dev", device] then
      match s.descriptors.lookup d with
      | some h => return .ok h
      | none => return .error .noEntry
  if target.isEmpty then return .error .noEntry
  match s.files.find p.parent, s.files.find p with
  | .error e, _ => pure (.error e)
  | .ok (.file _ _), _ => pure (.error .notFolder)
  | _, .ok (.folder _) => pure (.error .isFolder)
  | _, found =>
    let x := match found with
      | .ok (.file _ x) => x
      | _ => false
    let isThere := found.isOk
    if isEmptied || !isThere then
      match FileTree.write (.file [] x) p.names s.files with
      | .ok files => set { s with files }
      | .error _ => pure ()
    pure (.ok (.file p))

/-- Redirects a descriptor. What is wrong with it is given, if anything is. -/
def redirect (descriptor : Nat) (d : Direction) (target : Chars) : Running (Option Chars) := do
  match d with
  | .input =>
    match Tool.readFrom (← get).files (← get).folder target with
    | .ok t =>
      describe descriptor (.channel (← newChannel t))
      pure none
    | .error e => pure (some (chars "cannot open " ++ target ++ chars ": "
        ++ openReason e "No such file"))
  | .here =>
    describe descriptor (.channel (← newChannel (.ofBytes (bytesOf target))))
    pure none
  | .duplicate =>
    if target = ['-'] then
      modify fun s => { s with descriptors := s.descriptors.filter fun x => x.1 ≠ descriptor }
      pure none
    else
      let known := (← get).descriptors
      match (Tool.natural? target).bind fun n => known.lookup n with
      | some h =>
        describe descriptor h
        pure none
      | none => pure (some (target ++ chars ": Bad file descriptor"))
  | _ =>
    match ← create target (d = .output) with
    | .ok h =>
      describe descriptor h
      pure none
    | .error e => pure (some (chars "cannot create " ++ target ++ chars ": "
        ++ openReason e "Directory nonexistent"))

end Running

/-! ## Signals -/

/-- The signals by name. -/
def signals : List (String × Nat) :=
  [("HUP", 1), ("INT", 2), ("QUIT", 3), ("ILL", 4), ("TRAP", 5), ("ABRT", 6), ("BUS", 7),
    ("FPE", 8), ("KILL", 9), ("USR1", 10), ("SEGV", 11), ("USR2", 12), ("PIPE", 13), ("ALRM", 14),
    ("TERM", 15), ("STKFLT", 16), ("CHLD", 17), ("CONT", 18), ("STOP", 19), ("TSTP", 20),
    ("TTIN", 21), ("TTOU", 22), ("URG", 23), ("XCPU", 24), ("XFSZ", 25), ("VTALRM", 26),
    ("PROF", 27), ("WINCH", 28), ("IO", 29), ("PWR", 30), ("SYS", 31)]

/-- The signal with a name or a number. -/
def signal? (s : Chars) : Option Nat :=
  match Tool.natural? s with
  | some n => if n ≤ 64 then some n else none
  | none => (signals.find? fun p => p.1.toList = s.map Char.toUpper).map Prod.snd

/-- What is said of a program that a signal ended; nothing of the usual ones. -/
def signalWords (signal : Nat) : String :=
  match signal with
  | 1 => "Hangup"
  | 3 => "Quit"
  | 4 => "Illegal instruction"
  | 5 => "Trace/breakpoint trap"
  | 6 => "Aborted"
  | 7 => "Bus error"
  | 8 => "Floating point exception"
  | 9 => "Killed"
  | 10 => "User defined signal 1"
  | 11 => "Segmentation fault"
  | 12 => "User defined signal 2"
  | 14 => "Alarm clock"
  | 15 => "Terminated"
  | _ => ""

/-- The signals that do nothing to a program that does not ask for them. -/
def isHarmless (signal : Nat) : Bool := [0, 17, 18, 23, 28].contains signal

/-- The signals that stop a program without ending it. -/
def isStop (signal : Nat) : Bool := [19, 20, 21, 22].contains signal

end LockAudit.Shell
