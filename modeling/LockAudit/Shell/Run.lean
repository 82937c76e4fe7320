import LockAudit.Shell.Session
import LockAudit.Text.Glob

/-!
# `LockAudit.Shell.Run` — running scripts

Commands run one after the other on a session. The commands of a pipeline take the time of the longest
of them. A script that takes more steps than the bound is taken to go on for ever.

## Contents
- **Words.** `expand` replaces parameters, scripts and sums, and splits what is not quoted.
- **Commands.** `run`, with `simple` for those that name a program.
- **Programs.** `named` finds what a name stands for.
- **`shell`**, the shell as a program.
-/

namespace LockAudit.Shell

open LockAudit.Program
open Tool (Chars chars)

namespace Running

/-! ## Fields -/

/-- The fields of a word so far; the last one may go on. -/
structure Fields where
  done : List Chars
  last : Option Chars

namespace Fields

/-- No field. -/
def none : Fields := ⟨[], .none⟩

/-- Goes on with a text. -/
def add (f : Fields) (s : Chars) : Fields := { f with last := some (f.last.getD [] ++ s) }

/-- Ends the last field. -/
def cut (f : Fields) : Fields := ⟨f.done ++ f.last.toList, .none⟩

/-- A character between two fields. -/
def isBetween (c : Char) : Bool := c == ' ' || c == '\t' || c == '\n'

/-- Goes on with a text that is split at blanks. -/
def split (f : Fields) : Chars → Fields
  | [] => f
  | c :: r => if isBetween c then f.cut.split r else (f.add [c]).split r

/-- Goes on with some fields, each of its own. -/
def addAll (f : Fields) : List Chars → Fields
  | [] => f
  | [a] => f.add a
  | a :: r => (f.add a).cut.addAll r

/-- The fields. -/
def toList (f : Fields) : List Chars := f.cut.done

end Fields

/-- Takes the ends of lines off the end of a text. -/
def dropLineEnds (s : Chars) : Chars := (s.reverse.dropWhile (· == '\n')).reverse

/-- The value of a sum. -/
def sumValue (s : Session) : Sum → Option Int
  | .number n => some n
  | .variable name =>
    match parameter? s name with
    | none => some 0
    | some [] => some 0
    | some v => Tool.integer? v
  | .binary op a b => do
    let x ← sumValue s a
    let y ← sumValue s b
    match op with
    | '+' => some (x + y)
    | '-' => some (x - y)
    | '*' => some (x * y)
    | '/' => if y = 0 then Option.none else some (x.tdiv y)
    | _ => if y = 0 then Option.none else some (x.tmod y)

/-- The value of a parameter with its fallback. -/
def parameterValue (s : Session) (name : String) (fallback : Fallback) : Chars :=
  let v := if name = "*" ∨ name = "@" then some (Tool.joined s.arguments) else parameter? s name
  match fallback with
  | .nothing => v.getD []
  | .unset word => v.getD word
  | .blank word => if (v.getD []).isEmpty then word else v.getD []
  | .length => (Nat.repr (v.getD []).length).toList

/-- Whether a part of a word is what a script writes. -/
def isOutput : Part → Bool
  | .output _ _ => true
  | _ => false

/-! ## Sessions within sessions -/

/-- Runs in a shell of its own, of which only the files, the channels and the time are kept; the code
    of the last command is kept as well. -/
def apart (r : Running Unit) : Running Unit := do
  let outer ← get
  set { outer with atExit := [] }
  let ended : Option Halt ← tryCatch (do r; pure none) fun h => pure (some h)
  let inner ← get
  set { outer with
    files := inner.files, channels := inner.channels, fresh := inner.fresh
    clock := inner.clock, pending := inner.pending, status := inner.status }
  match ended with
  | some (.exit code) => finish code
  | some (.back code) => finish code
  | some (.killed signal) => throw (.killed signal)
  | some .endless => throw .endless
  | _ => pure ()

/-- Runs with other descriptors, which are put back at the end, also after a halt. -/
def withDescriptors (r : Running Unit) : Running Unit := do
  let before := (← get).descriptors
  let restore : Running Unit := modify fun s => { s with descriptors := before }
  tryCatch r fun h => do
    restore
    throw h
  restore

/-- Runs a program and takes over what it leaves behind. -/
def call (p : Tool.Program) (name : Chars) (args : List Chars) : Running Unit := do
  let s ← get
  let result := p ⟨name, args, ← input, s.files, s.folder⟩
  setInput result.rest
  modify fun s => { s with files := result.files, clock := s.clock + result.ticks }
  for (descriptor, t) in result.writes do write descriptor t
  finish result.code

/-! ## Commands of the shell -/

/-- The code that an argument asks for, in eight bits. -/
def codeOf (line : Nat) (name : String) (args : List Chars) : Running Nat := do
  match args with
  | [] => pure (← get).status
  | a :: _ =>
    match Tool.natural? a with
    | some n => pure (n % 256)
    | none =>
      complain line (chars name ++ chars ": Illegal number: " ++ a)
      throw (.exit 2)

/-- Sends a signal to the shell; there is nothing else to send it to. -/
def kill (line : Nat) (args : List Chars) : Running Unit := do
  let (signal, targets) := match args with
    | ['-', 's'] :: n :: r => (signal? n, r)
    | ['-', '-'] :: r => (some 15, r)
    | ('-' :: n) :: r => (signal? n, r)
    | r => (some 15, r)
  match signal, targets with
  | none, _ =>
    let given := (args.headD []).drop 1
    complain line (chars "kill: " ++ (match args with
      | ['-', 's'] :: n :: _ => chars "invalid signal number or name: " ++ n
      | _ => chars "Illegal option -" ++ given.take 1))
    finish 2
  | some n, [['1']] =>
    if isHarmless n || ((← get).ignored.contains n && n ≠ 9) then finish 0
    else if isStop n then throw .endless
    else throw (.killed n)
  | some _, [] =>
    complain line (chars "kill: Usage: kill [-s sigspec | -signum | -sigspec] [pid | job]... or\n"
      ++ chars "kill -l [exitstatus]")
    finish 2
  | some _, _ =>
    complain line (chars "kill: No such process\n")
    finish 1

/-- Goes to another folder. -/
def changeFolder (line : Nat) (args : List Chars) : Running Unit := do
  let s ← get
  let target := args.headD []
  let p := s.folder.join (.ofString (textOf target))
  let p : Path := ⟨p.root, Path.collapse true p.names⟩
  if s.files.isFolder p then
    set { s with folder := p }
    finish 0
  else
    complain line (chars "cd: can't cd to " ++ target)
    finish 2

/-- Reads a line of the input into variables. -/
def readLine (names : List Chars) : Running Unit := do
  let t ← input
  let line := t.bytes.takeWhile (· ≠ 10)
  let isWhole := line.length < t.bytes.length
  setInput ⟨t.bytes.drop (line.length + 1), t.pattern⟩
  let s := (line.map fun b => Char.ofNat b.toNat)
  let trim (s : Chars) : Chars := s.dropWhile Fields.isBetween
  let rec fill : List Chars → Chars → Running Unit
    | [], _ => pure ()
    | [n], s => assign (textOf n) (trim (trim s).reverse).reverse
    | n :: r, s => do
      let s := trim s
      let w := s.takeWhile fun c => !Fields.isBetween c
      assign (textOf n) w
      fill r (s.drop w.length)
  fill (names.filter (· ≠ ['-', 'r'])) s
  finish (if isWhole then 0 else 1)

/-- Sets what signals do, or what is run at the end. -/
def trap (args : List Chars) : Running Unit := do
  match args with
  | action :: names =>
    for n in names do
      if n = chars "EXIT" ∨ n = ['0'] then modify fun s => { s with atExit := action }
      else match signal? n with
        | some k =>
          modify fun s =>
            { s with ignored := if action.isEmpty then k :: s.ignored else s.ignored.erase k }
        | none => pure ()
  | [] => pure ()
  finish 0

/-- Changes the switches and the arguments of the shell. -/
def setSwitches (args : List Chars) : Running Unit := do
  match args with
  | ['-', '-'] :: r => modify fun s => { s with arguments := r }
  | ('-' :: letters) :: _ => modify fun s => { s with isStrict := s.isStrict || letters.contains 'e' }
  | ('+' :: letters) :: _ => modify fun s => { s with isStrict := s.isStrict && !letters.contains 'e' }
  | [] => pure ()
  | _ => modify fun s => { s with arguments := args }
  finish 0

/-- Drops arguments of the shell. -/
def shift (line : Nat) (args : List Chars) : Running Unit := do
  let n := (args.head?.bind Tool.natural?).getD 1
  let s ← get
  if n ≤ s.arguments.length then
    set { s with arguments := s.arguments.drop n }
    finish 0
  else
    complain line (chars "shift: can't shift that many")
    throw (.exit 2)

/-- Lets other programs see variables. -/
def exportAll (args : List Chars) : Running Unit := do
  for a in args do
    let name := a.takeWhile (· ≠ '=')
    if name.length < a.length then assign (textOf name) (a.drop (name.length + 1))
    modify fun s => { s with exported := textOf name :: s.exported }
  finish 0

/-- Forgets variables. -/
def unset (args : List Chars) : Running Unit := do
  for a in args do
    modify fun s => { s with values := s.values.filter fun v => v.1 ≠ textOf a }
  finish 0

/-- A command that the shell has for itself and that runs no other. -/
def own? (line : Nat) (name : String) (args : List Chars) : Option (Running Unit) :=
  match name with
  | "exit" => some (do throw (.exit (← codeOf line name args)))
  | "return" => some (do throw (.back (← codeOf line name args)))
  | "kill" => some (kill line args)
  | "cd" => some (changeFolder line args)
  | "read" => some (readLine args)
  | "trap" => some (trap args)
  | "set" => some (setSwitches args)
  | "shift" => some (shift line args)
  | "export" => some (exportAll args)
  | "unset" => some (unset args)
  | "wait" => some (do
      modify fun s => { s with clock := max s.clock s.pending }
      finish 0)
  | "break" => some (throw (.leave ((args.head?.bind Tool.natural?).getD 1)))
  | "continue" => some (throw (.again ((args.head?.bind Tool.natural?).getD 1)))
  | _ =>
    (Tool.builtin? name).map fun p => do
      let shell := (← get).name
      let own := shell ++ chars ": " ++ (Nat.repr line).toList ++ chars (": " ++ name)
      call p own args

/-! ## Programs in files -/

/-- Where the programs of the system are. -/
def systemFolders : List (List String) := [["bin"], ["usr", "bin"]]

/-- The program of the system at a path. -/
def systemName? (p : Path) : Option String :=
  if systemFolders.contains p.names.dropLast then some p.name else none

/-- Whether a path is a folder of the system. -/
def isSystemFolder (p : Path) : Bool :=
  p.names.isEmpty || p.names == ["usr"] || systemFolders.contains p.names

/-- What the shell does when it cannot run a program. -/
def refuseProgram (line : Nat) (shown : Chars) (e : SystemError) : Running Unit := do
  if e = .noPermission then
    complain line (shown ++ chars ": Permission denied")
    finish 126
  else
    complain line (shown ++ chars ": not found")
    finish 127

/-- What `env` does when it cannot run a program. -/
def refuseForEnv (name : Chars) (e : SystemError) : Running Unit := do
  write 2 (.ofBytes (bytesOf
    (chars "env: " ++ Tool.inMarks name ++ chars ": " ++ chars e.reason ++ ['\n'])))
  finish (if e = .noEntry then 127 else 126)

/-- Whether a program of the system is the shell. -/
def isShell (name : String) : Bool := name == "sh" || name == "dash"

/-- The first line of a script: the interpreter and its argument, if it has one. -/
def interpreter? (bytes : List UInt8) : Option (Chars × List Chars) :=
  match (bytes.takeWhile (· ≠ 10)).map fun b => Char.ofNat b.toNat with
  | '#' :: '!' :: r =>
    let isGap (c : Char) : Bool := c == ' ' || c == '\t'
    let r := (r.dropWhile isGap).reverse.dropWhile isGap |>.reverse
    let path := r.takeWhile fun c => !isGap c
    let argument := (r.drop path.length).dropWhile isGap
    if path.isEmpty then none
    else some (path, if argument.isEmpty then [] else [argument])
  | _ => none

/-- Runs a shell as a program of its own. It sees the variables that are for other programs, and leaves
    its code behind. -/
def inner (r : Running Unit) : Running Unit := do
  let outer ← get
  let seen := outer.values.filter fun v => outer.exported.contains v.1
  set { outer with functions := [], values := seen, status := 0, isStrict := false, atExit := [] }
  let ended : Option Halt ← tryCatch (do r; pure none) fun h => pure (some h)
  let s ← get
  set { outer with
    files := s.files, channels := s.channels, fresh := s.fresh, clock := s.clock
    pending := s.pending, status := s.status }
  match ended with
  | some (.exit code) => finish code
  | some (.killed signal) =>
    let words := signalWords signal
    if words ≠ "" then write 2 (.ofBytes (bytesOf (chars words ++ ['\n'])))
    finish (128 + signal)
  | some .endless => throw .endless
  | _ => pure ()

/-- Names the shell and gives it arguments. -/
def nameShell (name : Chars) (arguments : List Chars) : Running Unit :=
  modify fun s => { s with name, arguments }

/-! ## Running -/

/-- Ends a strict shell after a simple command or a pipeline that failed. -/
def stopOnFailure (c : Command) : Running Unit := do
  let s ← get
  match c with
  | .simple _ _ _ _ | .pipe _ _ | .apart _ _ =>
    if s.isStrict ∧ s.status ≠ 0 then throw (.exit s.status)
  | _ => pure ()

mutual

/-- The fields that a part adds. -/
def part : Nat → Part → Fields → Running Fields
  | 0, _, _ => throw .endless
  | n + 1, p, f => do
    match p with
    | .text s => pure (f.add s)
    | .quoted s => pure (f.add s)
    | .parameter name fallback isQuoted =>
      let s ← get
      if name = "@" ∧ isQuoted ∧ fallback = .nothing then pure (f.addAll s.arguments)
      else
        let v := parameterValue s name fallback
        pure (if isQuoted then f.add v else f.split v)
    | .output text isQuoted =>
      let id ← newChannel .empty
      withDescriptors (do
        describe 1 (.channel id)
        apart (lines n (.start text)))
      let s := dropLineEnds ((← channel id).bytes.map fun b => Char.ofNat b.toNat)
      pure (if isQuoted then f.add s else f.split s)
    | .sum e isQuoted =>
      match sumValue (← get) e with
      | some v => pure (if isQuoted then f.add (chars (toString v)) else f.split (chars (toString v)))
      | none =>
        complain 1 (chars "arithmetic expression: expecting primary")
        throw (.exit 2)

/-- The fields of the parts of a word. -/
def parts : Nat → Word → Fields → Running Fields
  | 0, _, _ => throw .endless
  | _ + 1, [], f => pure f
  | n + 1, p :: r, f => do parts n r (← part n p f)

/-- The fields of words. -/
def expand : Nat → List Word → Running (List Chars)
  | 0, _ => throw .endless
  | _ + 1, [] => pure []
  | n + 1, w :: r => do
    let fields := (← parts n w .none).toList
    pure (fields ++ (← expand n r))

/-- A word as one text. -/
def single : Nat → Word → Running Chars
  | 0, _ => throw .endless
  | n + 1, w => do pure (Tool.joined (← parts n w .none).toList)

/-- Redirects descriptors one after the other, and says whether all could be. -/
def redirectAll : Nat → Nat → List Redirection → Running Bool
  | 0, _, _ => throw .endless
  | _ + 1, _, [] => pure true
  | n + 1, line, .mk descriptor d target :: r => do
    match ← redirect descriptor d (← single n target) with
    | none => redirectAll n line r
    | some complaint =>
      complain line complaint
      finish 2
      pure false

/-- Runs with redirections. -/
def redirected : Nat → Nat → List Redirection → Running Unit → Running Unit
  | 0, _, _, _ => throw .endless
  | n + 1, line, rs, r =>
    if rs.isEmpty then r
    else withDescriptors (do if ← redirectAll n line rs then r)

/-- Gives variables their values. -/
def assignAll : Nat → List (String × Word) → Running Unit
  | 0, _ => throw .endless
  | _ + 1, [] => pure ()
  | n + 1, (name, w) :: r => do
    assign name (← single n w)
    assignAll n r

/-- Runs the program that a name stands for. -/
def named : Nat → Nat → Chars → List Chars → (SystemError → Running Unit) → Running Unit
  | 0, _, _, _, _ => throw .endless
  | n + 1, line, name, args, refuse => do
    if !name.contains '/' then system n line (textOf name) name args refuse
    else
      let s ← get
      let p := s.folder.join (.ofString (textOf name))
      match systemName? p with
      | some known => system n line known name args refuse
      | none =>
        if isSystemFolder p then refuse .noPermission
        else match s.files.find p with
        | .error e => refuse e
        | .ok (.folder _) => refuse .noPermission
        | .ok (.file bytes x) =>
          if name.getLast? = some '/' then refuse .notFolder
          else if !x then refuse .noPermission
          else
            let text := bytes.map fun b => Char.ofNat b.toNat
            match interpreter? bytes with
            | none => inner (do
                nameShell name args
                toTheEnd n (lines n (.start text)))
            | some (path, extra) => named n line path (extra ++ name :: args) refuse

/-- Runs a program of the system. -/
def system :
    Nat → Nat → String → Chars → List Chars → (SystemError → Running Unit) → Running Unit
  | 0, _, _, _, _, _ => throw .endless
  | n + 1, line, known, name, args, refuse =>
    if isShell known then inner (shell n name args)
    else if known = "env" then
      match args with
      | c :: r => named n line c r (refuseForEnv c)
      | [] => finish 0
    else match Tool.named? known with
      | some p => call p name args
      | none => refuse .noEntry

/-- Runs what the arguments of a shell ask for, and then what is set for the end. -/
def shell : Nat → Chars → List Chars → Running Unit
  | 0, _, _ => throw .endless
  | n + 1, name, args => do
    match args with
    | ['-', 'e'] :: r =>
      modify fun s => { s with isStrict := true }
      shell n name r
    | ['-', 'e', 'c'] :: r =>
      modify fun s => { s with isStrict := true }
      shell n name (['-', 'c'] :: r)
    | ['-', 'c'] :: text :: r =>
      nameShell (r.headD name) (r.drop 1)
      toTheEnd n (lines n (.start text))
    | ['-', 'c'] :: [] =>
      write 2 (.ofBytes (bytesOf (name ++ chars ": 0: -c requires an argument\n")))
      finish 2
    | r =>
      nameShell name r
      toTheEnd n (scriptFile n name r)

/-- Runs something and then what is set for the end. -/
def toTheEnd : Nat → Running Unit → Running Unit
  | 0, _ => throw .endless
  | n + 1, r => do
    let ended : Option Halt ← tryCatch (do r; pure none) fun h => pure (some h)
    match ended with
    | some (.killed signal) => throw (.killed signal)
    | some .endless => throw .endless
    | _ =>
      match ended with
      | some (.exit code) => finish code
      | some (.back code) => finish code
      | some _ => finish 0
      | none => pure ()
      let code := (← get).status
      let text := (← get).atExit
      modify fun s => { s with atExit := [] }
      if !text.isEmpty then
        lines n (.start text)
        finish code

/-- Runs the script in the file that the first argument names, or in the input. -/
def scriptFile : Nat → Chars → List Chars → Running Unit
  | 0, _, _ => throw .endless
  | n + 1, name, args => do
    match args with
    | [] =>
      let t ← input
      setInput .empty
      lines n (.start (t.bytes.map fun b => Char.ofNat b.toNat))
    | file :: r =>
      let s ← get
      match Tool.readFrom s.files s.folder file with
      | .ok t =>
        modify fun s => { s with name := file, arguments := r }
        lines n (.start (t.bytes.map fun b => Char.ofNat b.toNat))
      | .error .isFolder => finish 0
      | .error e =>
        write 2 (.ofBytes (bytesOf (name ++ chars ": 0: cannot open " ++ file ++ chars ": "
          ++ openReason e "No such file" ++ ['\n'])))
        throw (.exit 2)

/-- Runs a simple command whose words are known. -/
def simple : Nat → Nat → List Chars → Running Unit
  | 0, _, _ => throw .endless
  | _ + 1, _, [] => finish 0
  | n + 1, line, name :: args => do
    match textOf name with
    | "eval" => lines n ⟨Tool.joined args, line, 0⟩
    | "exec" =>
      match args with
      | [] => pure ()
      | c :: r =>
        named n line c r (refuseProgram line (chars "exec: " ++ c))
        throw (.exit (← get).status)
    | "local" =>
      for a in args do
        let name := a.takeWhile (· ≠ '=')
        assign (textOf name) (a.drop (name.length + 1))
      finish 0
    | "command" => simple n line args
    | "." =>
      let s ← get
      let file := args.headD []
      match Tool.readFrom s.files s.folder file with
      | .ok t => lines n (.start (t.bytes.map fun b => Char.ofNat b.toNat))
      | .error e =>
        complain line (chars ".: cannot open " ++ file ++ chars ": " ++ openReason e "No such file")
        throw (.exit 2)
    | known =>
      match (← get).functions.lookup known with
      | some body => function n body args
      | none => (own? line known args).getD (named n line name args (refuseProgram line name))

/-- Runs a command that has been given a name, with arguments of its own. -/
def function : Nat → Command → List Chars → Running Unit
  | 0, _, _ => throw .endless
  | n + 1, body, args => do
    let before := (← get).arguments
    modify fun s => { s with arguments := args }
    let restore : Running Unit := modify fun s => { s with arguments := before }
    tryCatch (run n body) fun h =>
      match h with
      | .back code => finish code
      | h => do
        restore
        throw h
    restore

/-- Runs the first command of which a pattern matches a word. -/
def chosen : Nat → Chars → List (List Word × Command) → Running Unit
  | 0, _, _ => throw .endless
  | _ + 1, _, [] => pure ()
  | n + 1, w, (patterns, c) :: r => do
    let matches? (p : Word) : Running Bool := do
      let s ← pattern n p
      pure (Text.Glob.accepts (String.ofList s) (String.ofList w))
    if ← patterns.anyM matches? then run n c else chosen n w r

/-- The pattern that a word is. What is quoted stands for itself. -/
def pattern : Nat → Word → Running Chars
  | 0, _ => throw .endless
  | _ + 1, [] => pure []
  | n + 1, p :: r => do
    let s ← single n [p]
    let s := match p with
      | .text _ => s
      | _ => s.flatMap fun c => if "*?[".toList.contains c then ['[', c, ']'] else [c]
    pure (s ++ (← pattern n r))

/-- Runs a command. -/
def run : Nat → Command → Running Unit
  | 0, _ => throw .endless
  | n + 1, c => do
    match c with
    | .nothing => pure ()
    | .simple line assignments words rs =>
      let fields ← expand n words
      if fields = [chars "exec"] then
        if !(← redirectAll n line rs) then throw (.exit 2)
      else
        redirected n line rs (do
          if fields.isEmpty then
            assignAll n assignments
            if !(assignments.any fun a => a.2.any isOutput) then finish 0
          else
            let before := (← get).values
            assignAll n assignments
            if !assignments.isEmpty then
              modify fun s => { s with exported := assignments.map Prod.fst ++ s.exported }
            simple n line fields
            if !assignments.isEmpty then modify fun s => { s with values := before })
    | .pipe left right =>
      let id ← newChannel .empty
      let start := (← get).clock
      withDescriptors (do
        describe 1 (.channel id)
        apart (run n left))
      let leftEnd := (← get).clock
      modify fun s => { s with clock := start }
      withDescriptors (do
        describe 0 (.channel id)
        apart (run n right))
      modify fun s => { s with clock := max s.clock leftEnd }
    | .negation c =>
      run n c
      finish (if (← get).status = 0 then 1 else 0)
    | .both left right =>
      tested n left
      if (← get).status = 0 then run n right
    | .either left right =>
      tested n left
      if (← get).status ≠ 0 then run n right
    | .sequence left right =>
      run n left
      stopOnFailure left
      run n right
    | .background c =>
      let start := (← get).clock
      let id ← newChannel .empty
      withDescriptors (do
        describe 0 (.channel id)
        apart (run n c))
      modify fun s => { s with clock := start, pending := max s.pending s.clock }
      finish 0
    | .apart c rs => redirected n 1 rs (apart (run n c))
    | .group c rs => redirected n 1 rs (run n c)
    | .condition test first second =>
      tested n test
      if (← get).status = 0 then run n first
      else
        finish 0
        run n second
    | .loop isUntil test body =>
      finish 0
      repeated n isUntil test body 0
    | .choice w cases =>
      let s ← single n w
      finish 0
      chosen n s cases
    | .definition name body =>
      modify fun s => { s with functions := (name, body) :: s.functions }
      finish 0
    | .each name words body =>
      let fields ← expand n words
      finish 0
      eachOf n name fields body

/-- Runs a command whose failure is looked at, so that it does not end a strict shell. -/
def tested : Nat → Command → Running Unit
  | 0, _ => throw .endless
  | n + 1, c => do
    let strict := (← get).isStrict
    modify fun s => { s with isStrict := false }
    run n c
    modify fun s => { s with isStrict := strict }

/-- Runs the body of a loop, and says whether the loop goes on. -/
def once : Nat → Command → Running Bool
  | 0, _ => throw .endless
  | n + 1, body =>
    tryCatch (do
      run n body
      pure true) fun h =>
      match h with
      | .leave k => if k ≤ 1 then pure false else throw (.leave (k - 1))
      | .again k => if k ≤ 1 then pure true else throw (.again (k - 1))
      | h => throw h

/-- Runs the body of a loop as long as the test says, and gives the code of its last run. -/
def repeated : Nat → Bool → Command → Command → Nat → Running Unit
  | 0, _, _, _, _ => throw .endless
  | n + 1, isUntil, test, body, code => do
    tested n test
    if ((← get).status = 0) = isUntil then finish code
    else if ← once n body then
      let code := (← get).status
      repeated n isUntil test body code

/-- Runs the body of a loop for each of some values. -/
def eachOf : Nat → String → List Chars → Command → Running Unit
  | 0, _, _, _ => throw .endless
  | _ + 1, _, [], _ => pure ()
  | n + 1, name, v :: r, body => do
    assign name v
    if ← once n body then eachOf n name r body

/-- Reads and runs lines until the script is over. -/
def lines : Nat → Place → Running Unit
  | 0, _ => throw .endless
  | n + 1, p => do
    match Reader.line.run p with
    | .error (fault, line) =>
      complain line (chars fault.message)
      throw (.exit 2)
    | .ok (none, _) => pure ()
    | .ok (some c, rest) =>
      run n c
      stopOnFailure c
      lines n rest

end

/-- The most steps within each other that are reckoned. -/
def bound : Nat := 100000

end Running

end LockAudit.Shell
