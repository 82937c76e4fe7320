import LockAudit.FileTree
import LockAudit.Program.Stream
import LockAudit.Program.Supervision
import LockAudit.Shell.Format

/-!
# `LockAudit.Shell.Tool` — the small programs of a system

What the programs do that every system has: they read arguments, a stream and files, write to two
descriptors, and take some time. None of them is more than a function here.

## Contents
- **`Tool.Call`, `Tool.Result`**.
- **Files.** `read`, with the two devices.
- **The programs.** `cat`, `head`, `tr`, `sleep`, `rm`, `seq`, `yes`, `wc` and some more.
- **`Tool.named?`**, a program by its name.
-/

namespace LockAudit.Shell.Tool

open LockAudit.Program

/-- A text of which every character stands for a byte. -/
abbrev Chars := List Char

/-- What a program is called with. -/
structure Call where
  /-- How it names itself in messages. -/
  name : Chars
  arguments : List Chars
  input : Stream
  files : FileTree
  folder : Path

/-- What a program leaves behind. -/
structure Result where
  code : Nat
  /-- What it wrote, and to which descriptor, in order. -/
  writes : List (Nat × Stream)
  /-- What it left of its input. -/
  rest : Stream
  files : FileTree
  /-- The ticks that it took. -/
  ticks : Nat

/-- A program. -/
abbrev Program := Call → Result

/-- The bytes of a text that is known. -/
def chars (s : String) : Chars := s.toList

/-- A program that ends with a code and does nothing else. -/
def Call.done (c : Call) (code : Nat) : Result := ⟨code, [], c.input, c.files, 0⟩

/-- Adds something that is written after all else. -/
def Result.write (r : Result) (descriptor : Nat) (s : Stream) : Result :=
  { r with writes := r.writes ++ [(descriptor, s)] }

/-- A program that writes a text and succeeds. -/
def Call.say (c : Call) (s : Chars) : Result := (c.done 0).write 1 (.ofBytes (bytesOf s))

/-- A message of a program. -/
def Call.message (c : Call) (s : Chars) : Stream :=
  .ofBytes (bytesOf (c.name ++ chars ": " ++ s ++ ['\n']))

/-- A program that fails with a message. -/
def Call.fail (c : Call) (code : Nat) (s : Chars) : Result := (c.done code).write 2 (c.message s)

/-! ## Files -/

/-- The path that a text names. -/
def Call.path (c : Call) (s : Chars) : Path := c.folder.join (.ofString (textOf s))

/-- Opens a file or a device to read. -/
def readFrom (files : FileTree) (folder : Path) (s : Chars) : Except SystemError Stream :=
  let p := folder.join (.ofString (textOf s))
  if s.isEmpty then .error .noEntry
  else if p.names = ["dev", "null"] then .ok .empty
  else if p.names = ["dev", "zero"] then .ok ⟨[], [0]⟩
  else (files.readFile p).map .ofBytes

/-- Opens what an argument names; a hyphen stands for the input. -/
def Call.open (c : Call) (s : Chars) : Except SystemError Stream :=
  if s = ['-'] then .ok c.input else readFrom c.files c.folder s

/-- Reads the arguments one after the other, or the input without any, and goes on past those that
    cannot be read. -/
def Call.each (c : Call) (args : List Chars) (f : Stream → Stream)
    (refusal : Chars → SystemError → Chars) : Result :=
  let args := if args.isEmpty then [['-']] else args
  args.foldl (fun r a =>
    match c.open a with
    | .ok s => (if a = ['-'] then { r with rest := .empty } else r).write 1 (f s)
    | .error e => { r with code := 1 }.write 2 (c.message (refusal a e))) (c.done 0)

/-! ## The programs -/

/-- A text between single quotes. -/
def inQuotes (s : Chars) : Chars := '\'' :: s ++ ['\'']

/-- A text between quotation marks. -/
def inMarks (s : Chars) : Chars := byteChars "‘" ++ s ++ byteChars "’"

/-- Puts files one after the other. -/
def cat (c : Call) : Result :=
  c.each (c.arguments.filter (· ≠ ['-', 'u'])) id fun a e => a ++ chars ": " ++ chars e.reason

/-- The beginning of a stream: some bytes, or some lines. -/
def beginning (isLines : Bool) (n : Nat) (s : Stream) : Stream :=
  if !isLines then .ofBytes (s.take n)
  else
    let bs := s.take (s.bytes.length + n * s.pattern.length)
    let rec lines : Nat → List UInt8 → List UInt8
      | 0, _ => []
      | _, [] => []
      | n + 1, b :: r => b :: (if b = 10 then lines n r else lines (n + 1) r)
    .ofBytes (lines n bs)

/-- The number that an argument is. -/
def natural? (s : Chars) : Option Nat :=
  if !s.isEmpty && s.all Text.isAsciiDigit then some (Format.count s) else none

/-- The words that point to the help of a program. -/
def Call.help (c : Call) : Chars :=
  chars "\nTry '" ++ c.name ++ chars " --help' for more information."

/-- How much `head` takes: whether lines or bytes, and how many; and its other arguments. -/
def headAmount (c : Call) : Except Chars (Bool × Nat × List Chars) :=
  let amount (isLines : Bool) (s : Chars) (r : List Chars) :=
    match natural? s with
    | some n => Except.ok (isLines, n, r)
    | none => .error (chars (if isLines then "invalid number of lines: " else
        "invalid number of bytes: ") ++ inMarks s)
  match c.arguments with
  | [['-', letter]] =>
    match natural? [letter] with
    | some n => .ok (true, n, [])
    | none => .error (chars "option requires an argument -- '" ++ [letter, '\''] ++ c.help)
  | ['-', 'n'] :: s :: r => amount true s r
  | ['-', 'c'] :: s :: r => amount false s r
  | ('-' :: 'n' :: s) :: r => amount true s r
  | ('-' :: 'c' :: s) :: r => amount false s r
  | ('-' :: d :: s) :: r => amount true (d :: s) r
  | r => .ok (true, 10, r)

/-- The title above a file among others. -/
def headTitle (isFirst : Bool) (s : Chars) : Stream :=
  let name := if s = ['-'] then chars "standard input" else s
  .ofBytes (bytesOf ((if isFirst then [] else ['\n']) ++ chars "==> " ++ name ++ chars " <==\n"))

/-- The beginning of files. -/
def head (c : Call) : Result :=
  match headAmount c with
  | .error e => c.fail 1 e
  | .ok (isLines, n, args) =>
    let args := if args.isEmpty then [['-']] else args
    args.foldl (fun r a =>
      match c.open a with
      | .ok s =>
        let r := if args.length = 1 then r
          else r.write 1 (headTitle (r.writes.all fun w => w.1 ≠ 1) a)
        (if a = ['-'] then { r with rest := .empty } else r).write 1 (beginning isLines n s)
      | .error e => { r with code := 1 }.write 2 (c.message
          (chars "cannot open " ++ inQuotes a ++ chars " for reading: " ++ chars e.reason)))
      (c.done 0)

/-- The characters of a set: escapes and ranges are written out. -/
def setChars : Nat → Chars → Chars
  | 0, _ => []
  | _, [] => []
  | n + 1, s =>
    let (a, r) := match s with
      | '\\' :: r => Format.escape r
      | c :: r => (c, r)
      | [] => ('\x00', [])
    match r with
    | '-' :: b :: t =>
      if a ≤ b then
        (List.range (b.toNat + 1 - a.toNat)).map (fun i => Char.ofNat (a.toNat + i))
          ++ setChars n t
      else a :: setChars n r
    | _ => a :: setChars n r

/-- What becomes of a byte when the characters of a set turn into those of another. The last character
    stands for those that are missing. -/
def substituted (set other : Chars) (b : UInt8) : UInt8 :=
  match set.reverse.idxOf? (Char.ofNat b.toNat) with
  | none => b
  | some i =>
    match other[set.length - 1 - i]? with
    | some c => UInt8.ofNat c.toNat
    | none => (other.getLast?.map fun c => UInt8.ofNat c.toNat).getD b

/-- Changes or deletes characters of the input. -/
def tr (c : Call) : Result :=
  let set (s : Chars) : Chars := setChars (s.length + 1) s
  let all (f : UInt8 → Option UInt8) : Result :=
    { c.done 0 with rest := .empty }.write 1 (c.input.filterMap f)
  match c.arguments with
  | [['-', 'd'], a] =>
    let gone := bytesOf (set a)
    all fun b => if gone.contains b then none else some b
  | [a, b] => let (a, b) := (set a, set b); all fun x => some (substituted a b x)
  | [] => c.fail 1 (chars "missing operand" ++ c.help)
  | [a] => c.fail 1 (chars "missing operand after " ++ inMarks a
      ++ chars "\nTwo strings must be given when translating." ++ c.help)
  | _ :: _ :: a :: _ => c.fail 1 (chars "extra operand " ++ inMarks a ++ c.help)

/-- The ticks of a duration, with a unit of time behind it. -/
def duration? (s : Chars) : Option Nat := do
  let unit : Nat := match s.getLast? with
    | some 'm' => 60
    | some 'h' => 3600
    | some 'd' => 86400
    | _ => 1
  let s := if s.getLast?.any fun c => "smhd".toList.contains c then s.dropLast else s
  let whole := s.takeWhile Text.isAsciiDigit
  let places := match s.drop whole.length with
    | '.' :: r => some r
    | [] => some []
    | _ => none
  let places ← places
  if (whole.isEmpty && places.isEmpty) || !places.all Text.isAsciiDigit then none
  else
    let den := tenTo places.length
    some ((Format.count (whole ++ places) * unit * ticksPerSecond + den - 1) / den)

/-- Waits. -/
def sleep (c : Call) : Result :=
  if c.arguments.isEmpty then
    c.fail 1 (chars "missing operand" ++ c.help)
  else match c.arguments.find? fun a => a.head? = some '-' || (duration? a).isNone with
    | none => { c.done 0 with ticks := (c.arguments.filterMap duration?).foldl (· + ·) 0 }
    | some ('-' :: letter :: _) => c.fail 1 (chars "invalid option -- '" ++ [letter, '\''] ++ c.help)
    | some a => c.fail 1 (chars "invalid time interval " ++ inMarks a ++ c.help)

/-- Removes files, and with a switch folders too. -/
def rm (c : Call) : Result :=
  let isSwitch (a : Chars) : Bool := a.head? = some '-' && a.length ≠ 1
  let switches := (c.arguments.filter isSwitch).flatten
  let args := c.arguments.filter fun a => !isSwitch a
  let force := switches.contains 'f'
  let deep := switches.contains 'r' || switches.contains 'R'
  if args.isEmpty && !force then
    c.fail 1 (chars "missing operand" ++ c.help)
  else
    args.foldl (fun r a =>
      let p := c.path a
      let refuse (e : SystemError) : Result :=
        { r with code := 1 }.write 2
          (c.message (chars "cannot remove " ++ inQuotes a ++ chars ": " ++ chars e.reason))
      match r.files.find p with
      | .ok (.folder _) =>
        if deep then { r with files := r.files.remove p.names } else refuse .isFolder
      | .ok (.file _ _) => { r with files := r.files.remove p.names }
      | .error e => if force then r else refuse e) (c.done 0)

/-- Counts from a number to another one. -/
def seq (c : Call) : Result :=
  let upTo (a step b : Nat) : Result :=
    if step = 0 then c.fail 1 (chars "invalid Zero increment value: '0'")
    else c.say ((List.range ((b + step - a) / step)).flatMap fun i =>
      (Nat.repr (a + step * i)).toList ++ ['\n'])
  match c.arguments.mapM natural? with
  | some [b] => upTo 1 1 b
  | some [a, b] => upTo a 1 b
  | some [a, s, b] => upTo a s b
  | _ => c.fail 1 (chars "missing operand" ++ c.help)

/-- Texts with blanks between them. -/
def joined (ss : List Chars) : Chars := [' '].intercalate ss

/-- Writes a line for ever. -/
def yes (c : Call) : Result :=
  let words := if c.arguments.isEmpty then [['y']] else c.arguments
  (c.done 0).write 1 ⟨[], bytesOf (joined words ++ ['\n'])⟩

/-- Counts the lines or the bytes of the input. -/
def wc (c : Call) : Result :=
  let count (n : Nat) : Result := { c.say ((Nat.repr n).toList ++ ['\n']) with rest := .empty }
  match c.arguments with
  | [['-', 'c']] => count c.input.bytes.length
  | [['-', 'l']] => count (c.input.bytes.count 10)
  | _ => c.fail 1 (chars "missing operand")

/-- Makes folders. -/
def mkdir (c : Call) : Result :=
  (c.arguments.filter (· ≠ ['-', 'p'])).foldl (fun r a =>
    match FileTree.makeFolders (c.path a).names r.files with
    | .ok files => { r with files }
    | .error e => { r with code := 1 }.write 2
        (c.message (chars "cannot create directory " ++ inQuotes a ++ chars ": " ++ chars e.reason)))
    (c.done 0)

/-- Makes empty files. -/
def touch (c : Call) : Result :=
  c.arguments.foldl (fun r a =>
    if r.files.contains (c.path a) then r
    else match FileTree.write (.file [] false) (c.path a).names r.files with
      | .ok files => { r with files }
      | .error e => { r with code := 1 }.write 2
          (c.message (chars "cannot touch " ++ inQuotes a ++ chars ": " ++ chars e.reason))) (c.done 0)

/-- Writes its arguments; a switch leaves the end of the line away. -/
def echo (c : Call) : Result :=
  match c.arguments with
  | ['-', 'n'] :: args => c.say (joined args)
  | args => c.say (joined args ++ ['\n'])

/-- Writes its arguments, with escapes. -/
def echoEscaped (c : Call) : Result :=
  let (args, ending) := match c.arguments with
    | ['-', 'n'] :: args => (args, [])
    | args => (args, ['\n'])
  let s := joined args
  let (s, cut) := Format.unescape (s.length + 1) s
  c.say (s ++ if cut then [] else ending)

/-- Writes its arguments in a format. -/
def printf (c : Call) : Result :=
  match c.arguments.filter (· ≠ ['-', '-']) with
  | [] => c.fail 2 (chars "usage: printf format [arg ...]")
  | f :: args =>
    let w := Format.format f args
    let r := w.defects.foldl (fun (r : Result) a =>
      { r with code := 1 }.write 2 (c.message (a ++ chars ": expected numeric value")))
      (c.say w.text)
    match w.unknown with
    | none => r
    | some d => { r with code := 2 }.write 2 (c.message (
        if d.isEmpty then chars "missing format character" else d ++ chars ": invalid directive"))

/-- The folder that it runs in. -/
def pwd (c : Call) : Result := c.say (byteChars c.folder.toString ++ ['\n'])

/-! ## Tests -/

/-- An integer argument. -/
def integer? (s : Chars) : Option Int :=
  match s with
  | '-' :: r => (natural? r).map fun n => -(n : Int)
  | _ => (natural? s).map fun n => (n : Int)

/-- A comparison of integers. -/
def comparison? (op : String) : Option (Int → Int → Bool) :=
  match op with
  | "-eq" => some (· == ·)
  | "-ne" => some (· != ·)
  | "-lt" => some (· < ·)
  | "-le" => some (· ≤ ·)
  | "-gt" => some (· > ·)
  | "-ge" => some (· ≥ ·)
  | _ => none

/-- Whether a word compares two arguments. -/
def isComparison (op : String) : Bool := op == "=" || op == "!=" || (comparison? op).isSome

/-- A question about one argument. -/
def question? (c : Call) (op : String) (a : Chars) : Option Bool :=
  let p := c.path a
  match op with
  | "-n" => some !a.isEmpty
  | "-z" => some a.isEmpty
  | "-e" => some (!a.isEmpty && c.files.contains p)
  | "-f" => some (!a.isEmpty && c.files.isFile p)
  | "-d" => some (!a.isEmpty && c.files.isFolder p)
  | "-r" => some (!a.isEmpty && c.files.contains p)
  | "-x" =>
    some (match c.files.find p with
      | .ok (.file _ x) => x
      | .ok (.folder _) => true
      | .error _ => false)
  | "-s" =>
    some (match c.files.find p with
      | .ok (.file bs _) => !bs.isEmpty
      | .ok (.folder _) => true
      | .error _ => false)
  | _ => none

/-- The answer to a test, or what is wrong with it. -/
def answer (c : Call) : List Chars → Except Chars Bool
  | [] => .ok false
  | [a] => .ok !a.isEmpty
  | [['!'], a] => .ok a.isEmpty
  | [op, a] =>
    match question? c (textOf op) a with
    | some b => .ok b
    | none =>
      if isComparison (textOf a) then .error (a ++ chars ": argument expected")
      else .error (op ++ chars ": unexpected operator")
  | [a, op, b] =>
    let op := textOf op
    if op = "=" then .ok (a = b)
    else if op = "!=" then .ok (a ≠ b)
    else match comparison? op, integer? a, integer? b with
      | some f, some x, some y => .ok (f x y)
      | some _, none, _ => .error (chars "Illegal number: " ++ a)
      | some _, _, none => .error (chars "Illegal number: " ++ b)
      | none, _, _ =>
        if a = ['!'] then
          match question? c op b with
          | some x => .ok !x
          | none => .error (chars op ++ chars ": unexpected operator")
        else .error (a ++ chars ": unexpected operator")
  | ['!'] :: rest => (answer c rest).map (!·)
  | a :: _ => .error (a ++ chars ": unexpected operator")

/-- Answers a question by its code. -/
def test (c : Call) : Result :=
  match answer c c.arguments with
  | .ok b => c.done (if b then 0 else 1)
  | .error e => c.fail 2 e

/-- Answers a question that ends in a bracket. -/
def bracket (c : Call) : Result :=
  if c.arguments.getLast? = some [']'] then test { c with arguments := c.arguments.dropLast }
  else c.fail 2 (chars "missing ]")

/-! ## Names -/

/-- The programs that are files of the system. -/
def named? (name : String) : Option Program :=
  match name with
  | "true" => some (·.done 0)
  | "false" => some (·.done 1)
  | "cat" => some cat
  | "head" => some head
  | "tr" => some tr
  | "sleep" => some sleep
  | "rm" => some rm
  | "seq" => some seq
  | "yes" => some yes
  | "wc" => some wc
  | "mkdir" => some mkdir
  | "touch" => some touch
  | "echo" => some echo
  | "printf" => some printf
  | "pwd" => some pwd
  | "test" => some test
  | "[" => some bracket
  | _ => none

/-- The programs that the shell does itself. -/
def builtin? (name : String) : Option Program :=
  match name with
  | ":" => some (·.done 0)
  | "true" => some (·.done 0)
  | "false" => some (·.done 1)
  | "echo" => some echoEscaped
  | "printf" => some printf
  | "pwd" => some pwd
  | "test" => some test
  | "[" => some bracket
  | _ => none

end LockAudit.Shell.Tool
