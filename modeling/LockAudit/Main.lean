import LockAudit.CommandLine.Command
import LockAudit.Program.Machine

/-!
# `LockAudit.Main` — the command on a described machine

The words of the command are its arguments. The machine on which it runs is described by one line of
JSON on the standard input, an object with these members, all of which may be missing:

* `folder`, the current folder, `/work` if it is missing;
* `files`, an object from paths below it to texts, or to objects with a `text` that are programs;
* `environment`, an object from the names of variables to their values;
* `status` and `body`, the response of the advisory service; without them it is out of reach.

What is shown goes to the standard output, what is wrong with the words to the standard error.
-/

namespace LockAudit.Main

/-! ## The machine -/

/-- The members of a member that is an object. -/
def members (v : Json) (key : String) : List (String × Json) :=
  match v.member? key with
  | some (.obj ms) => ms
  | _ => []

/-- A member that is a text. -/
def text? (v : Json) (key : String) : Option String := (v.member? key).bind Json.str?

/-- The current folder. -/
def hereOf (v : Json) : Path := .normalized ⟨"/", []⟩ ((text? v "folder").getD "/work")

/-- A file. -/
def fileOf (v : Json) : FileTree :=
  match v with
  | .str s => .file s.toUTF8.toList false
  | v => .file ((text? v "text").getD "").toUTF8.toList true

/-- The files, of which those that have no place are left out. -/
def filesOf (v : Json) : FileTree :=
  let here := hereOf v
  let bare := (FileTree.makeFolders here.names (.folder [])).toOption.getD (.folder [])
  (members v "files").foldl (fun t p =>
    ((fileOf p.2).write (Path.normalized here p.1).names t).toOption.getD t) bare

/-- The response of the advisory service. -/
def replyOf (v : Json) : Reply :=
  match v.member? "status", text? v "body" with
  | some (.num (.int n)), some body => .response n.toNat body.toUTF8.toList
  | _, some body => .response 200 body.toUTF8.toList
  | _, none => .unreachable "no route to host"

/-- A step to the place of an issue. -/
def stepText : Schema.Step → String
  | .key name => name
  | .index n => Nat.repr n

/-- Issues with an entry of a response, by their places. -/
def wording (issues : List Schema.Issue) : String :=
  ": " ++ ", ".intercalate (issues.map fun i => ".".intercalate (i.path.map stepText))

/-- Where the command runs. -/
def settingOf (v : Json) : Command.Setting where
  files := filesOf v
  here := hereOf v
  environment := (members v "environment").filterMap fun p => p.2.str?.map fun s => (p.1, s)
  host :=
    ⟨fun files l => Program.Machine.run .unset none files (hereOf v) l, fun _ => replyOf v, wording⟩

/-! ## The end -/

/-- The lines of an item on a terminal that knows no colors. -/
def linesOf : Console.Item → List String
  | .text s | .task s => [s]
  | .table title columns rows => title :: (columns.map (·.1) :: rows).map ("  ".intercalate ·)
  | .panel title body _ => [title, body]

/-- The exit code of an ending. -/
def exitCode : Command.Ending → UInt32
  | .stopped (.wrong _) => 2
  | .stopped _ => 0
  | .exited code => code.toUInt32
  | .escaped _ => 1

/-- What an ending leaves on the standard output and on the standard error. -/
def lastWords : Command.Ending → String × String
  | .stopped .help => ("", "")
  | .stopped .version => (CommandLine.versionText, "")
  | .stopped (.wrong message) => ("", "yarn-audit-scan: error: " ++ message ++ "\n")
  | .exited _ => ("", "")
  | .escaped t => ("", t.message ++ "\n")

end LockAudit.Main

open LockAudit in
/-- Runs the command on the machine that the input describes. -/
def main (words : List String) : IO UInt32 := do
  let line ← (← IO.getStdin).getLine
  let c := Command.run .plain (Main.settingOf ((Json.parse line).toOption.getD .null)) words
  for item in c.shown do
    for line in Main.linesOf item do
      IO.println line
  let (out, err) := Main.lastWords c.ending
  IO.print out
  IO.eprint err
  return Main.exitCode c.ending
