import LockAudit.Failure
import LockAudit.FileTree
import LockAudit.Json.Reader
import LockAudit.Text.Decoding

/-!
# `LockAudit.Manifest` — what a package declares

A package declares its name, its version and the ranges of its dependencies in a file beside its
lockfile. `Manifest.ofJson` takes the declarations from the file's value, `Manifest.read` from the
file itself.

A name or a version of the wrong kind is dropped; a section of dependencies of the wrong kind is a
fault unless it is empty, null, false or zero, which all mean that nothing is declared.

## Contents
- **Faults.** `Manifest.Fault` for the value, `Manifest.ReadFault` for the file.
- **Declarations.** `section?`, `ofJson`.
- **The file.** `readText`, `read`.
-/

namespace LockAudit

/-- The declarations of a package. -/
structure Manifest where
  name : Option String
  version : Option String
  dependencies : List (String × String)
  devDependencies : List (String × String)
  deriving DecidableEq, Repr

namespace Manifest

/-- The name of the file. -/
def fileName : String := "package.json"

/-- A package that declares nothing. -/
def empty : Manifest := ⟨none, none, [], []⟩

/-! ## Declarations -/

/-- What is wrong with a manifest's value. -/
inductive Fault
  | notObject (kind : String)
  | sectionNotObject (key : String)
  | rangeNotText (key name : String)
  deriving DecidableEq, Repr

/-- The text of a fault. -/
def Fault.message : Fault → String
  | .notObject kind => fileName ++ " must be a JSON object, got " ++ kind
  | .sectionNotObject key => fileName ++ " '" ++ key ++ "' must be an object"
  | .rangeNotText key name => fileName ++ " '" ++ key ++ "." ++ name ++ "' must be a version string"

/-- The ranges of a section, which must all be texts. -/
def ranges (key : String) : List (String × Json) → Except Fault (List (String × String))
  | [] => .ok []
  | (name, v) :: r => do
    let .str range := v | throw (.rangeNotText key name)
    let rest ← ranges key r
    pure ((name, range) :: rest)

/-- The section of a value that stands under a key. What does not count as set declares nothing. -/
def readSection (key : String) : Option Json → Except Fault (List (String × String))
  | none => .ok []
  | some v =>
    if v.isSet then
      match v with
      | .obj members => ranges key members
      | _ => .error (.sectionNotObject key)
    else .ok []

/-- The declarations in a value. -/
def ofJson : Json → Except Fault Manifest
  | .obj members => do
    let get (key : String) := Pairs.get? key members
    let dependencies ← readSection "dependencies" (get "dependencies")
    let devDependencies ← readSection "devDependencies" (get "devDependencies")
    pure ⟨(get "name").bind Json.str?, (get "version").bind Json.str?, dependencies,
      devDependencies⟩
  | v => .error (.notObject v.kindName)

/-! ## The file -/

/-- What is wrong with a manifest's file. -/
inductive ReadFault
  | missing (path : String)
  | unreadable (path reason : String)
  | malformed (path reason : String)
  | declaration (fault : Fault)
  /-- The file has a number that is too long. -/
  | numeral (refusal : Numeral.Refusal)
  /-- The path has a null character. -/
  | embeddedNull
  deriving DecidableEq, Repr

/-- A fault as what ends the step. -/
def ReadFault.trouble : ReadFault → Trouble
  | .missing path => .of .manifest (path ++ " not found")
  | .unreadable path reason => .of .manifest ("Unable to read " ++ path ++ ": " ++ reason)
  | .malformed path reason => .of .manifest ("Failed to parse " ++ path ++ ": " ++ reason)
  | .declaration fault => .of .manifest fault.message
  | .numeral r => .mishap (.numeral r)
  | .embeddedNull => .mishap .embeddedNull

/-- The text of the file: its bytes as UTF-8, with line feeds for all line ends. -/
def readText (files : FileTree) (path : Path) : Except ReadFault String :=
  let shown := path.toString
  if shown.toList.contains '\x00' then .error .embeddedNull
  else match files.readFile path with
    | .error .noEntry => .error (.missing shown)
    | .error e => .error (.unreadable shown (e.message shown))
    | .ok bytes =>
      match Text.decodeUtf8 bytes with
      | .error defect => .error (.unreadable shown defect.message)
      | .ok s => .ok (String.ofList (Text.newlines s))

/-- Reads the declarations at a path. -/
def read (files : FileTree) (path : Path) : Except ReadFault Manifest := do
  let text ← readText files path
  match Json.parse text with
  | .error (.numeral r) => throw (.numeral r)
  | .error e => throw (.malformed path.toString e.message)
  | .ok v =>
    match ofJson v with
    | .ok m => pure m
    | .error f => throw (.declaration f)

end Manifest

end LockAudit
