import LockAudit.Config.Basic
import LockAudit.FileTree
import LockAudit.Text.Decoding
import LockAudit.Yaml.Document

/-!
# `LockAudit.Config.File` — configurations in files

A configuration is a YAML document in a file with one of six names, or in a file that is named. A
file that cannot be used does not stop the scan: the defaults hold then, and a warning is due.

## Contents
- **Finding.** `fileNames`, `findFile?`.
- **Reading.** `ofValue?` and `ofBytes?`.
- **`Loading`**, what came of it, and `load`.
-/

namespace LockAudit.Config

open Yaml (Value)

/-! ## Finding -/

/-- The names under which a configuration is looked for, the first one first. -/
def fileNames : List (List String) :=
  [[".yarn-audit.yml"], [".yarn-audit.yaml"], ["yarn-audit.yml"], ["yarn-audit.yaml"],
    [".github", "yarn-audit.yml"], [".github", "yarn-audit.yaml"]]

/-- Whether there is anything at a path below another; a name may be too long to ask. -/
def isThere (files : FileTree) (here p : Path) : Except Mishap Bool :=
  match files.find (here.join p) with
  | .ok _ => .ok true
  | .error .nameTooLong => .error (.system ⟨.nameTooLong, p⟩)
  | .error _ => .ok false

/-- The first of some paths at which there is anything. -/
def firstThere? (files : FileTree) (here : Path) : List Path → Except Mishap (Option Path)
  | [] => .ok none
  | p :: ps => do if ← isThere files here p then pure (some p) else firstThere? files here ps

/-- The configuration file of a folder. -/
def findFile? (files : FileTree) (folder : Path) : Except Mishap (Option Path) :=
  firstThere? files folder (fileNames.map fun ns => ⟨folder.root, folder.names ++ ns⟩)

/-! ## Reading -/

/-- The settings that are one of some names. -/
def choiceKeys : List String := ["dev_dependency_policy", "fail_on_severity"]

/-- A single setting as it is written. What no setting can be becomes a list. Bytes are read as a text,
    but they are never one of some names. -/
def scalarMember (isChoice : Bool) : Value → Json
  | .null => .null
  | .bool b => .bool b
  | .number n => .num n
  | .text s => .str s
  | .bytes bs =>
    match isChoice, Text.decodeUtf8 bs with
    | false, .ok s => .str (String.ofList s)
    | _, _ => .arr []
  | _ => .arr []

/-- The entries whose keys are names. Of two with one name the later counts. -/
def namedEntries (entries : List (Value × Value)) : List (String × Value) :=
  Pairs.ofList (entries.filterMap fun e =>
    match e.1 with
    | .text s => some (s, e.2)
    | _ => none)

/-- A setting or a section of settings. -/
def member : Value → Json
  | .map entries =>
    .obj ((namedEntries entries).map fun e => (e.1, scalarMember (choiceKeys.contains e.1) e.2))
  | v => scalarMember false v

/-- Whether a key is a name. -/
def isName : Value → Bool
  | .text _ => true
  | _ => false

/-- Reads the configuration that a document holds. A document that says nothing leaves the defaults. -/
def ofValue? (v : Value) : Option Config :=
  if !v.isSet then some .standard
  else match v with
    | .map entries =>
      if entries.all fun e => isName e.1 then
        (ofMembers ((namedEntries entries).map fun e => (e.1, member e.2))).toOption
      else none
    | _ => none

/-- Reads the configuration in a file. -/
def ofBytes? (bytes : List UInt8) : Option Config :=
  match Text.decodeUtf8 bytes with
  | .error _ => none
  | .ok s => (Yaml.parse (Text.newlines s)).toOption.bind ofValue?

/-! ## Loading -/

/-- What came of looking for a configuration. -/
inductive Loading
  | absent
  | read (c : Config)
  | rejected
  deriving DecidableEq, Repr

/-- The configuration to use. -/
def Loading.config : Loading → Config
  | .read c => c
  | _ => .standard

/-- Whether the operator is to be warned. -/
def Loading.warns : Loading → Bool
  | .rejected => true
  | _ => false

/-- Loads the configuration at a path below another. -/
def loadFile (files : FileTree) (here p : Path) : Except Mishap Loading := do
  if !(← isThere files here p) then return .absent
  match files.readFile (here.join p) with
  | .error _ => pure .rejected
  | .ok bytes =>
    match ofBytes? bytes with
    | some c => pure (.read c)
    | none => pure .rejected

/-- Loads the configuration that is named, below the current folder, or else the one of a folder. -/
def load (files : FileTree) (here folder : Path) (named : Option Path) : Except Mishap Loading := do
  match named with
  | some p => loadFile files here p
  | none =>
    match ← findFile? files folder with
    | some p => loadFile files folder p
    | none => pure .absent

end LockAudit.Config
