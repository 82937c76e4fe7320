import LockAudit.Failure
import LockAudit.Json.Value
import LockAudit.Text.Blank
import LockAudit.VersionIndex

/-!
# `LockAudit.Payload.Tree` — the dependency tree of a payload

The package manager's audit request holds the resolved dependency tree as nested objects. Of each
entry a `Node` keeps what the advisory service uses: version, integrity, required ranges, the mark of
a development dependency, and the entries below it. Reading stops at the first entry that is
malformed and names it by the keys that lead to it.

## Contents
- **Nodes.** `Node`.
- **Reading.** `node`, `nested` and `children`, by recursion on the request's value; `Fault`.
- **Views.** `nodeJson`, and `indexNode`, which adds the versions of an entry and of all below it to
  an index, parents before children.
-/

namespace LockAudit

/-! ## Nodes -/

/-- An entry of a dependency tree. -/
inductive Node
  | mk (version : String) (integrity : Option String) (requires : Option (List (String × Json)))
      (dev : Option Bool) (dependencies : Option (List (String × Node)))
  deriving Repr

/-- The version of an entry. -/
def Node.version : Node → String
  | .mk version _ _ _ _ => version

/-- The mark of an entry as a development dependency, if it has one. -/
def Node.dev : Node → Option Bool
  | .mk _ _ _ dev _ => dev

/-- The entries below an entry. -/
def Node.children : Node → List (String × Node)
  | .mk _ _ _ _ dependencies => dependencies.getD []

namespace Payload

/-! ## Reading -/

/-- What is wrong with an audit request; an entry is named by the keys that lead to it. -/
inductive Fault
  | notObject
  | noDependencies
  | entryNotObject (path : List String)
  | noVersion (path : List String)
  | requiresNotObject (path : List String)
  | dependenciesNotObject (path : List String)
  deriving DecidableEq, Repr

/-- The keys that lead to an entry, as one text. -/
def pathText (path : List String) : String := " > ".intercalate path

/-- The text of a fault. -/
def Fault.message : Fault → String
  | .notObject => "Audit request must be an object"
  | .noDependencies => "Audit request is missing the 'dependencies' object"
  | .entryNotObject path => "Dependency '" ++ pathText path ++ "' must be an object"
  | .noVersion path => "Dependency '" ++ pathText path ++ "' is missing 'version'"
  | .requiresNotObject path => "Dependency '" ++ pathText path ++ "' has non-object 'requires'"
  | .dependenciesNotObject path =>
    "Dependency '" ++ pathText path ++ "' has non-object 'dependencies'"

/-- A fault as what ends the step. -/
def Fault.trouble (f : Fault) : Trouble := .of .payloadSchema f.message

/-- Whether an entry of a request is marked as a development dependency. -/
def isMarked (entry : Json) : Bool := ((entry.member? "dev").bind Json.bool?) == some true

/-- The version of an entry, which must be a text that is not empty. -/
def entryVersion (path : List String) (members : List (String × Json)) : Except Fault String :=
  match Pairs.get? "version" members with
  | some (.str s) => if s = "" then .error (.noVersion path) else .ok s
  | _ => .error (.noVersion path)

/-- The required ranges of an entry, if it has any. -/
def entryRequires (path : List String) (members : List (String × Json)) :
    Except Fault (Option (List (String × Json))) :=
  match Pairs.get? "requires" members with
  | none => .ok none
  | some (.obj ms) => .ok (some ms)
  | some _ => .error (.requiresNotObject path)

mutual

/-- Reads an entry. `skip` says whether entries that are marked are left out. -/
def node (skip : Bool) (path : List String) : Json → Except Fault Node
  | .obj members => do
    let version ← entryVersion path members
    let requires ← entryRequires path members
    let dependencies ← nested skip path members
    pure (.mk version ((Pairs.get? "integrity" members).bind Json.str?) requires
      ((Pairs.get? "dev" members).bind Json.bool?) dependencies)
  | _ => .error (.entryNotObject path)

/-- The nested dependencies among the members of an entry, if it has any. -/
def nested (skip : Bool) (path : List String) :
    List (String × Json) → Except Fault (Option (List (String × Node)))
  | [] => .ok none
  | (key, value) :: r =>
    if key = "dependencies" then
      match value with
      | .obj members => do
        let ns ← children skip path members
        pure (some ns)
      | _ => .error (.dependenciesNotObject path)
    else nested skip path r

/-- Reads entries below a path. -/
def children (skip : Bool) (path : List String) :
    List (String × Json) → Except Fault (List (String × Node))
  | [] => .ok []
  | (key, value) :: r =>
    if skip && isMarked value then children skip path r
    else do
      let n ← node skip (path ++ [key]) value
      let ns ← children skip path r
      pure ((key, n) :: ns)

end

/-! ## Views -/

mutual

/-- The value of an entry. -/
def nodeJson : Node → Json
  | .mk version integrity requires dev dependencies =>
    .obj ([("version", .str version)]
      ++ (integrity.map fun s => ("integrity", Json.str s)).toList
      ++ (requires.map fun ms => ("requires", Json.obj ms)).toList
      ++ (dev.map fun b => ("dev", Json.bool b)).toList
      ++ nestedJson dependencies)

/-- The member for nested entries, if there are any. -/
def nestedJson : Option (List (String × Node)) → List (String × Json)
  | none => []
  | some ns => [("dependencies", .obj (nodesJson ns))]

/-- The values of some entries. -/
def nodesJson : List (String × Node) → List (String × Json)
  | [] => []
  | (key, n) :: r => (key, nodeJson n) :: nodesJson r

end

/-- The name of the package at a path: what follows the last separator in the path's text. -/
def packageName (path : List String) : String :=
  let s := (pathText path).toList
  String.ofList ((Text.afterLast? " > ".toList s).getD s)

mutual

/-- Adds an entry and then what is below it. -/
def indexNode (path : List String) (ix : VersionIndex) : Node → VersionIndex
  | .mk version _ _ _ dependencies =>
    indexNested path (ix.add (packageName path) version) dependencies

/-- Adds nested entries. -/
def indexNested (path : List String) (ix : VersionIndex) :
    Option (List (String × Node)) → VersionIndex
  | none => ix
  | some ns => indexNodes path ix ns

/-- Adds entries below a path, one after the other. -/
def indexNodes (path : List String) (ix : VersionIndex) : List (String × Node) → VersionIndex
  | [] => ix
  | (key, n) :: r => indexNodes path (indexNode (path ++ [key]) ix n) r

end

end Payload

end LockAudit
