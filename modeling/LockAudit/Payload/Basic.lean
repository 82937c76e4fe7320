import LockAudit.Json.Writer
import LockAudit.Manifest
import LockAudit.Payload.Tree

/-!
# `LockAudit.Payload.Basic` — what is sent to the advisory service

A payload joins the dependency tree of an audit request with the ranges that the manifest declares.
Building it is a function of its inputs alone, and of the request's sorted form only, so the order of
members in the request cannot matter.

Development dependencies may be left out by one of two policies: an entry marked as one goes with all
that is below it (`flagged`), or the top-level entries go that only the manifest's development
section declares (`declared`).

Of the ranges that a manifest declares, a payload lists those that the registry can resolve, by name.
A package that both sections declare has the range of the main section, also if that range names
something outside the registry.

## Contents
- **Policies.** `DevPolicy`.
- **Ranges.** `isForeign`, `declaredRanges`, `registryRanges`.
- **Building.** `Payload` and `build`.
- **Views.** `toJson`, `text`, and `index`, the versions at which the tree holds each package.
-/

namespace LockAudit

/-! ## Policies -/

/-- Which dependencies count as development dependencies. -/
inductive DevPolicy
  /-- The entries of the request that are marked. -/
  | flagged
  /-- The top-level entries that the manifest declares for development only. -/
  | declared
  deriving DecidableEq, Repr

/-- The name of a policy. -/
def DevPolicy.name : DevPolicy → String
  | .flagged => "flagged"
  | .declared => "declared"

/-- The policy with a name. -/
def DevPolicy.ofName? (s : String) : Option DevPolicy :=
  if s = "flagged" then some .flagged else if s = "declared" then some .declared else none

/-- Reads the name of a policy. -/
def DevPolicy.read (s : String) : Except Mishap DevPolicy :=
  match ofName? s with
  | some p => .ok p
  | none => .error (.unknownPolicy (Text.quoted s))

/-! ## Ranges -/

namespace Payload

/-- The beginnings of ranges that name no package of the registry. -/
def foreignStarts : List String := ["file:", "link:", "http:", "https:", "git", "github:"]

/-- Whether a range names something outside the registry: a local path, an address, a repository, or
    a repository in its short form, which has a slash and no alias. -/
def isForeign (range : String) : Bool :=
  let s := Text.trim range.toList
  foreignStarts.any (fun start => start.toList.isPrefixOf s)
    || (s.contains '/' && !"npm:".toList.isPrefixOf s)

/-- The declared ranges. Unless development dependencies are skipped, a package that only their
    section declares comes with the range it has there. -/
def declaredRanges (m : Manifest) (skipDev : Bool) : List (String × String) :=
  if skipDev then m.dependencies
  else m.dependencies ++ m.devDependencies.filter fun p =>
    (Pairs.get? p.1 m.dependencies).isNone

/-- The declared ranges that the registry can resolve, by name. -/
def registryRanges (m : Manifest) (skipDev : Bool) : List (String × String) :=
  Pairs.sort ((declaredRanges m skipDev).filter fun p => !isForeign p.2)

/-- Whether only the development section declares a package. -/
def isDevOnly (m : Manifest) (name : String) : Bool :=
  (Pairs.get? name m.devDependencies).isSome && (Pairs.get? name m.dependencies).isNone

end Payload

/-! ## Building -/

/-- The body of an audit. -/
structure Payload where
  name : Option String
  version : Option String
  requires : List (String × String)
  dependencies : List (String × Node)
  skipDev : Bool
  deriving Repr

namespace Payload

/-- A text that is there and not empty. -/
def filled (s : Option String) : Option String := s.filter (· ≠ "")

/-- The top-level entries of a sorted request. -/
def topEntries : Json → Except Fault (List (String × Json))
  | .obj members =>
    match Pairs.get? "dependencies" members with
    | some (.obj entries) => .ok entries
    | _ => .error .noDependencies
  | _ => .error .notObject

/-- Builds the payload of a request and a manifest. -/
def build (policy : DevPolicy) (request : Json) (m : Manifest) (skipDev : Bool) :
    Except Fault Payload := do
  let entries ← topEntries request.sorted
  let kept := entries.filter fun e => !(skipDev && policy == .declared && isDevOnly m e.1)
  let dependencies ← children (skipDev && policy == .flagged) [] kept
  pure ⟨filled m.name, filled m.version, registryRanges m skipDev, dependencies, skipDev⟩

/-! ## Views -/

/-- What every payload says about the client that sends it. -/
def clientFacts : List (String × Json) :=
  [("npm_version", .str "6.9.0"), ("node_version", .str "v10.5.0"), ("platform", .str "linux")]

/-- The value of a payload. -/
def toJson (p : Payload) : Json :=
  .obj ((p.name.map fun s => ("name", Json.str s)).toList
    ++ (p.version.map fun s => ("version", Json.str s)).toList
    ++ [("requires", .obj (p.requires.map fun r => (r.1, .str r.2))),
      ("dependencies", .obj (nodesJson p.dependencies)),
      ("install", .arr []),
      ("remove", .arr []),
      ("metadata", .obj (clientFacts ++ [("skip_dev_dependencies", .bool p.skipDev)]))])

/-- The text of a payload, as it is sent. -/
def text (p : Payload) : String := p.toJson.compact

/-- The versions at which the tree holds each package. -/
def index (p : Payload) : VersionIndex := indexNodes [] .empty p.dependencies

end Payload

end LockAudit
