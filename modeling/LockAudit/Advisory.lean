import LockAudit.Failure
import LockAudit.Json.Value
import LockAudit.Schema

/-!
# `LockAudit.Advisory` — published vulnerabilities

The advisory service answers with a list of advisories, bare or under the key `advisories`, and there
either as an array or as an object whose keys do not matter. Two fields have a second spelling.

A response is read whole or not at all: one entry that does not have the shape of an advisory refuses
the response (`listOfJson`).

## Contents
- **The record.** `Advisory`, its identifiers and its score.
- **Entries.** `ofJson`; every issue of an entry is reported, field by field.
- **Responses.** `entries?`, `listOfJson`, `Fault`, `Wording`.
-/

namespace LockAudit

open Schema

/-- A published vulnerability. -/
structure Advisory where
  id : String
  moduleName : String
  vulnerableVersions : String
  severity : String
  patchedVersions : Option String
  title : Option String
  overview : Option String
  recommendation : Option String
  url : Option String
  githubAdvisoryId : Option String
  cves : List String
  cwe : List String
  cvss : Option (List (String × Json))
  deriving Repr

namespace Advisory

/-! ## The record -/

/-- The advisory's identifiers: those that are not empty, each once, in this order. -/
def identifiers (a : Advisory) : List String :=
  ((a.githubAdvisoryId.toList ++ a.id :: a.cves).filter (· ≠ "")).foldl
    (fun seen s => if s ∈ seen then seen else seen ++ [s]) []

/-- The name that reports use. -/
def displayName (a : Advisory) : String :=
  match a.githubAdvisoryId with
  | some s => if s = "" then a.id else s
  | none => a.id

/-- A score as a binary64 value; truth values count as one and zero. What is no number is no score,
    and an integer may be beyond all values. -/
def scoreOf : Json → Except Mishap (Option Binary64)
  | .num (.float x) => .ok (some x)
  | .num (.int n) =>
    match Binary64.ofInt? n with
    | some x => .ok (some x)
    | none => .error .integerTooLarge
  | .bool b => .ok (some (Binary64.ofRatio false (if b then 1 else 0) 1))
  | _ => .ok none

/-- The score. -/
def cvssScore (a : Advisory) : Except Mishap (Option Binary64) :=
  match a.cvss.bind (Pairs.get? "score") with
  | some v => scoreOf v
  | none => .ok none

/-- The vector text of the score. -/
def cvssVector (a : Advisory) : Option String :=
  (a.cvss.bind (Pairs.get? "vectorString")).bind Json.str?

/-! ## Entries -/

/-- The first of some spellings that an entry has, with its value. -/
def spelled? (members : List (String × Json)) : List String → Option (String × Json)
  | [] => none
  | k :: ks =>
    match Pairs.get? k members with
    | some v => some (k, v)
    | none => spelled? members ks

/-- A field that must be there. An issue with its value stands under the spelling that was found, and
    a missing field under the first spelling. -/
def required {α : Type} (members : List (String × Json)) (first : String) (others : List String)
    (read : Json → Checked α) : Checked α :=
  match spelled? members (first :: others) with
  | some (k, v) => (read v).under (.key k)
  | none => fail [.key first] .missing

/-- A field with a value for when it is not there. -/
def optional {α : Type} (members : List (String × Json)) (key : String) (default : α)
    (read : Json → Checked α) : Checked α :=
  match Pairs.get? key members with
  | some v => (read v).under (.key key)
  | none => .ok default

/-- An identifier: a text, or an integer, which stands for its numeral if that can be written. -/
def identifier : Json → Checked String
  | .num (.int n) =>
    if Numeral.writable n.natAbs then .ok (String.ofList (LockAudit.intText n)) else fail [] .refused
  | v => text v

/-- A list of texts; null is the empty list, and one text is the list of it. -/
def listed : Json → Checked (List String)
  | .null => .ok []
  | .str s => .ok [s]
  | v => texts v

/-- The members of an object, or null. -/
def membersOrNull : Json → Checked (Option (List (String × Json)))
  | .null => .ok none
  | .obj members => .ok (some members)
  | _ => fail [] .notDict

/-- Reads an entry. -/
def ofJson : Json → Checked Advisory
  | .obj ms =>
    let may (key : String) : Checked (Option String) := optional ms key none textOrNull
    Checked.of Advisory.mk
      |>.apply (required ms "id" [] identifier)
      |>.apply (required ms "module_name" ["name"] text)
      |>.apply (required ms "vulnerable_versions" ["range"] text)
      |>.apply (required ms "severity" [] text)
      |>.apply (may "patched_versions")
      |>.apply (may "title")
      |>.apply (may "overview")
      |>.apply (may "recommendation")
      |>.apply (may "url")
      |>.apply (may "github_advisory_id")
      |>.apply (optional ms "cves" [] listed)
      |>.apply (optional ms "cwe" [] listed)
      |>.apply (optional ms "cvss" none membersOrNull)
  | _ => fail [] .notModel

/-! ## Responses -/

/-- What is wrong with a response. -/
inductive Fault
  | wrongContainer
  | noAdvisories
  | invalidEntry (issues : List Issue)
  deriving DecidableEq, Repr

/-- How issues with an entry are put into words, behind a statement that the entry is not valid. The words
    are those of the library that checks entries, so they are a parameter. -/
abbrev Wording := List Issue → String

/-- The text of a fault. -/
def Fault.message (wording : Wording) : Fault → String
  | .wrongContainer => "'advisories' must be an object or an array"
  | .noAdvisories => "Response contains no advisories array"
  | .invalidEntry issues => "Invalid advisory entry" ++ wording issues

/-- The entries of a response. -/
def entries? : Json → Except Fault (List Json)
  | .arr items => .ok items
  | .obj members =>
    match Pairs.get? "advisories" members with
    | some (.obj inner) => .ok (inner.map (·.2))
    | some (.arr items) => .ok items
    | some _ => .error .wrongContainer
    | none => .error .noAdvisories
  | _ => .error .noAdvisories

/-- Reads entries up to the first that is not an advisory. -/
def readEntries : List Json → Except Fault (List Advisory)
  | [] => .ok []
  | v :: r =>
    match ofJson v with
    | .error issues => .error (.invalidEntry issues)
    | .ok a =>
      match readEntries r with
      | .ok as => .ok (a :: as)
      | .error f => .error f

/-- Reads a response. -/
def listOfJson (response : Json) : Except Fault (List Advisory) :=
  match entries? response with
  | .ok vs => readEntries vs
  | .error f => .error f

end Advisory

end LockAudit
