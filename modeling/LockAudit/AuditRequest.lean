import LockAudit.Failure
import LockAudit.Json.Reader
import LockAudit.Text.Blank

/-!
# `LockAudit.AuditRequest` — the request in the package manager's output

Run offline and verbosely, the package manager cannot send its audit request, but it logs the
request's body: one line of its output is a JSON record whose text `data` is a marker followed by the
body, again as JSON. `extract` takes the first line with the marker and undoes both encodings.

What the package manager writes to its error stream never matters for the result. It is logged unless
it is blank or the one error that being offline always causes (`isBenign`).

## Contents
- **Faults.** `Fault` lists what can be wrong with the output, with one text for each cause.
- **The line.** `requestLine?`; lines end at line feeds alone, so that a separator inside the record
  does not cut it.
- **The request.** `record`, `request` and `extract`.
-/

namespace LockAudit.AuditRequest

/-! ## Faults -/

/-- What is wrong with the output. -/
inductive Fault
  /-- No line has the marker; `source` is the lockfile, if it is known. -/
  | notFound (source : String)
  /-- The line is not JSON. -/
  | recordMalformed (error : String)
  /-- The record has no text that begins with the marker. -/
  | noData
  /-- The body is not JSON. -/
  | requestMalformed (error : String)
  /-- The body is JSON of another kind than an object. -/
  | notObject (kind : String)
  /-- The line or the body has a number that is too long. -/
  | numeral (refusal : Numeral.Refusal)
  deriving DecidableEq, Repr

/-- The marker. -/
def marker : String := "Audit Request"

/-- The marker as the record's text begins. -/
def dataStart : String := "Audit Request: "

/-- The text of a fault. -/
def Fault.message : Fault → String
  | .notFound source =>
    "No '" ++ marker ++ "' line in yarn audit output" ++ if source = "" then "" else " for " ++ source
  | .recordMalformed e => "Audit request log record is not valid JSON: " ++ e
  | .noData => "Audit request log record has no 'data' string"
  | .requestMalformed e => "Embedded audit request is not valid JSON: " ++ e
  | .notObject kind => "Embedded audit request must be a JSON object, got " ++ kind
  | .numeral r => r.message

/-- A fault as what ends the step. -/
def Fault.trouble (f : Fault) : Trouble :=
  match f with
  | .notFound _ => .of .auditRequestNotFound f.message
  | .numeral r => .mishap (.numeral r)
  | _ => .of .malformedAuditRequest f.message

/-! ## The error stream -/

/-- The one error that being offline always causes. -/
def offlineError : String :=
  "\x7b\"type\":\"error\",\"data\":\"Can't make a request in offline mode "
    ++ "(\\\"https://registry.yarnpkg.com/-/npm/v1/security/audits\\\")\"\x7d\n"

/-- Whether the error stream holds that error alone. -/
def isBenign (stderr : String) : Bool :=
  Text.trim stderr.toList == Text.trim offlineError.toList

/-- What is logged about the error stream. -/
def stderrMessages (stdout stderr source : String) : List String :=
  if Text.allBlank stderr.toList || isBenign stderr then []
  else
    ["Process Error Out" ++ (if source = "" then "" else " (" ++ source ++ ")") ++ ": " ++ stderr,
      "Process Out: " ++ stdout]

/-! ## The line -/

/-- The text without carriage returns at its end. -/
def dropReturns (s : List Char) : List Char := (s.reverse.dropWhile (· == '\r')).reverse

/-- The first line with the marker. -/
def requestLine? (stdout : List Char) : Option (List Char) :=
  ((Text.split (· == '\n') stdout).find? (Text.isInfix marker.toList)).map dropReturns

/-! ## The request -/

/-- Reads JSON, with a fault of the given sort if it is malformed. -/
def readJson (malformed : String → Fault) (text : String) : Except Fault Json :=
  match Json.parse text with
  | .ok v => .ok v
  | .error (.numeral r) => .error (.numeral r)
  | .error e => .error (malformed e.message)

/-- The body in a record's text. -/
def body? (record : Json) : Option String :=
  match (record.member? "data").bind Json.str? with
  | some data =>
    if dataStart.toList.isPrefixOf data.toList then
      some (String.ofList (data.toList.drop dataStart.length))
    else none
  | none => none

/-- Reads the body of a request, which must be an object. -/
def request (body : String) : Except Fault Json := do
  match ← readJson .requestMalformed body with
  | .obj members => pure (.obj members)
  | v => throw (.notObject v.kindName)

/-- What an extraction gives: the request or a fault, and what it logged on the way. -/
structure Extraction where
  result : Except Fault Json
  messages : List String

/-- Finds the request in the output. The body is logged before it is read. -/
def extract (stdout stderr source : String) : Extraction :=
  let before := stderrMessages stdout stderr source
  match requestLine? stdout.toList with
  | none => ⟨.error (.notFound source), before⟩
  | some line =>
    match readJson .recordMalformed (String.ofList line) with
    | .error f => ⟨.error f, before⟩
    | .ok record =>
      match body? record with
      | none => ⟨.error .noData, before⟩
      | some body => ⟨request body, before ++ [dataStart ++ body]⟩

end LockAudit.AuditRequest
