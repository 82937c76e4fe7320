import LockAudit.Advisory
import LockAudit.Json.Reader
import LockAudit.Text.Decoding

/-!
# `LockAudit.AdvisoryService` — asking the advisory service

A payload's text is posted once; nothing is tried again. `Client.submit` classifies what comes back: a
service that cannot be reached or is down is of no use for any lockfile, a refusal or an unreadable
response fails the lockfile at hand, and any other trouble of the exchange passes as it is.

The exchange itself is a parameter: a function from the post to what came back (`Reply`), or a program that
finds out (`Client.submitBy`).

## Contents
- **The exchange.** `Client`, `Post`, `Reply`.
- **Classifying.** `Fault`, `readBody`, `advisories`, `Client.submitBy`, `Client.submit`.
-/

namespace LockAudit

/-! ## The exchange -/

/-- How to reach the service. -/
structure Client where
  url : String
  /-- Seconds to wait for an answer. -/
  timeout : Number
  userAgent : String
  deriving DecidableEq, Repr

/-- The public service. -/
def Client.publicUrl : String := "https://registry.npmjs.org/-/npm/v1/security/audits"

/-- How the client names itself. -/
def Client.agent : String := "yarn-audit-analyzer/0.1.0"

/-- A client for the public service. -/
def Client.public : Client := ⟨Client.publicUrl, .int 30, Client.agent⟩

/-- A request to the service. -/
structure Post where
  url : String
  content : String
  headers : List (String × String)
  timeout : Number
  deriving DecidableEq, Repr

/-- The request that carries a text. -/
def Client.post (c : Client) (content : String) : Post where
  url := c.url
  content := content
  headers :=
    [("Content-Type", "application/json"), ("Accept", "application/json"),
      ("User-Agent", c.userAgent)]
  timeout := c.timeout

/-- What a request leads to. -/
inductive Reply
  | response (status : Nat) (body : List UInt8)
  /-- No response came. -/
  | unreachable (reason : String)
  /-- The exchange failed otherwise. -/
  | failed (trouble : Trouble)
  deriving Repr

namespace AdvisoryService

/-! ## Classifying -/

/-- Why a submission gave no advisories. -/
inductive Fault
  | unreachable (url reason : String)
  | unavailable (status : Nat)
  | refused (status : Nat)
  | notJson (reason : String)
  | response (fault : Advisory.Fault)
  | other (trouble : Trouble)
  deriving DecidableEq, Repr

/-- A fault as what ends the step. -/
def Fault.trouble (wording : Advisory.Wording) : Fault → Trouble
  | .unreachable url reason =>
    .of .transport ("Failed to connect to the NPM Audit API (" ++ url ++ "): " ++ reason)
  | .unavailable status =>
    .of .transport ("NPM Audit API unavailable (HTTP " ++ Nat.repr status ++ ")")
  | .refused status =>
    .audit ⟨.authOrQuota,
      "NPM Audit API rejected the request (HTTP " ++ Nat.repr status ++ ")", some status⟩
  | .notJson reason => .of .responseSchema ("NPM Audit API returned invalid JSON: " ++ reason)
  | .response fault => .of .responseSchema (fault.message wording)
  | .other t => t

/-- Reads the body of a response, in the encoding that its first bytes show. -/
def readBody (body : List UInt8) : Except Fault Json :=
  match Text.decode body with
  | .error defect => .error (.notJson defect.message)
  | .ok s =>
    match Json.parseChars s with
    | .error e => .error (.notJson e.message)
    | .ok v => .ok v

/-- The advisories of a reply to a request at an address. -/
def advisories (url : String) : Reply → Except Fault (List Advisory)
  | .unreachable reason => .error (.unreachable url reason)
  | .failed t => .error (.other t)
  | .response status body =>
    if 500 ≤ status then .error (.unavailable status)
    else if 400 ≤ status then .error (.refused status)
    else
      match readBody body with
      | .error f => .error f
      | .ok v =>
        match Advisory.listOfJson v with
        | .error f => .error (.response f)
        | .ok as => .ok as

end AdvisoryService

/-- Posts a text by a program that exchanges posts for replies, and reads the advisories that come back. -/
def Client.submitBy {m : Type → Type} [Monad m] (c : Client) (exchange : Post → m Reply)
    (content : String) : m (Except AdvisoryService.Fault (List Advisory)) := do
  let reply ← exchange (c.post content)
  return AdvisoryService.advisories c.url reply

/-- Posts a text and reads the advisories that come back, where the exchange does nothing else. -/
def Client.submit (c : Client) (exchange : Post → Reply) (content : String) :
    Except AdvisoryService.Fault (List Advisory) :=
  Id.run (c.submitBy (fun post => pure (exchange post)) content)

end LockAudit
