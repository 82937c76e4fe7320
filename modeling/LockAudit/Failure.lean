import LockAudit.FileTree
import LockAudit.Numeral

/-!
# `LockAudit.Failure` — how a step ends early

Three sorts of trouble, kept apart because they are handled apart. An `AuditError` is an error the
audit knows, of one of twelve kinds; three kinds take the analyzer out of service
(`ErrorKind.disables`). A `Mishap` is any other error: it fails the lockfile at hand. An interrupt by
the operator and a stop are requests to end the program; no lockfile fails by them.
-/

namespace LockAudit

/-- The kinds of error that reports tell apart. -/
inductive ErrorKind
  | initialization
  | launchFailure
  | interrupted
  | timeout
  | invalidTarget
  | auditRequestNotFound
  | malformedAuditRequest
  | manifest
  | payloadSchema
  | transport
  | authOrQuota
  | responseSchema
  | unexpected
  deriving DecidableEq, Repr

/-- The name of a kind in reports. -/
def ErrorKind.name : ErrorKind → String
  | .initialization => "initialization"
  | .launchFailure => "launch_failure"
  | .interrupted => "interrupted"
  | .timeout => "timeout"
  | .invalidTarget => "invalid_target"
  | .auditRequestNotFound => "audit_request_not_found"
  | .malformedAuditRequest => "malformed_audit_request"
  | .manifest => "manifest"
  | .payloadSchema => "payload_schema"
  | .transport => "transport"
  | .authOrQuota => "auth_or_quota"
  | .responseSchema => "response_schema"
  | .unexpected => "unexpected"

/-- The kinds after which no further lockfile can be analyzed: the package manager cannot be run,
    or the advisory service cannot be reached. -/
def ErrorKind.disables : ErrorKind → Bool
  | .initialization | .launchFailure | .transport => true
  | _ => false

/-- An error of the audit. A refusal by the advisory service carries the response's status. -/
structure AuditError where
  kind : ErrorKind
  message : String
  status : Option Nat
  deriving DecidableEq, Repr

/-- An error of a kind, without a status. -/
def AuditError.of (kind : ErrorKind) (message : String) : AuditError := ⟨kind, message, none⟩

/-- An error that is not one of the audit's. -/
inductive Mishap
  /-- A numeral beyond the length limit. -/
  | numeral (refusal : Numeral.Refusal)
  /-- An integer that no binary64 value is near to. -/
  | integerTooLarge
  /-- A policy for development dependencies that does not exist, as messages show it. -/
  | unknownPolicy (shown : String)
  /-- A worker count below one. -/
  | noWorkers
  /-- A null character in a path or a command. -/
  | embeddedNull
  /-- A path that the system refuses. -/
  | system (refused : FileTree.Refused)
  /-- An error of something that the audit calls, by its name and text. -/
  | foreign (name message : String)
  deriving DecidableEq, Repr

/-- The text of a mishap. -/
def Mishap.message : Mishap → String
  | .numeral r => r.message
  | .integerTooLarge => "int too large to convert to float"
  | .unknownPolicy shown => shown ++ " is not a valid DevDependencyPolicy"
  | .noWorkers => "max_workers must be greater than 0"
  | .embeddedNull => "embedded null byte"
  | .system r => r.message
  | .foreign _ message => message

/-- What ends a step early. -/
inductive Trouble
  | audit (error : AuditError)
  | mishap (mishap : Mishap)
  /-- The operator interrupts the program. -/
  | interrupt (message : String)
  /-- Another request to end the program, by its name and text. -/
  | stop (name message : String)
  deriving DecidableEq, Repr

/-- The text of a trouble. -/
def Trouble.message : Trouble → String
  | .audit e => e.message
  | .mishap m => m.message
  | .interrupt message => message
  | .stop _ message => message

/-- Whether the trouble is an interruption of a running process. -/
def Trouble.isInterruption : Trouble → Bool
  | .audit e => e.kind == .interrupted
  | _ => false

/-- The trouble of an audit error of a kind. -/
def Trouble.of (kind : ErrorKind) (message : String) : Trouble := .audit (.of kind message)

end LockAudit
