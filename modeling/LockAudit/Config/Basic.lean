import LockAudit.AdvisoryService
import LockAudit.Config.Readers
import LockAudit.Payload.Basic
import LockAudit.Severity

/-!
# `LockAudit.Config.Basic` — the settings of a scan

A configuration has settings of its own and two sections, for the analyzer and for reporting.
`Config.ofMembers` reads one from named values: a setting that is not named has its default, a name
that is no setting is ignored, and every defect of a setting is reported.
-/

namespace LockAudit

open Schema

/-- The settings of the analyzer. -/
structure AnalyzerConfig where
  enabled : Bool
  command : String
  skipDev : Bool
  policy : DevPolicy
  url : String
  requestTimeout : Binary64
  processTimeout : Binary64
  userAgent : String
  deriving DecidableEq, Repr

/-- The settings of reporting. -/
structure ReportingConfig where
  /-- Where to write a report. -/
  jsonOutput : Option String
  failOnFindings : Bool
  failOnSeverity : Severity
  deriving DecidableEq, Repr

/-- The settings of a scan. -/
structure Config where
  version : String
  parallel : Bool
  maxWorkers : Nat
  analyzer : AnalyzerConfig
  reporting : ReportingConfig
  deriving DecidableEq, Repr

/-- A number of seconds. -/
def Config.seconds (n : Nat) : Binary64 := .ofRatio false n 1

/-- The analyzer's defaults. -/
def AnalyzerConfig.standard : AnalyzerConfig where
  enabled := true
  command := "yarn"
  skipDev := false
  policy := .flagged
  url := Client.publicUrl
  requestTimeout := Config.seconds 30
  processTimeout := Config.seconds 300
  userAgent := Client.agent

/-- The defaults of reporting. -/
def ReportingConfig.standard : ReportingConfig := ⟨none, true, .high⟩

/-- The defaults. -/
def Config.standard : Config := ⟨"1.0", true, 4, .standard, .standard⟩

namespace Config

/-- A setting, or its default if it is not named. -/
def setting {α : Type} (members : List (String × Json)) (key : String) (default : α)
    (read : Json → Checked α) : Checked α :=
  match Pairs.get? key members with
  | some v => (read v).under (.key key)
  | none => .ok default

/-- A section of settings. -/
def sectionOf {α : Type} (read : List (String × Json) → Checked α) : Json → Checked α
  | .obj members => read members
  | _ => fail [] .notModel

/-- The level of severity with a name, in lower case and without other spellings. -/
def severityOfName? (s : String) : Option Severity := Severity.levels.find? fun l => l.name = s

/-- A worker count, which is at least one. -/
def workers (v : Json) : Checked Nat :=
  match integer v with
  | .ok n => if 1 ≤ n then .ok n.toNat else fail [] .tooSmall
  | .error es => .error es

end Config

/-- Reads the settings of the analyzer. -/
def AnalyzerConfig.ofMembers (ms : List (String × Json)) : Checked AnalyzerConfig :=
  let base := AnalyzerConfig.standard
  Checked.of AnalyzerConfig.mk
    |>.apply (Config.setting ms "enabled" base.enabled Config.truth)
    |>.apply (Config.setting ms "yarn_path" base.command text)
    |>.apply (Config.setting ms "skip_dev_dependencies" base.skipDev Config.truth)
    |>.apply (Config.setting ms "dev_dependency_policy" base.policy (Config.choice DevPolicy.ofName?))
    |>.apply (Config.setting ms "audit_url" base.url text)
    |>.apply (Config.setting ms "request_timeout" base.requestTimeout Config.decimal)
    |>.apply (Config.setting ms "process_timeout" base.processTimeout Config.decimal)
    |>.apply (Config.setting ms "user_agent" base.userAgent text)

/-- Reads the settings of reporting. -/
def ReportingConfig.ofMembers (ms : List (String × Json)) : Checked ReportingConfig :=
  let base := ReportingConfig.standard
  Checked.of ReportingConfig.mk
    |>.apply (Config.setting ms "json_output" base.jsonOutput textOrNull)
    |>.apply (Config.setting ms "fail_on_findings" base.failOnFindings Config.truth)
    |>.apply (Config.setting ms "fail_on_severity" base.failOnSeverity
      (Config.choice Config.severityOfName?))

/-- Reads a configuration. -/
def Config.ofMembers (ms : List (String × Json)) : Checked Config :=
  let base := Config.standard
  Checked.of Config.mk
    |>.apply (setting ms "version" base.version text)
    |>.apply (setting ms "parallel" base.parallel truth)
    |>.apply (setting ms "max_workers" base.maxWorkers workers)
    |>.apply (setting ms "yarn_audit" base.analyzer (sectionOf AnalyzerConfig.ofMembers))
    |>.apply (setting ms "reporting" base.reporting (sectionOf ReportingConfig.ofMembers))

end LockAudit
