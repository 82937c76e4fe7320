import LockAudit.Config.Basic

/-!
# `LockAudit.Config.Environment` — settings from the environment

Six variables override a configuration. A variable that is not set, is blank or has a value that it
does not recognise changes nothing.
-/

namespace LockAudit.Config

open LockAudit.Text

/-- The variables of an environment, by name. -/
abbrev Environment := List (String × String)

/-- The truth value of a variable, if it has one. -/
def Environment.truth? (env : Environment) (name : String) : Option Bool :=
  (Pairs.get? name env).bind fun raw =>
    let s := lower (trimString raw)
    if ["true", "1", "yes", "on"].contains s then some true
    else if ["false", "0", "no", "off"].contains s then some false
    else none

/-- The text of a variable without the blanks around it, if it has any. -/
def Environment.text? (env : Environment) (name : String) : Option String :=
  (Pairs.get? name env).bind fun raw =>
    let s := trimString raw
    if s = "" then none else some s

/-- The level that a variable names in any case. -/
def Environment.severity? (env : Environment) (name : String) : Option Severity :=
  (env.text? name).bind fun s => severityOfName? (lower s)

/-- The configuration with what the environment says. -/
def withEnvironment (c : Config) (env : Environment) : Config :=
  { c with
    analyzer := { c.analyzer with
      enabled := (env.truth? "YARN_AUDIT_ENABLED").getD c.analyzer.enabled
      skipDev := (env.truth? "YARN_AUDIT_SKIP_DEV").getD c.analyzer.skipDev
      url := (env.text? "YARN_AUDIT_URL").getD c.analyzer.url
      command := (env.text? "YARN_AUDIT_YARN_PATH").getD c.analyzer.command }
    reporting := { c.reporting with
      failOnSeverity :=
        (env.severity? "YARN_AUDIT_FAIL_ON_SEVERITY").getD c.reporting.failOnSeverity
      jsonOutput := (env.text? "YARN_AUDIT_JSON_OUTPUT").orElse fun _ => c.reporting.jsonOutput } }

end LockAudit.Config
