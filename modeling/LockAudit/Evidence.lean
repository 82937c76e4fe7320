import LockAudit.Path
import LockAudit.Json.Value
import LockAudit.Severity

/-!
# `LockAudit.Evidence` — lockfiles, and what is known about their dependencies

A piece of evidence names a package and the version of it that a lockfile resolves to, with what the
advisory says about it. A record is made once for a lockfile and filled one entry at a time: entries are
only ever added.
-/

namespace LockAudit

/-- One vulnerability of one resolved dependency. -/
structure Evidence where
  name : String
  /-- Who reported it. -/
  source : String
  moduleName : String
  resolvedVersion : String
  vulnerableVersions : String
  severity : Severity
  identifiers : List String
  patchedVersions : Option String
  title : Option String
  description : Option String
  recommendation : Option String
  url : Option String
  /-- Further facts, by name. -/
  metadata : List (String × Json)
  deriving Repr

/-- The dependency that an entry is about, with its version. -/
def Evidence.package (e : Evidence) : String := e.moduleName ++ "@" ++ e.resolvedVersion

/-- A lockfile to analyze. -/
structure Lockfile where
  path : Path
  displayName : String
  deriving DecidableEq, Repr

/-- The name of a lockfile. -/
def Lockfile.fileName : String := "yarn.lock"

/-- The folder whose contents are never analyzed. -/
def Lockfile.installFolder : String := "node_modules"

/-- A lockfile and the evidence that was found for it. -/
structure Record extends Lockfile where
  evidence : List Evidence := []
  deriving Repr

/-- Adds an entry. -/
def Record.add (r : Record) (e : Evidence) : Record := { r with evidence := r.evidence ++ [e] }

end LockAudit
