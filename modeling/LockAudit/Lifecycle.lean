import LockAudit.Console
import LockAudit.Program.Basic

/-!
# `LockAudit.Lifecycle` — whether the analyzer may run

An analyzer starts unprobed. One probe of the package manager enables it or takes it out of service,
and later failures may take it out of service too. There is no way back: a disabled analyzer stays
disabled, for the reason that was given first.

Each operation is a function of the state alone, so any interleaving of operations is a sequence of
these steps.

## Contents
- **`State`** and the order of its stages (`State.stage`).
- **Steps.** `enable`, `disable`, and `probe`, which runs the package manager's help if nothing is
  known yet. `stage_enable` and `stage_disable` say that no step goes back.
-/

namespace LockAudit.Lifecycle

/-- Whether an analyzer may run. -/
inductive State
  | unprobed
  | enabled
  | disabled (reason : String)
  deriving DecidableEq, Repr

/-- The name of a state. -/
def State.name : State → String
  | .unprobed => "unprobed"
  | .enabled => "enabled"
  | .disabled _ => "disabled"

/-- The reason of a state that is disabled. -/
def State.reason : State → Option String
  | .disabled reason => some reason
  | _ => none

/-- Whether the analyzer may run. -/
def State.isEnabled (s : State) : Bool := s == .enabled

/-- The place of a state on the only way through the states. -/
def State.stage : State → Nat
  | .unprobed => 0
  | .enabled => 1
  | .disabled _ => 2

/-- A state and what was logged on the way to it. -/
structure Change where
  state : State
  logs : List Log.Entry
  deriving DecidableEq, Repr

/-- Enables an analyzer that is unprobed. -/
def enable (name : String) : State → Change
  | .unprobed => ⟨.enabled, [⟨.debug, name ++ " is enabled."⟩]⟩
  | s => ⟨s, []⟩

/-- Takes an analyzer out of service, unless it is. -/
def disable (name reason : String) : State → Change
  | .disabled first => ⟨.disabled first, []⟩
  | _ => ⟨.disabled reason, [⟨.warning, "The " ++ name ++ " has been disabled. " ++ reason⟩]⟩

/-! ## Probing -/

/-- The exit code of a shell that did not find a program. -/
def notFoundCode : Int := 127

/-- The launch that probes a command. -/
def probeLaunch (command : String) (timeout : Option Number) : Program.Launch :=
  ⟨command, ["--help"], none, timeout⟩

/-- The reason that a failed probe gives. -/
def notFoundReason (command : String) : String := command ++ " executable was not found."

/-- What a probe comes to. -/
structure Probe where
  result : Except Trouble State
  change : Change

/-- Judges the outcome of a probe. An interruption and what is no audit error leave the state as it
    is; any other failure takes the analyzer out of service. -/
def judge (name command : String) (s : State) : Program.Outcome → Probe
  | .ok exit =>
    if exit.code = 0 then
      let c := enable name s
      ⟨.ok c.state, c⟩
    else
      let code := String.ofList (intText exit.code)
      let seen := command ++ " --help exited with " ++ code
        ++ if exit.code = notFoundCode then " (command not found)" else ""
      let c := disable name (notFoundReason command) s
      ⟨.error (.of .initialization
          (command ++ " --help exited with code " ++ code ++ "; the " ++ name
            ++ " has been disabled")),
        ⟨c.state, ⟨.debug, seen⟩ :: c.logs⟩⟩
  | .error (.audit e) =>
    if e.kind = .interrupted then ⟨.error (.audit e), ⟨s, []⟩⟩
    else
      ⟨.error (.of .initialization ("Unable to run " ++ command ++ " --help: " ++ e.message)),
        disable name (notFoundReason command) s⟩
  | .error t => ⟨.error t, ⟨s, []⟩⟩

/-- Probes a command, given what its launch comes to. Only an analyzer that is unprobed needs the
    launch (`needsProbe`). -/
def probe (name command : String) (s : State) (launched : Program.Outcome) : Probe :=
  match s with
  | .unprobed => judge name command .unprobed launched
  | s => ⟨.ok s, ⟨s, []⟩⟩

/-- Whether a probe of this state launches the command. -/
def needsProbe (s : State) : Bool := s == .unprobed

theorem stage_enable (name : String) (s : State) : s.stage ≤ (enable name s).state.stage := by
  cases s <;> simp [enable, State.stage]

theorem stage_disable (name reason : String) (s : State) :
    (disable name reason s).state.stage = 2 := by
  cases s <;> simp [disable, State.stage]

/-- A disabled analyzer stays as it is. -/
@[simp] theorem disable_disabled (name reason first : String) :
    disable name reason (.disabled first) = ⟨.disabled first, []⟩ := rfl

end LockAudit.Lifecycle
