import LockAudit.Json.Value
import LockAudit.Text.Blank

/-!
# `LockAudit.Severity` — how severe a vulnerability is

Five levels in one order. `ofName` reads the words that advisories use, in any case; a word that it
does not know counts as the lowest level, so reading never fails.

`place_le_iff` ties the order to the list of all levels, most severe first.
-/

namespace LockAudit

/-- The levels of severity, the most severe first. -/
inductive Severity
  | critical
  | high
  | medium
  | low
  | info
  deriving DecidableEq, Repr

namespace Severity

/-- The name of a level. -/
def name : Severity → String
  | .critical => "critical"
  | .high => "high"
  | .medium => "medium"
  | .low => "low"
  | .info => "info"

/-- All levels, the most severe first. -/
def levels : List Severity := [.critical, .high, .medium, .low, .info]

/-- The place of a level from the least severe on. -/
def rank : Severity → Nat
  | .info => 0
  | .low => 1
  | .medium => 2
  | .high => 3
  | .critical => 4

/-- The place of a level in the list of all levels, from the most severe on. -/
def place (s : Severity) : Nat := levels.idxOf s

/-- Whether a level is at least as severe as another. -/
def atLeast (s t : Severity) : Bool := t.rank ≤ s.rank

/-- Whether a level is more severe than another. -/
def above (s t : Severity) : Bool := t.rank < s.rank

/-- The level that a lower-case word names: the five names, and `moderate` for medium. -/
def ofWord? : String → Option Severity
  | "critical" => some .critical
  | "high" => some .high
  | "moderate" => some .medium
  | "medium" => some .medium
  | "low" => some .low
  | "info" => some .info
  | _ => none

/-- The level that a word names in any case, and the lowest for an unknown word. -/
def ofName (s : String) : Severity := (ofWord? (Text.lower s)).getD .info

/-- The level of a value: that of a text, and the lowest for any other value. -/
def ofJson : Json → Severity
  | .str s => ofName s
  | _ => .info

/-- Levels from the least severe on; equal ones keep their order. -/
def sortAscending (ss : List Severity) : List Severity := ss.mergeSort fun s t => t.atLeast s

theorem rank_injective {s t : Severity} (h : s.rank = t.rank) : s = t := by
  cases s <;> cases t <;> first | rfl | simp [rank] at h

/-- Levels stand in the list by their order. -/
theorem place_le_iff (s t : Severity) : s.place ≤ t.place ↔ t.rank ≤ s.rank := by
  cases s <;> cases t <;> decide

theorem mem_levels (s : Severity) : s ∈ levels := by cases s <;> decide

theorem ofName_name (s : Severity) : ofName s.name = s := by cases s <;> decide +kernel

end Severity

end LockAudit
