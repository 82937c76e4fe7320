import LockAudit.Failure

/-!
# `LockAudit.Console` — what the operator gets to see

Messages have a level, and are collected as values in the order in which they arise.

What is shown on the terminal is a list of items: lines of text, tables and framed panels. Texts carry
style marks in square brackets, `[red]…[/red]`, which the terminal turns into colors. The terminal is
no part of this library. It is a parameter, a `Display`, and may refuse a text: marks that do not match
are an error to it. Nothing that comes behind such a text is shown.

## Contents
- **Messages.** `Log.Level` and `Log.Entry`.
- **Items.** `Item`, and texts with style marks.
- **The terminal.** `Display`, `Display.print`, and `Display.Shows` for what it does not refuse.
-/

namespace LockAudit

/-! ## Messages -/

namespace Log

/-- How important a message is. -/
inductive Level
  | debug
  | info
  | warning
  | error
  deriving DecidableEq, Repr

/-- The name of a level. -/
def Level.name : Level → String
  | .debug => "DEBUG"
  | .info => "INFO"
  | .warning => "WARNING"
  | .error => "ERROR"

/-- A message. -/
structure Entry where
  level : Level
  message : String
  deriving DecidableEq, Repr

/-- Whether a message asks for attention: a warning or an error. -/
def Entry.isAlert (e : Entry) : Bool := e.level == .warning || e.level == .error

end Log

namespace Console

/-! ## Items -/

/-- On which side the cells of a column stand. -/
inductive Side
  | left
  | right
  deriving DecidableEq, Repr

/-- The name of a side. -/
def Side.name : Side → String
  | .left => "left"
  | .right => "right"

/-- Something that is shown. -/
inductive Item
  | text (s : String)
  | table (title : String) (columns : List (String × Side)) (rows : List (List String))
  | panel (title body border : String)
  /-- A line of a progress display. It is drawn again and again while work goes on, and not printed. -/
  | task (s : String)
  deriving DecidableEq, Repr

/-- A text between the marks of a style. -/
def styled (style s : String) : String := "[" ++ style ++ "]" ++ s ++ "[/" ++ style ++ "]"

/-- The control characters that a title leaves out. -/
def isDropped (c : Char) : Bool :=
  c == '\x07' || c == '\x08' || c == '\x0b' || c == '\x0c' || c == '\r'

/-- A title, without the control characters that would disturb the terminal. -/
def title (s : String) : String := String.ofList (s.toList.filter fun c => !isDropped c)

/-! ## The terminal -/

/-- A terminal, by what goes wrong when it is handed an item. -/
structure Display where
  fault? : Item → Option Mishap

namespace Display

/-- A terminal that shows every text as it is. -/
def plain : Display := ⟨fun _ => none⟩

/-- Prints items up to the first that is refused: what was shown, and what went wrong. -/
def print (d : Display) : List Item → List Item × Option Mishap
  | [] => ([], none)
  | i :: r =>
    match d.fault? i with
    | some m => ([], some m)
    | none =>
      let (shown, fault) := print d r
      (i :: shown, fault)

/-- The terminal shows each of some items, as those who print them rely on. -/
def Shows (d : Display) (items : List Item) : Prop := ∀ i ∈ items, d.fault? i = none

variable {d : Display} {items : List Item}

theorem print_of_shows (h : d.Shows items) : d.print items = (items, none) := by
  induction items with
  | nil => rfl
  | cons i r ih =>
    rw [print, h i List.mem_cons_self, ih fun j hj => h j (List.mem_cons_of_mem i hj)]

/-- What comes behind an item that is refused is not shown. -/
theorem print_of_refused {i : Item} {m : Mishap} (h : d.Shows items) (hi : d.fault? i = some m)
    (rest : List Item) : d.print (items ++ i :: rest) = (items, some m) := by
  induction items with
  | nil =>
    rw [List.nil_append, print, hi]
  | cons j r ih =>
    rw [List.cons_append, print, h j List.mem_cons_self, ih fun k hk => h k (List.mem_cons_of_mem j hk)]

theorem findSome?_of_shows (h : d.Shows items) : items.findSome? d.fault? = none :=
  List.findSome?_eq_none_iff.mpr h

theorem shows_plain (items : List Item) : plain.Shows items := fun _ _ => rfl

end Display

end Console

end LockAudit
