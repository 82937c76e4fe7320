import LockAudit.Json.Value

/-!
# `LockAudit.Schema` — values that should have a shape

When a value is read into a record, everything that is wrong with it is collected, not just the first
thing: an `Issue` names the place and the defect. `Checked` is a value or a list of issues, and
`Checked.both` joins the issues of two parts in order.
-/

namespace LockAudit.Schema

/-- What is wrong at a place. -/
inductive Defect
  | missing
  | notText
  | notList
  | notDict
  | notModel
  | notBool
  | boolText
  | notInt
  | intText
  | intFromFloat
  | intSize
  | notFloat
  | floatText
  | notFinite
  | notListed
  | tooSmall
  | refused
  deriving DecidableEq, Repr

/-- The name of a defect. -/
def Defect.name : Defect → String
  | .missing => "missing"
  | .notText => "string_type"
  | .notList => "list_type"
  | .notDict => "dict_type"
  | .notModel => "model_type"
  | .notBool => "bool_type"
  | .boolText => "bool_parsing"
  | .notInt => "int_type"
  | .intText => "int_parsing"
  | .intFromFloat => "int_from_float"
  | .intSize => "int_parsing_size"
  | .notFloat => "float_type"
  | .floatText => "float_parsing"
  | .notFinite => "finite_number"
  | .notListed => "literal_error"
  | .tooSmall => "greater_than_equal"
  | .refused => "value_error"

/-- A step on the way to a place in a value. -/
inductive Step
  | key (name : String)
  | index (n : Nat)
  deriving DecidableEq, Repr

/-- A defect and its place. -/
structure Issue where
  path : List Step
  defect : Defect
  deriving DecidableEq, Repr

/-- A value, or everything that is wrong with it. -/
abbrev Checked (α : Type) := Except (List Issue) α

/-- One issue. -/
def fail {α : Type} (path : List Step) (defect : Defect) : Checked α := .error [⟨path, defect⟩]

/-- Two parts of a value, or the issues of both. -/
def Checked.both {α β γ : Type} (f : α → β → γ) : Checked α → Checked β → Checked γ
  | .ok a, .ok b => .ok (f a b)
  | .error es, .ok _ => .error es
  | .ok _, .error es => .error es
  | .error es, .error fs => .error (es ++ fs)

/-- A value without issues. -/
def Checked.of {α : Type} (a : α) : Checked α := .ok a

/-- Gives a function of checked parts its next part. -/
def Checked.apply {α β : Type} (f : Checked (α → β)) (a : Checked α) : Checked β :=
  Checked.both (fun f a => f a) f a

/-- Puts a step in front of the place of every issue. -/
def Checked.under {α : Type} (step : Step) : Checked α → Checked α
  | .ok a => .ok a
  | .error es => .error (es.map fun e => ⟨step :: e.path, e.defect⟩)

/-- A text. -/
def text : Json → Checked String
  | .str s => .ok s
  | _ => fail [] .notText

/-- A text or null. -/
def textOrNull : Json → Checked (Option String)
  | .null => .ok none
  | .str s => .ok (some s)
  | _ => fail [] .notText

/-- Texts, counted from an index. -/
def textItems (n : Nat) : List Json → Checked (List String)
  | [] => .ok []
  | v :: r => Checked.both List.cons ((text v).under (.index n)) (textItems (n + 1) r)

/-- A list of texts. -/
def texts : Json → Checked (List String)
  | .arr items => textItems 0 items
  | _ => fail [] .notList

@[simp] theorem Checked.both_ok {α β γ : Type} (f : α → β → γ) (a : α) (b : β) :
    Checked.both f (.ok a) (.ok b) = .ok (f a b) := rfl

theorem Checked.both_eq_ok_iff {α β γ : Type} {f : α → β → γ} {a : Checked α} {b : Checked β}
    {c : γ} : Checked.both f a b = .ok c ↔ ∃ x y, a = .ok x ∧ b = .ok y ∧ f x y = c := by
  cases a <;> cases b <;> simp [Checked.both]

theorem Checked.of_under {α : Type} {step : Step} {c : Checked α} {a : α} (h : c.under step = .ok a) :
    c = .ok a := by
  cases c with
  | ok b => exact h
  | error issues => cases h

end LockAudit.Schema
