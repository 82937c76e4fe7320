import LockAudit.Binary64.Text

/-!
# `LockAudit.Json.Value` — JSON values

A value keeps what its text says apart from spacing: integers are exact and of any size, numbers
with a point or an exponent are binary64 values, and an object lists its members in order.

## Contents
- **`Number`** and **`Json`**, with the name of each kind of value (`kindName`).
- **Members.** An object is a list of pairs. `Pairs.put` replaces the value of a name where it stands or
  adds the name at the end, `Pairs.ofList` puts pairs one after the other, so a later pair wins and keeps
  the place of the earlier one, and `Pairs.get?` looks a name up. `Pairs.sort` orders pairs by name, code
  point by code point.
- **The sorted form.** `Json.sorted` orders the members of every object in a value by name, at every
  depth. Two values that differ only in the order of members have one sorted form, so a function of the
  sorted form cannot depend on that order.
-/

namespace LockAudit

/-- A JSON number: an integer, or a binary64 value if its text has a point or an exponent. -/
inductive Number
  | int (n : Int)
  | float (x : Binary64)
  deriving DecidableEq, Repr

/-- A JSON value. -/
inductive Json
  | null
  | bool (b : Bool)
  | num (n : Number)
  | str (s : String)
  | arr (items : List Json)
  | obj (members : List (String × Json))
  deriving Repr

/-- The text of an integer. -/
def intText (n : Int) : List Char :=
  if n < 0 then '-' :: Nat.toDigits 10 n.natAbs else Nat.toDigits 10 n.natAbs

/-- The text of a number: an integer's digits, or the shortest text of a binary64 value. -/
def Number.text : Number → List Char
  | .int n => intText n
  | .float x => x.repr

/-- Neither zero nor a zero of binary64; the value that is no number counts as set. -/
def Number.isSet : Number → Bool
  | .int n => n != 0
  | .float x => !x.isZero

/-- The binary64 value of a number, or the one nearest to an integer. -/
def Number.nearest : Number → Binary64
  | .int n => Binary64.ofRatio (n < 0) n.natAbs 1
  | .float x => x

/-- The binary64 value of a number. None is near to an integer that is too great. -/
def Number.float? : Number → Option Binary64
  | .int n => Binary64.ofInt? n
  | .float x => some x

/-- A number to some places after the point. An integer has none. -/
def Number.roundTo (places : Nat) : Number → Number
  | .int n => .int n
  | .float x => .float (x.roundTo places)

namespace Json

/-- The name of the kind of a value, as messages give it. -/
def kindName : Json → String
  | .null => "NoneType"
  | .bool _ => "bool"
  | .num (.int _) => "int"
  | .num (.float _) => "float"
  | .str _ => "str"
  | .arr _ => "list"
  | .obj _ => "dict"

/-- Everything but null, false, zero, and what is empty. -/
def isSet : Json → Bool
  | .null => false
  | .bool b => b
  | .num n => n.isSet
  | .str s => s != ""
  | .arr items => !items.isEmpty
  | .obj members => !members.isEmpty

/-- A text, if the value is one. -/
def str? : Json → Option String
  | .str s => some s
  | _ => none

/-- A truth value, if the value is one. -/
def bool? : Json → Option Bool
  | .bool b => some b
  | _ => none

end Json

/-! ## Pairs in order -/

namespace Pairs

variable {α : Type}

/-- The value that goes with a name: that of its first pair. -/
def get? (name : String) : List (String × α) → Option α
  | [] => none
  | (k, v) :: r => if k = name then some v else get? name r

/-- Gives a name a value: in its place if the name is there, else at the end. -/
def put (name : String) (value : α) : List (String × α) → List (String × α)
  | [] => [(name, value)]
  | (k, v) :: r => if k = name then (k, value) :: r else (k, v) :: put name value r

/-- Puts pairs one after the other, so that every name stands once. -/
def ofList (ps : List (String × α)) : List (String × α) :=
  ps.foldl (fun acc p => put p.1 p.2 acc) []

/-- The pairs in the order of their names. -/
def sort (ps : List (String × α)) : List (String × α) := ps.mergeSort (fun a b => a.1 ≤ b.1)

@[simp] theorem get?_put_self (name : String) (value : α) (ps : List (String × α)) :
    get? name (put name value ps) = some value := by
  induction ps with
  | nil => simp [put, get?]
  | cons p r ih =>
    obtain ⟨k, v⟩ := p
    by_cases h : k = name <;> simp [put, get?, h, ih]

theorem get?_put_of_ne {name other : String} (h : other ≠ name) (value : α)
    (ps : List (String × α)) : get? other (put name value ps) = get? other ps := by
  induction ps with
  | nil => simp [put, get?, Ne.symm h]
  | cons p r ih =>
    obtain ⟨k, v⟩ := p
    by_cases hk : k = name
    · subst hk; simp [put, get?, Ne.symm h]
    · by_cases ho : k = other
      · subst ho; simp [put, get?, hk]
      · simp [put, get?, hk, ho, ih]

theorem sort_perm (ps : List (String × α)) : (sort ps).Perm ps := List.mergeSort_perm ..

end Pairs

namespace Json

/-- The member of an object with a name. -/
def member? (name : String) : Json → Option Json
  | .obj members => Pairs.get? name members
  | _ => none

/-! ## The sorted form -/

mutual

/-- The value with the members of all its objects in the order of their names. -/
def sorted : Json → Json
  | .arr items => .arr (sortedItems items)
  | .obj members => .obj (Pairs.sort (sortedMembers members))
  | v => v

/-- Sorts every item. -/
def sortedItems : List Json → List Json
  | [] => []
  | v :: r => sorted v :: sortedItems r

/-- Sorts the value of every member. -/
def sortedMembers : List (String × Json) → List (String × Json)
  | [] => []
  | (k, v) :: r => (k, sorted v) :: sortedMembers r

end

theorem sortedMembers_names (ms : List (String × Json)) :
    (sortedMembers ms).map (·.1) = ms.map (·.1) := by
  induction ms with
  | nil => simp [sortedMembers]
  | cons m r ih => obtain ⟨k, v⟩ := m; simp [sortedMembers, ih]

end Json

end LockAudit
