import LockAudit.Text.Blank
import LockAudit.Text.Digit

/-!
# `LockAudit.Numeral` — decimal numerals and their length limit

A numeral is read only if it has at most `maxDigits` digits, leading zeros counted, and a number is
written only if it needs no more. `Refusal` says which of the two limits was met.

`read_ok_iff` says when a numeral is read, and as what.
-/

namespace LockAudit.Numeral

open LockAudit.Text

/-- The longest numeral that is read or written. -/
def maxDigits : Nat := 4300

/-- Why a numeral was refused. -/
inductive Refusal
  /-- A numeral of this many digits was to be read. -/
  | tooLongToRead (digits : Nat)
  /-- A number whose numeral would be too long was to be written. -/
  | tooLongToWrite
  deriving DecidableEq, Repr

/-- The text of a refusal. -/
def Refusal.message : Refusal → String
  | .tooLongToRead n =>
    "Exceeds the limit (4300 digits) for integer string conversion: value has " ++ Nat.repr n
      ++ " digits; use sys.set_int_max_str_digits() to increase the limit"
  | .tooLongToWrite =>
    "Exceeds the limit (4300 digits) for integer string conversion; "
      ++ "use sys.set_int_max_str_digits() to increase the limit"

/-- The number that a row of digits denotes. Characters that are no digits count as zero. -/
def value (ds : List Char) : Nat := ds.foldl (fun n c => 10 * n + (digitValue? c).getD 0) 0

/-- Reads a row of digits, unless it is too long. -/
def read (ds : List Char) : Except Refusal Nat :=
  if ds.length ≤ maxDigits then .ok (value ds) else .error (.tooLongToRead ds.length)

/-! ## Numerals in texts -/

/-- Whether every underscore stands between two other characters. -/
def underscoresInside : List Char → Bool
  | [] => true
  | ['_'] => false
  | '_' :: '_' :: _ => false
  | _ :: r => underscoresInside r

/-- A text without its underscores, which must each stand between two other characters. -/
def dropUnderscores? (s : List Char) : Option (List Char) :=
  if s.head? = some '_' || !underscoresInside s then none else some (s.filter (· ≠ '_'))

/-- Reads an integer: white space around it, a sign, and digits of any script, with single
    underscores between them. -/
def integer? (s : List Char) : Option Int :=
  let s := trimSpace s
  let (negative, r) := match s with
    | '-' :: r => (true, r)
    | '+' :: r => (false, r)
    | r => (false, r)
  match dropUnderscores? r with
  | none => none
  | some ds =>
    if ds.isEmpty || !ds.all isDigit then none
    else match read ds with
      | .error _ => none
      | .ok n => some (if negative then -(n : Int) else n)

/-! ## Writing -/

/-- The decimal digits of a number, most significant first. -/
def digits (n : Nat) : List Char := Nat.toDigits 10 n

/-- Whether a number can be written within the limit. -/
def writable (n : Nat) : Bool := (digits n).length ≤ maxDigits

/-- The digits at the front of a text, and what follows them. -/
def spanDigits (p : Char → Bool) (s : List Char) : List Char × List Char :=
  (s.takeWhile p, s.dropWhile p)

theorem spanDigits_append (p : Char → Bool) (s : List Char) :
    (spanDigits p s).1 ++ (spanDigits p s).2 = s := by simp [spanDigits]

theorem read_ok_iff {ds : List Char} {n : Nat} :
    read ds = .ok n ↔ ds.length ≤ maxDigits ∧ value ds = n := by
  unfold read
  by_cases h : ds.length ≤ maxDigits <;> simp [h]

end LockAudit.Numeral
