import LockAudit.Binary64.Reader
import LockAudit.Schema
import LockAudit.Text.Blank

/-!
# `LockAudit.Config.Readers` — reading single settings

A setting is read generously: a truth value may be a word or a number, a number may be a text, as
long as nothing is lost. Each reader says what it accepts and names the defect of anything else.

## Contents
- **Truth values.** `truth`.
- **Integers.** `integer`, with `integerText?` for texts.
- **Binary64 values.** `decimal`, with `decimalText?` for texts.
-/

namespace LockAudit.Config

open LockAudit.Schema LockAudit.Text

/-! ## Truth values -/

/-- The words for true. -/
def trueWords : List String := ["1", "t", "y", "on", "yes", "true"]

/-- The words for false. -/
def falseWords : List String := ["0", "f", "n", "no", "off", "false"]

/-- The truth value of an integer: one or zero. -/
def truthOfInt (n : Int) : Checked Bool :=
  if n = 1 then .ok true else if n = 0 then .ok false else fail [] .boolText

/-- The integers of sixty-four bits, without the two ends. -/
def isWordSized (n : Int) : Bool := -twoTo 63 < n && n < twoTo 63

/-- A truth value: one, a word for one in any case, or a number that is one or zero. -/
def truth : Json → Checked Bool
  | .bool b => .ok b
  | .str s =>
    if trueWords.contains (lower s) then .ok true
    else if falseWords.contains (lower s) then .ok false
    else fail [] .boolText
  | .num (.int n) => if -twoTo 63 ≤ n && n < twoTo 63 then truthOfInt n else fail [] .notBool
  | .num (.float x) =>
    match x.toInt? with
    | some n => if isWordSized n then truthOfInt n else fail [] .notBool
    | none => fail [] .notBool
  | _ => fail [] .notBool

/-! ## Integers -/

/-- Leading zeros of a numeral, with underscores among them, except the last digit before the end or
    before a point. -/
def dropZeros (s : List Char) : List Char :=
  match s.dropWhile fun c => c == '0' || c == '_' with
  | [] => s.drop (s.length - 1)
  | '.' :: r => s.drop (s.length - r.length - 2)
  | r => r

/-- A numeral without a point that has only zeros behind it. -/
def dropPlaces (s : List Char) : List Char :=
  match s.dropWhile (· ≠ '.') with
  | '.' :: r => if r.all (· == '0') then s.takeWhile (· ≠ '.') else s
  | _ => s

/-- The digits of an unsigned numeral, which starts with a digit. -/
def wholeText? (s : List Char) : Option (List Char) :=
  match s with
  | c :: _ =>
    if isAsciiDigit c then
      let s := dropPlaces (dropZeros s)
      match Numeral.dropUnderscores? s with
      | some ds => if !ds.isEmpty && ds.all isAsciiDigit then some ds else none
      | none => none
    else none
  | [] => none

/-- What an integer's text comes to. -/
inductive IntegerText
  | value (n : Int)
  | tooLong
  | malformed
  deriving DecidableEq, Repr

/-- Reads the text of an integer: white space around it, a sign, single underscores inside, and a
    point with zeros behind it are allowed. -/
def integerText (s : List Char) : IntegerText :=
  let s := trimSpace s
  let (negative, r) := match s with
    | '-' :: r => (true, r)
    | '+' :: r => (false, r)
    | r => (false, r)
  match wholeText? r with
  | none => .malformed
  | some ds =>
    match Numeral.read ds with
    | .error _ => .tooLong
    | .ok n => .value (if negative then -(n : Int) else n)

/-- An integer: a number without places, a truth value, or a text. -/
def integer : Json → Checked Int
  | .num (.int n) => .ok n
  | .bool b => .ok (if b then 1 else 0)
  | .num (.float x) =>
    if x.isSpecial then fail [] .notFinite
    else
      match x.toInt? with
      | some n => if isWordSized n then .ok n else fail [] .intSize
      | none => fail [] .intFromFloat
  | .str s =>
    match integerText s.toList with
    | .value n => .ok n
    | .tooLong => fail [] .intSize
    | .malformed => fail [] .intText
  | _ => fail [] .notInt

/-! ## Binary64 values -/

/-- Reads the text of a number. White space may stand around it, or else single underscores inside. -/
def decimalText? (s : List Char) : Option Binary64 :=
  match Binary64.ofText? (trimSpace s) with
  | some x => some x
  | none => (Numeral.dropUnderscores? s).bind Binary64.ofText?

/-- A binary64 value: a number that is near one, a truth value, or a text. -/
def decimal : Json → Checked Binary64
  | .num (.float x) => .ok x
  | .num (.int n) =>
    match Binary64.ofInt? n with
    | some x => .ok x
    | none => fail [] .notFloat
  | .bool b => .ok (Binary64.ofRatio false (if b then 1 else 0) 1)
  | .str s =>
    match decimalText? s.toList with
    | some x => .ok x
    | none => fail [] .floatText
  | _ => fail [] .notFloat

/-! ## Choices -/

/-- One of some names. -/
def choice {α : Type} (ofName? : String → Option α) : Json → Checked α
  | .str s =>
    match ofName? s with
    | some a => .ok a
    | none => fail [] .notListed
  | _ => fail [] .notListed

end LockAudit.Config
