import LockAudit.Binary64.Basic
import LockAudit.Numeral

/-!
# `LockAudit.Binary64.Reader` — reading binary64 values

A numeral has digits with a point among them and may have an exponent; `inf`, `infinity` and `nan`
are words for the values that have no digits. The value is the one nearest to the decimal number.
-/

namespace LockAudit.Binary64

open LockAudit.Text

/-- The exponent of a numeral, if its text is empty or has one. -/
def exponentText? : List Char → Option Int
  | [] => some 0
  | e :: r =>
    if e = 'e' ∨ e = 'E' then
      let (negative, ds) := match r with
        | '-' :: t => (true, t)
        | '+' :: t => (false, t)
        | t => (false, t)
      if !ds.isEmpty && ds.all isAsciiDigit then
        some ((if negative then -1 else 1) * (Numeral.value ds : Int))
      else none
    else none

/-- An unsigned numeral: digits, a point and digits, with at least one digit, and an exponent. -/
def numeralText? (negative : Bool) (s : List Char) : Option Binary64 :=
  let whole := s.takeWhile isAsciiDigit
  let (places, rest) := match s.dropWhile isAsciiDigit with
    | '.' :: r => (r.takeWhile isAsciiDigit, r.dropWhile isAsciiDigit)
    | r => ([], r)
  if whole.isEmpty && places.isEmpty then none
  else (exponentText? rest).map fun e =>
    ofDecimal negative (Numeral.value (whole ++ places)) (e - places.length)

/-- Reads a number with a sign, or a word for an infinity or for no number. -/
def ofText? (s : List Char) : Option Binary64 :=
  let (negative, r) := match s with
    | '-' :: r => (true, r)
    | '+' :: r => (false, r)
    | r => (false, r)
  let word := String.ofList (r.map Char.toLower)
  if word = "inf" || word = "infinity" then some (infinity negative)
  else if word = "nan" then some nan
  else numeralText? negative r

end LockAudit.Binary64
