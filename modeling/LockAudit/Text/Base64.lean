import LockAudit.Text.Digit

/-!
# `LockAudit.Text.Base64` — bytes written with sixty-four characters

Four characters stand for three bytes; equals signs fill up the last four. Characters that are not of
the alphabet are skipped, and what follows the filling is not looked at.
-/

namespace LockAudit.Text.Base64

/-- The six bits of a character. -/
def sextet? (c : Char) : Option Nat :=
  if 'A' ≤ c && c ≤ 'Z' then some (c.toNat - 65)
  else if 'a' ≤ c && c ≤ 'z' then some (c.toNat - 71)
  else if isAsciiDigit c then some (c.toNat + 4)
  else if c = '+' then some 62
  else if c = '/' then some 63
  else none

/-- The bytes of some sextets; the bits that make no whole byte are dropped. -/
def bytes : List Nat → List UInt8
  | a :: b :: c :: d :: r =>
    let n := ((a * 64 + b) * 64 + c) * 64 + d
    (n / 65536).toUInt8 :: (n / 256).toUInt8 :: n.toUInt8 :: bytes r
  | [a, b, c] => [(a * 4 + b / 16).toUInt8, (b * 16 + c / 4).toUInt8]
  | [a, b] => [(a * 4 + b / 16).toUInt8]
  | _ => []

/-- The sextets of a text, up to the filling of the last four, of which `filled` signs have been
    seen. There are none if the text ends within four of them. -/
def sextets? (filled : Nat) (place : Nat) : List Char → Option (List Nat)
  | [] => if place = 0 then some [] else none
  | c :: r =>
    match sextet? c with
    | some n => (n :: ·) <$> sextets? 0 ((place + 1) % 4) r
    | none =>
      if c ≠ '=' ∨ place < 2 then sextets? filled place r
      else if 4 ≤ place + filled + 1 then some []
      else sextets? (filled + 1) place r

/-- The bytes that a text stands for. -/
def decode? (s : List Char) : Option (List UInt8) := (sextets? 0 0 s).map bytes

end LockAudit.Text.Base64
