import LockAudit.Range

/-!
# `LockAudit.Proofs.Range.Grammar` — ranges as they are written, and what they mean

This module says what a range is without saying how one is read. A range is a tree (`Union`) with two
views: its text, with all the freedom in spacing and spelling that there is, and its meaning, a condition
on the three numbers of a release.

Meanings are stated in terms of a bound's *leading numbers*, those before its first open component, and
of releases cut to as many numbers; nothing is said of version comparison. That reading the text decides
the meaning is shown in `LockAudit.Proofs.Range.Containment`.

## Contents
- **Bounds.** `Digits`, `Wildcard`, `Piece`, `Bound`, and the numbers of a bound.
- **Ranges.** `Sign`, `Comparator`, `Alternative`, `Union`, each with its text.
- **Meanings.** `Sign.Meets` for a comparator, `Alternative.Admits` and `Union.Admits`.
- **Releases.** `Release`.
-/

namespace LockAudit.Range.Spelled

open LockAudit.Text

/-! ## Bounds -/

/-- A row of ASCII digits, shorter than the longest numeral, so that the next number can be written. -/
structure Digits where
  row : List Char
  row_ne : row ≠ []
  row_ascii : ∀ c ∈ row, isAsciiDigit c = true
  row_short : row.length < Numeral.maxDigits

/-- The number that digits denote. -/
def Digits.value (d : Digits) : Nat := Numeral.value d.row

/-- A sign for an open component. -/
inductive Wildcard
  | star
  | small
  | capital
  deriving DecidableEq, Repr

/-- How an open component is written. -/
def Wildcard.sign : Wildcard → Char
  | .star => '*'
  | .small => 'x'
  | .capital => 'X'

/-- A component of a bound. -/
inductive Piece
  | number (d : Digits)
  | wild (w : Wildcard)

/-- How a component is written. -/
def Piece.text : Piece → List Char
  | .number d => d.row
  | .wild w => [w.sign]

/-- The numbers before the first open component; what follows it does not count. -/
def leading : List Piece → List Nat
  | .number d :: ps => d.value :: leading ps
  | _ => []

/-- A character that neither separates words or alternatives nor belongs to an operator. -/
def isPlain (c : Char) : Bool := !isBlank c && !isOperatorChar c && c != '|'

/-- A bound: up to three components with points between them, perhaps with a `v` in front. Behind an
    open component a prerelease or build may stand, which does not count either. -/
structure Bound where
  v : Bool
  first : Piece
  more : List Piece
  suffix : List Char
  more_le : more.length ≤ 2
  suffix_sign : suffix = [] ∨ suffix.head? = some '-' ∨ suffix.head? = some '+'
  suffix_plain : ∀ c ∈ suffix, isPlain c = true
  suffix_open : suffix ≠ [] → ∃ w, Piece.wild w ∈ first :: more

/-- The components of a bound. -/
def Bound.pieces (b : Bound) : List Piece := b.first :: b.more

/-- How a bound is written. -/
def Bound.text (b : Bound) : List Char :=
  (if b.v then ['v'] else []) ++ Version.points (b.pieces.map Piece.text) ++ b.suffix

/-- The leading numbers of a bound, none to three. -/
def Bound.numbers (b : Bound) : List Nat := leading b.pieces

/-! ## Ranges -/

/-- The signs in front of a bound. -/
inductive Sign
  | none
  | equal
  | less
  | lessEqual
  | greater
  | greaterEqual
  | caret
  | tilde
  | tildeGreater
  deriving DecidableEq, Repr

/-- How a sign is written. -/
def Sign.text : Sign → List Char
  | .none => []
  | .equal => ['=']
  | .less => ['<']
  | .lessEqual => ['<', '=']
  | .greater => ['>']
  | .greaterEqual => ['>', '=']
  | .caret => ['^']
  | .tilde => ['~']
  | .tildeGreater => ['~', '>']

/-- Some spaces. -/
def spaces (n : Nat) : List Char := List.replicate n ' '

/-- A sign, any number of spaces, and a bound. -/
structure Comparator where
  sign : Sign
  gap : Nat
  bound : Bound

/-- The spaces behind a sign; without a sign there are none. -/
def Comparator.gapText (c : Comparator) : List Char := if c.sign = .none then [] else spaces c.gap

/-- How a comparator is written. -/
def Comparator.text (c : Comparator) : List Char := c.sign.text ++ c.gapText ++ c.bound.text

/-- An alternative of a range: a hyphen range, or comparators. With a comparator stands how many spaces
    more than one separate it from the next. -/
inductive Alternative
  | hyphen (low : Bound) (left right : Nat) (high : Bound)
  | all (comparators : List (Comparator × Nat))

/-- How comparators are written one after the other. -/
def listText : List (Comparator × Nat) → List Char
  | [] => []
  | [(c, _)] => c.text
  | (c, n) :: r => c.text ++ spaces (n + 1) ++ listText r

/-- How an alternative is written. -/
def Alternative.text : Alternative → List Char
  | .hyphen low left right high =>
    low.text ++ spaces (left + 1) ++ ['-'] ++ spaces (right + 1) ++ high.text
  | .all cs => listText cs

/-- An alternative with the spaces before and after it. -/
structure Spaced where
  before : Nat
  alternative : Alternative
  after : Nat

/-- How an alternative is written with the spaces around it. -/
def Spaced.text (a : Spaced) : List Char := spaces a.before ++ a.alternative.text ++ spaces a.after

/-- A range: alternatives with `||` between them, at least one. -/
structure Union where
  first : Spaced
  more : List Spaced

/-- The alternatives of a range. -/
def Union.alternatives (u : Union) : List Spaced := u.first :: u.more

/-- How alternatives are written one after the other. -/
def unionText (a : Spaced) : List Spaced → List Char
  | [] => a.text
  | b :: r => a.text ++ '|' :: '|' :: unionText b r

/-- How a range is written. -/
def Union.text (u : Union) : List Char := unionText u.first u.more

/-! ## Meanings -/

/-- How many numbers a caret holds fixed: all up to the first that is not zero, or all there are. -/
def caretFixed (p : List Nat) : Nat := min p.length ((p.takeWhile (· == 0)).length + 1)

/-- How many numbers a tilde holds fixed: the first two, or as many as there are. -/
def tildeFixed (p : List Nat) : Nat := min p.length 2

/-- What a comparator says of a release `v`, given the leading numbers `p` of its bound. Lists of
    numbers are compared lexicographically. -/
def Sign.Meets : Sign → List Nat → List Nat → Prop
  | .none, p, v => v.take p.length = p
  | .equal, p, v => v.take p.length = p
  | .less, p, v => v < padded p
  | .lessEqual, p, v => ¬ p < v.take p.length
  | .greater, p, v => p < v.take p.length
  | .greaterEqual, p, v => ¬ v < padded p
  | .caret, p, v => ¬ v < padded p ∧ v.take (caretFixed p) = p.take (caretFixed p)
  | .tilde, p, v => ¬ v < padded p ∧ v.take (tildeFixed p) = p.take (tildeFixed p)
  | .tildeGreater, p, v => ¬ v < padded p ∧ v.take (tildeFixed p) = p.take (tildeFixed p)

instance : (s : Sign) → (p v : List Nat) → Decidable (s.Meets p v)
  | .none, p, v => inferInstanceAs (Decidable (v.take p.length = p))
  | .equal, p, v => inferInstanceAs (Decidable (v.take p.length = p))
  | .less, p, v => inferInstanceAs (Decidable (v < padded p))
  | .lessEqual, p, v => inferInstanceAs (Decidable (¬ p < v.take p.length))
  | .greater, p, v => inferInstanceAs (Decidable (p < v.take p.length))
  | .greaterEqual, p, v => inferInstanceAs (Decidable (¬ v < padded p))
  | .caret, p, v => inferInstanceAs
    (Decidable (¬ v < padded p ∧ v.take (caretFixed p) = p.take (caretFixed p)))
  | .tilde, p, v => inferInstanceAs
    (Decidable (¬ v < padded p ∧ v.take (tildeFixed p) = p.take (tildeFixed p)))
  | .tildeGreater, p, v => inferInstanceAs
    (Decidable (¬ v < padded p ∧ v.take (tildeFixed p) = p.take (tildeFixed p)))

example : Sign.Meets .caret [0, 0, 3] [0, 0, 3] ∧ ¬ Sign.Meets .caret [0, 0, 3] [0, 0, 4] := by decide

example : Sign.Meets .lessEqual [1, 2] [1, 2, 9] ∧ ¬ Sign.Meets .greater [1, 2] [1, 2, 9] := by decide

/-- Whether an alternative admits a release: it lies between both ends, or meets all comparators. -/
def Alternative.Admits : Alternative → List Nat → Prop
  | .hyphen low _ _ high, v =>
    Sign.Meets .greaterEqual low.numbers v ∧ Sign.Meets .lessEqual high.numbers v
  | .all cs, v => ∀ c ∈ cs, c.1.sign.Meets c.1.bound.numbers v

instance : (a : Alternative) → (v : List Nat) → Decidable (a.Admits v)
  | .hyphen low _ _ high, v => inferInstanceAs (Decidable
    (Sign.Meets .greaterEqual low.numbers v ∧ Sign.Meets .lessEqual high.numbers v))
  | .all cs, v => inferInstanceAs (Decidable (∀ c ∈ cs, c.1.sign.Meets c.1.bound.numbers v))

/-- Whether a range admits a release: one of its alternatives does. -/
def Union.Admits (u : Union) (v : List Nat) : Prop :=
  ∃ a ∈ u.alternatives, a.alternative.Admits v

instance (u : Union) (v : List Nat) : Decidable (u.Admits v) :=
  inferInstanceAs (Decidable (∃ a ∈ u.alternatives, a.alternative.Admits v))

/-! ## Releases -/

/-- A release: three numbers. -/
structure Release where
  major : Digits
  minor : Digits
  patch : Digits

/-- How a release is written. -/
def Release.text (r : Release) : List Char :=
  Version.points [r.major.row, r.minor.row, r.patch.row]

/-- The numbers of a release. -/
def Release.numbers (r : Release) : List Nat := [r.major.value, r.minor.value, r.patch.value]

end LockAudit.Range.Spelled
