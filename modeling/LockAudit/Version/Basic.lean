import LockAudit.Numeral

/-!
# `LockAudit.Version.Basic` — versions and their order

A version has an epoch, a release of at least one number, and up to four markers: a phase before the
release (alpha, beta, candidate), a revision after it, a development number, and a label of its own.

Versions are compared by their keys, rows of numbers compared lexicographically, so the order is
total by construction and two versions are equal exactly when their keys are: `1.0` and `1.0.0` are.
`text` is the normal form, which does not drop zeros.
-/

namespace LockAudit

/-- A phase before a release, in its order. -/
inductive Phase
  | alpha
  | beta
  | candidate
  deriving DecidableEq, Repr

/-- The letters of a phase in the normal form. -/
def Phase.letters : Phase → String
  | .alpha => "a"
  | .beta => "b"
  | .candidate => "rc"

/-- A part of a label: a number or a word in lower case. -/
inductive LabelPart
  | number (n : Nat)
  | word (w : List Char)
  deriving DecidableEq, Repr

/-- A version. A label without parts is no label. -/
structure Version where
  epoch : Nat
  release : List Nat
  phase : Option (Phase × Nat)
  revision : Option Nat
  development : Option Nat
  label : List LabelPart
  deriving DecidableEq, Repr

namespace Version

/-- A release without markers. -/
def ofRelease (release : List Nat) : Version := ⟨0, release, none, none, none, []⟩

/-- A release up to its last number that is not zero. -/
def significant (release : List Nat) : List Nat := (release.reverse.dropWhile (· == 0)).reverse

/-- The place of the phase marker: a development version of the release itself comes before every
    phase, and any other version without a phase after all of them. -/
def phaseKey (v : Version) : List Nat :=
  match v.phase, v.revision, v.development with
  | some (.alpha, n), _, _ => [1, n]
  | some (.beta, n), _, _ => [2, n]
  | some (.candidate, n), _, _ => [3, n]
  | none, none, some _ => [0]
  | none, _, _ => [4]

/-- The place of a part of a label: words come before numbers. -/
def LabelPart.key : LabelPart → List Nat
  | .word w => 0 :: w.map Char.toNat
  | .number n => [1, n]

/-- The rows that decide the order: epoch, release, phase, revision (a version without one first),
    development number (a version without one last), and the parts of the label. -/
def key (v : Version) : List (List Nat) :=
  [v.epoch] :: significant v.release :: v.phaseKey
    :: (match v.revision with | none => [0] | some n => [1, n])
    :: (match v.development with | none => [1] | some n => [0, n])
    :: v.label.map LabelPart.key

/-- Which of two versions comes first. -/
def order (v w : Version) : Ordering := compare v.key w.key

/-- Texts with points between them. -/
def points (ts : List (List Char)) : List Char := List.intercalate ['.'] ts

/-- The normal form. -/
def text (v : Version) : List Char :=
  (if v.epoch = 0 then [] else Numeral.digits v.epoch ++ ['!'])
    ++ points (v.release.map Numeral.digits)
    ++ (match v.phase with
        | none => []
        | some (p, n) => p.letters.toList ++ Numeral.digits n)
    ++ (match v.revision with
        | none => []
        | some n => ".post".toList ++ Numeral.digits n)
    ++ (match v.development with
        | none => []
        | some n => ".dev".toList ++ Numeral.digits n)
    ++ (match v.label with
        | [] => []
        | ps => '+' :: points (ps.map fun
            | .number n => Numeral.digits n
            | .word w => w))

end Version

end LockAudit
