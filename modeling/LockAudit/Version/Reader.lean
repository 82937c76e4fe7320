import LockAudit.Version.Basic
import LockAudit.Text.Blank

/-!
# `LockAudit.Version.Reader` — reading versions

The grammar of a version text, letters in either case:

    [v] [epoch !] number {. number}
      [sep] (a | alpha | b | beta | c | rc | pre | preview) [sep] [number]
      - number  |  [sep] (post | rev | r) [sep] [number]
      [sep] dev [sep] [number]
      + part {sep part}

where every line but the first is optional and a separator is one of `.`, `-` and `_`. Reading has
two halves. `Draft.parse?` finds the parts without looking at the size of a number, so a text that
is no version is told apart from one with a number that is too long; `Draft.version` then reads the
numbers from left to right.

Semantic versions are spelled differently before and after the release. `markers` respells what
follows a release: build metadata is cut, and a numeric prerelease becomes an alpha, which sorts
before the release as it must. `Version.parseInstalled` reads an installed version that way.
-/

namespace LockAudit

open LockAudit.Text

namespace Version

/-- Why a text gives no version. -/
inductive Fault
  /-- The text is not in the grammar. -/
  | invalid
  /-- The text is in the grammar, and one of its numbers was refused. -/
  | numeral (refusal : Numeral.Refusal)
  deriving DecidableEq, Repr

/-! ## The grammar -/

/-- The parts of a version text, numbers as they are written. A missing number is an empty row. -/
structure Draft where
  epoch : List Char
  release : List (List Char)
  phase : Option (Phase × List Char)
  revision : Option (List Char)
  development : Option (List Char)
  label : List (List Char)
  deriving Repr

/-- One of the three separators. -/
def isSeparator (c : Char) : Bool := c == '.' || c == '-' || c == '_'

/-- The text without a separator at its front. -/
def skipSeparator : List Char → List Char
  | [] => []
  | c :: r => if isSeparator c then r else c :: r

/-- What follows a word at the front of a text, in either case. -/
def afterWord? (w s : List Char) : Option (List Char) :=
  if (s.take w.length).map Char.toLower = w then some (s.drop w.length) else none

/-- The value and the rest for the first of some words that is at the front of a text. -/
def firstWord? {α : Type} (ws : List (String × α)) (s : List Char) : Option (α × List Char) :=
  ws.findSome? fun (w, a) => (afterWord? w.toList s).map fun r => (a, r)

/-- Further numbers at the front of a text, each behind a point. -/
def moreNumbers (p : Char → Bool) (s : List Char) : List (List Char) × List Char :=
  match s with
  | '.' :: r =>
    if (r.takeWhile p).isEmpty then ([], s)
    else
      let (more, u) := moreNumbers p (r.dropWhile p)
      (r.takeWhile p :: more, u)
  | _ => ([], s)
termination_by s.length
decreasing_by
  have := (List.dropWhile_sublist (l := r) p).length_le
  simp only [List.length_cons]
  omega

/-- Numbers with points between them at the front of a text; at least one. -/
def numbers? (p : Char → Bool) (s : List Char) : Option (List (List Char) × List Char) :=
  if (s.takeWhile p).isEmpty then none
  else
    let (more, r) := moreNumbers p (s.dropWhile p)
    some (s.takeWhile p :: more, r)

/-- A marker: a separator, one of some words, a separator and a number, where only the word is
    required. -/
def marker? {α : Type} (ws : List (String × α)) (s : List Char) :
    Option ((α × List Char) × List Char) :=
  (firstWord? ws (skipSeparator s)).map fun (a, r) =>
    let r := skipSeparator r
    ((a, r.takeWhile isAsciiDigit), r.dropWhile isAsciiDigit)

/-- The words for a phase, longer ones before those they begin with. -/
def phaseWords : List (String × Phase) :=
  [("alpha", .alpha), ("a", .alpha), ("beta", .beta), ("b", .beta), ("preview", .candidate),
    ("pre", .candidate), ("c", .candidate), ("rc", .candidate)]

/-- The words for a revision, longer ones before those they begin with. -/
def revisionWords : List (String × Unit) := [("post", ()), ("rev", ()), ("r", ())]

/-- The revision at the front of a text: a hyphen and a number, or a marker. -/
def revision? (s : List Char) : Option (List Char × List Char) :=
  match s with
  | '-' :: r =>
    if (r.takeWhile isAsciiDigit).isEmpty then (marker? revisionWords s).map fun m => (m.1.2, m.2)
    else some (r.takeWhile isAsciiDigit, r.dropWhile isAsciiDigit)
  | _ => (marker? revisionWords s).map fun m => (m.1.2, m.2)

/-- A letter or a digit of the ASCII set. -/
def isLabelChar (c : Char) : Bool := isAsciiDigit c || c.isAlpha

/-- The parts of a label, if the text is one. -/
def label? (s : List Char) : Option (List (List Char)) :=
  match s with
  | [] => some []
  | '+' :: r =>
    let parts := split isSeparator r
    if parts.all (fun w => !w.isEmpty && w.all isLabelChar) then some parts else none
  | _ => none

/-- The parts of a version text, if it is in the grammar. Blanks at either end do not count. Letters are
    taken to be those of ASCII, in either case. Some editions of the grammar fold case beyond them and
    read `ſ` as an `s`; this is the grammar of those that do not. -/
def Draft.parse? (s : List Char) : Option Draft :=
  let s := trim s
  let s := (afterWord? ['v'] s).getD s
  let (epoch, s) := match s.dropWhile isAsciiDigit with
    | '!' :: r => if (s.takeWhile isAsciiDigit).isEmpty then ([], s) else (s.takeWhile isAsciiDigit, r)
    | _ => ([], s)
  match numbers? isAsciiDigit s with
  | none => none
  | some (release, s) =>
    let (phase, s) := match marker? phaseWords s with
      | some (m, r) => (some m, r)
      | none => (none, s)
    let (revision, s) := match revision? s with
      | some (n, r) => (some n, r)
      | none => (none, s)
    let (development, s) := match marker? [("dev", ())] s with
      | some ((_, n), r) => (some n, r)
      | none => (none, s)
    (label? s).map fun label => ⟨epoch, release, phase, revision, development, label⟩

/-! ## The numbers -/

/-- Reads a row of digits. -/
def number (ds : List Char) : Except Fault Nat :=
  match Numeral.read ds with
  | .ok n => .ok n
  | .error e => .error (.numeral e)

/-- Reads an optional row of digits. -/
def number? : Option (List Char) → Except Fault (Option Nat)
  | none => .ok none
  | some ds => some <$> number ds

/-- A part of a label: a number if it has digits alone. -/
def labelPart (w : List Char) : Except Fault LabelPart :=
  if w.all isAsciiDigit then .number <$> number w else .ok (.word (w.map Char.toLower))

/-- The version with these parts. -/
def Draft.version (d : Draft) : Except Fault Version := do
  let epoch ← number d.epoch
  let release ← d.release.mapM number
  let phase ← match d.phase with
    | none => pure none
    | some (p, ds) => do pure (some (p, ← number ds))
  let revision ← number? d.revision
  let development ← number? d.development
  let label ← d.label.mapM labelPart
  pure ⟨epoch, release, phase, revision, development, label⟩

/-- Reads a version text. -/
def parse (s : List Char) : Except Fault Version :=
  match Draft.parse? s with
  | none => .error .invalid
  | some d => d.version

/-! ## Semantic spellings -/

/-- What follows a release in a semantic version, in the spelling of this grammar. Build metadata
    is cut. A prerelease of one number `N` or two numbers `N.M` becomes the phase `aN` or
    `aN.postM`: read as it stands it would be a revision, which comes after the release. -/
def markers (suffix : List Char) : List Char :=
  let s := suffix.takeWhile (· ≠ '+')
  match s with
  | '-' :: r =>
    match numbers? isDigit r with
    | some ([n], []) => 'a' :: n
    | some ([n, m], []) => 'a' :: n ++ ".post".toList ++ m
    | _ => s
  | _ => s

/-- The version with a release, given by its numbers, and a suffix in semantic spelling. The
    release is written out, so its numbers must be writable. -/
def ofSemantic (release : List Nat) (suffix : List Char) : Except Fault Version :=
  if release.all Numeral.writable then
    parse (points (release.map Numeral.digits) ++ markers suffix)
  else .error (.numeral .tooLongToWrite)

/-- Reads an installed version: a release, to which every script's digits belong here, with a
    suffix in semantic spelling, or else any version text. Leading `v` and `=` are dropped. -/
def parseInstalled (s : List Char) : Except Fault Version :=
  let s := (trim s).dropWhile fun c => c == 'v' || c == '='
  match numbers? isDigit s with
  | some (_, suffix) =>
    if suffix.contains '\n' then parse s
    else parse (s.take (s.length - suffix.length) ++ markers suffix)
  | none => parse s

end Version

end LockAudit
