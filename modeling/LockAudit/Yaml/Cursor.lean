import LockAudit.Text.Digit

/-!
# `LockAudit.Yaml.Cursor` — a place in a YAML text

A cursor is what is still to be read, with the number of characters, lines and columns before it.
Line breaks are the line feed and three characters of Unicode; the carriage return is expected to be
a line feed already.

## Contents
- **`Fault`**, why a text is refused.
- **Characters.** `isPrintable`, `isBreak`, and `endsWord` for the end of a word.
- **The cursor.** `advance`, `span`, `lineBreak?`, `atMarker`.
-/

namespace LockAudit.Yaml

/-- Why a YAML text is refused. -/
inductive Fault
  /-- A character that may not stand in a text. -/
  | unprintable
  /-- Something stands where it may not. -/
  | misplaced
  /-- A quoted text or a key that does not end. -/
  | unfinished
  /-- An escape that names no character. -/
  | escape
  /-- A directive that cannot be read. -/
  | directive
  /-- An anchor, an alias or a tag that cannot be read. -/
  | property
  /-- An anchor that is given twice, or an alias to none. -/
  | anchor
  /-- A tag that is not known, or that does not suit what it stands on. -/
  | tag
  /-- A text that is not what its tag says. -/
  | scalar
  /-- A collection as a key. -/
  | key
  /-- A merge of something that is not a mapping. -/
  | merge
  /-- A second document. -/
  | several
  deriving DecidableEq, Repr

/-! ## Characters -/

/-- The characters that may stand in a text. -/
def isPrintable (c : Char) : Bool :=
  let n := c.toNat
  c == '\t' || c == '\n' || (0x20 ≤ n && n ≤ 0x7e) || n == 0x85 || (0xa0 ≤ n && n ≤ 0xd7ff)
    || (0xe000 ≤ n && n ≤ 0xfffd) || 0x10000 ≤ n

/-- A character that ends a line. -/
def isBreak (c : Char) : Bool := c == '\n' || c == '\x85' || c == '\u2028' || c == '\u2029'

/-- A character that stays on its line. -/
def isInline (c : Char) : Bool := !isBreak c

/-- A space or a tab. -/
def isGap (c : Char) : Bool := c == ' ' || c == '\t'

/-- Whether a word ends before a character: at a space, a tab, a line break or the end. -/
def endsWord : Option Char → Bool
  | none => true
  | some c => isGap c || isBreak c

/-- Whether a word ends that must not end at a tab. -/
def endsStrictly : Option Char → Bool
  | none => true
  | some c => c == ' ' || isBreak c

/-- Whether a line ends before a character. -/
def endsLine : Option Char → Bool
  | none => true
  | some c => isBreak c

/-- The characters of a name: letters, digits, the hyphen and the underscore. -/
def isNameChar (c : Char) : Bool := c.isAlphanum || c == '-' || c == '_'

/-! ## The cursor -/

/-- A place in a text. -/
structure Cursor where
  rest : List Char
  /-- The characters before the place. -/
  index : Nat
  /-- The lines before the place. -/
  line : Nat
  /-- The characters before it on its line. A byte order mark is not counted. -/
  column : Nat
  deriving Repr

namespace Cursor

/-- The start of a text. -/
def ofText (s : List Char) : Cursor := ⟨s, 0, 0, 0⟩

/-- The next character. -/
def peek (c : Cursor) : Option Char := c.rest.head?

/-- The character after the next one. -/
def second (c : Cursor) : Option Char := c.rest.tail.head?

/-- The place after the next character. -/
def next (c : Cursor) : Cursor :=
  match c.rest with
  | [] => c
  | x :: r =>
    if isBreak x then ⟨r, c.index + 1, c.line + 1, 0⟩
    else ⟨r, c.index + 1, c.line, if x = '\ufeff' then c.column else c.column + 1⟩

/-- The place some characters further on. -/
def advance : Nat → Cursor → Cursor
  | 0, c => c
  | n + 1, c => advance n c.next

/-- The characters at the front that satisfy a test, and the place after them. -/
def span (p : Char → Bool) (c : Cursor) : List Char × Cursor :=
  let run := c.rest.takeWhile p
  (run, c.advance run.length)

/-- The place after the characters that satisfy a test. -/
def skip (p : Char → Bool) (c : Cursor) : Cursor := (c.span p).2

/-- A line break, and the place after it. Two of the four kinds are kept as they are. -/
def lineBreak? (c : Cursor) : Option (Char × Cursor) :=
  match c.peek with
  | some x =>
    if isBreak x then some (if x = '\x85' then '\n' else x, c.next) else none
  | none => none

/-- The place after a line break, if there is one. -/
def skipBreak (c : Cursor) : Cursor := (c.lineBreak?.map Prod.snd).getD c

/-- Whether a mark of three characters stands at the start of a line, alone. -/
def atMark (mark : List Char) (c : Cursor) : Bool :=
  c.column == 0 && c.rest.take 3 == mark && endsWord (c.rest.drop 3).head?

/-- Whether a document begins or ends here. -/
def atMarker (c : Cursor) : Bool :=
  c.atMark ['-', '-', '-'] || c.atMark ['.', '.', '.']

/-- Spaces, a comment and the line break after it. Anything else is a fault. -/
def restOfLine (fault : Fault) (c : Cursor) : Except Fault Cursor :=
  let c := c.skip (· == ' ')
  let c := if c.peek = some '#' then c.skip isInline else c
  if endsLine c.peek then .ok c.skipBreak else .error fault

end Cursor

end LockAudit.Yaml
