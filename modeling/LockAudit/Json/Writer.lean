import LockAudit.Json.Value
import LockAudit.Text.Digit

/-!
# `LockAudit.Json.Writer` — writing JSON texts

Two layouts of one value. `compact` has no spaces and lists the members of every object by name, so
it does not depend on the order in which members were given; `indented` keeps that order and puts
every member and item on a line of its own. Both are plain ASCII: any other character, and every
control character, is written as an escape.

A binary64 value that is no number or infinite is written `NaN`, `Infinity` or `-Infinity`, which
`Json.parse` reads and the JSON standard does not know.
-/

namespace LockAudit.Json

open LockAudit.Text

/-! ## Strings -/

/-- A Unicode escape: four hexadecimal digits in lower case. -/
def unitEscape (u : Nat) : List Char :=
  ['\\', 'u', hexDigit (u / 4096 % 16), hexDigit (u / 256 % 16), hexDigit (u / 16 % 16),
    hexDigit (u % 16)]

/-- A character inside a string. Printable ASCII stands for itself except the quote and the
    backslash; a character beyond sixteen bits is a surrogate pair. -/
def escape (c : Char) : List Char :=
  let n := c.toNat
  if c = '"' then ['\\', '"']
  else if c = '\\' then ['\\', '\\']
  else if 0x20 ≤ n ∧ n ≤ 0x7e then [c]
  else if c = '\n' then ['\\', 'n']
  else if c = '\r' then ['\\', 'r']
  else if c = '\t' then ['\\', 't']
  else if c = '\x08' then ['\\', 'b']
  else if c = '\x0c' then ['\\', 'f']
  else if n < 0x10000 then unitEscape n
  else unitEscape (0xd800 + (n - 0x10000) / 0x400) ++ unitEscape (0xdc00 + (n - 0x10000) % 0x400)

/-- A string with its quotes. -/
def quoted (s : String) : List Char := '"' :: s.toList.flatMap escape ++ ['"']

/-- A number. -/
def numberText : Number → List Char
  | .int n => intText n
  | .float x =>
    if x.isNaN then "NaN".toList
    else if x.isSpecial then x.sign ++ "Infinity".toList
    else x.repr

/-! ## Layouts -/

/-- Texts with commas between them. -/
def commas (ts : List (List Char)) : List Char := List.intercalate [','] ts

mutual

/-- The compact text, members by name. -/
def compactChars : Json → List Char
  | .null => "null".toList
  | .bool true => "true".toList
  | .bool false => "false".toList
  | .num n => numberText n
  | .str s => quoted s
  | .arr items => '[' :: commas (compactItems items) ++ [']']
  | .obj members =>
    '{' :: commas ((Pairs.sort (compactMembers members)).map fun p => quoted p.1 ++ ':' :: p.2)
      ++ ['}']

/-- The compact texts of some items. -/
def compactItems : List Json → List (List Char)
  | [] => []
  | v :: r => compactChars v :: compactItems r

/-- The compact texts of some members, each with its name. -/
def compactMembers : List (String × Json) → List (String × List Char)
  | [] => []
  | (k, v) :: r => (k, compactChars v) :: compactMembers r

end

/-- The compact text as a string. -/
def compact (v : Json) : String := String.ofList (compactChars v)

/-- Texts each on a line of its own, indented by two spaces a level, inside brackets. -/
def block (level : Nat) (opening closing : Char) (ts : List (List Char)) : List Char :=
  match ts with
  | [] => [opening, closing]
  | ts =>
    let line (n : Nat) : List Char := '\n' :: List.replicate (2 * n) ' '
    opening :: commas (ts.map (line (level + 1) ++ ·)) ++ line level ++ [closing]

mutual

/-- The indented text, members in order. -/
def indentedChars (level : Nat) : Json → List Char
  | .null => "null".toList
  | .bool true => "true".toList
  | .bool false => "false".toList
  | .num n => numberText n
  | .str s => quoted s
  | .arr items => block level '[' ']' (indentedItems (level + 1) items)
  | .obj members => block level '{' '}' (indentedMembers (level + 1) members)

/-- The indented texts of some items. -/
def indentedItems (level : Nat) : List Json → List (List Char)
  | [] => []
  | v :: r => indentedChars level v :: indentedItems level r

/-- The indented texts of some members. -/
def indentedMembers (level : Nat) : List (String × Json) → List (List Char)
  | [] => []
  | (k, v) :: r => (quoted k ++ ':' :: ' ' :: indentedChars level v) :: indentedMembers level r

end

/-- The indented text as a string. -/
def indented (v : Json) : String := String.ofList (indentedChars 0 v)

end LockAudit.Json
