import LockAudit.Json.Value
import LockAudit.Numeral

/-!
# `LockAudit.Json.Reader` — reading JSON texts

The reader takes a text from the front. Each step returns what it read and what is left, and a
fault names its place by the number of characters left there (`Fault.malformed`), so no step counts
positions; `Json.parse` turns the place into an offset, a line and a column.

The grammar is that of JSON with three more numbers, `NaN`, `Infinity` and `-Infinity`. Of members
with one name the last wins. An integer whose numeral is too long is a fault of its own
(`Fault.numeral`): the text is JSON, the number is refused.

## Contents
- **Faults.** `Expected`, `Fault`, and the error with a position, `ReadError`.
- **Tokens.** `blanks`, `number`, `string`.
- **Values.** `value`, `members`, `items`, by recursion on a bound that the text's length provides.
-/

namespace LockAudit.Json

open LockAudit.Text

/-! ## Faults -/

/-- What the reader wanted or found wrong at a place. -/
inductive Expected
  | value
  | comma
  | colon
  | propertyName
  | nothingMore
  | closingQuote
  | printable
  | escape
  | unicodeEscape
  | noByteOrderMark
  deriving DecidableEq, Repr

/-- The words for it. -/
def Expected.message : Expected → String
  | .value => "Expecting value"
  | .comma => "Expecting ',' delimiter"
  | .colon => "Expecting ':' delimiter"
  | .propertyName => "Expecting property name enclosed in double quotes"
  | .nothingMore => "Extra data"
  | .closingQuote => "Unterminated string starting at"
  | .printable => "Invalid control character at"
  | .escape => "Invalid \\escape"
  | .unicodeEscape => "Invalid \\uXXXX escape"
  | .noByteOrderMark => "Unexpected UTF-8 BOM (decode using utf-8-sig)"

/-- Why reading stopped, with the number of characters left at the place. -/
inductive Fault
  | malformed (what : Expected) (left : Nat)
  | numeral (refusal : Numeral.Refusal)
  deriving DecidableEq, Repr

/-- A step of the reader: what it read and what is left. -/
abbrev Step (α : Type) := Except Fault (α × List Char)

/-! ## Tokens -/

/-- The four characters that may stand between tokens. -/
def isSpace (c : Char) : Bool := c == ' ' || c == '\t' || c == '\n' || c == '\r'

/-- The text without the spaces at its front. -/
def blanks (s : List Char) : List Char := s.dropWhile isSpace

/-- An exponent at the front of a text: its sign, its digits, and what follows. No digit, no
    exponent. -/
def exponent? (s : List Char) : Option (Int × List Char) :=
  let scan (negative : Bool) (r : List Char) : Option (Int × List Char) :=
    match Numeral.spanDigits isAsciiDigit r with
    | ([], _) => none
    | (ds, t) => some ((if negative then -1 else 1) * (Numeral.value ds : Int), t)
  match s with
  | e :: r =>
    if e = 'e' ∨ e = 'E' then
      match r with
      | '-' :: t => scan true t
      | '+' :: t => scan false t
      | t => scan false t
    else none
  | [] => none

/-- The digits after a point at the front of a text. A point without a digit is not taken. -/
def places (s : List Char) : List Char × List Char :=
  match s with
  | '.' :: r =>
    match Numeral.spanDigits isAsciiDigit r with
    | ([], _) => ([], s)
    | (ds, t) => (ds, t)
  | _ => ([], s)

/-- The integer digits at the front of a text: a zero alone, or digits that start with another. -/
def wholeDigits (s : List Char) : List Char × List Char :=
  match s with
  | '0' :: r => (['0'], r)
  | _ => Numeral.spanDigits isAsciiDigit s

/-- A number at the front of a text. It is a binary64 value as soon as it has places or an
    exponent. -/
def number (s : List Char) : Step Json :=
  let (negative, r) := match s with
    | '-' :: r => (true, r)
    | r => (false, r)
  match wholeDigits r with
  | ([], _) => .error (.malformed .value s.length)
  | (whole, r) =>
    let (ds, r') := places r
    match ds, exponent? r' with
    | [], none =>
      match Numeral.read whole with
      | .ok n => .ok (.num (.int (if negative then -(n : Int) else n)), r)
      | .error e => .error (.numeral e)
    | ds, none =>
      .ok (.num (.float (Binary64.ofDecimal negative (Numeral.value (whole ++ ds)) (-ds.length))), r')
    | ds, some (e, t) =>
      .ok (.num (.float
        (Binary64.ofDecimal negative (Numeral.value (whole ++ ds)) (e - ds.length))), t)

/-- The character that a one-letter escape stands for. -/
def escaped? : Char → Option Char
  | '"' => some '"'
  | '\\' => some '\\'
  | '/' => some '/'
  | 'b' => some '\x08'
  | 'f' => some '\x0c'
  | 'n' => some '\n'
  | 'r' => some '\r'
  | 't' => some '\t'
  | _ => none

/-- The code unit that four hexadecimal digits denote. -/
def unit? (a b c d : Char) : Option Nat :=
  match hexValue? a, hexValue? b, hexValue? c, hexValue? d with
  | some a, some b, some c, some d => some (((a * 16 + b) * 16 + c) * 16 + d)
  | _, _, _, _ => none

/-- A first half of a surrogate pair. -/
def isHighSurrogate (u : Nat) : Bool := 0xd800 ≤ u && u ≤ 0xdbff

/-- A second half of a surrogate pair. -/
def isLowSurrogate (u : Nat) : Bool := 0xdc00 ≤ u && u ≤ 0xdfff

/-- The character of a surrogate pair. -/
def joinSurrogates (high low : Nat) : Char :=
  Char.ofNat (0x10000 + (high - 0xd800) * 0x400 + (low - 0xdc00))

/-- The character of a code unit that stands alone. Half a surrogate pair is none, and becomes the
    replacement character: texts here hold characters only, so this is a limit of the model, which
    cannot keep it as a code point. -/
def unitChar (u : Nat) : Char :=
  if isHighSurrogate u || isLowSurrogate u then '\ufffd' else Char.ofNat u

/-- Puts a character in front of a string that was read. -/
def consChar (c : Char) : Step (List Char) → Step (List Char)
  | .ok (s, r) => .ok (c :: s, r)
  | .error e => .error e

/-- The rest of a string after its opening quote, where `left` characters remained before that
    quote. A Unicode escape needs a character after its four digits; two of them in a row that form
    a surrogate pair are one character. -/
def string (left : Nat) : List Char → Step (List Char)
  | [] => .error (.malformed .closingQuote left)
  | '"' :: r => .ok ([], r)
  | ['\\'] => .error (.malformed .closingQuote left)
  | '\\' :: 'u' :: a :: b :: c :: d :: x :: r =>
    match unit? a b c d with
    | none => .error (.malformed .unicodeEscape (r.length + 6))
    | some u =>
      match x, r with
      | '\\', 'u' :: a' :: b' :: c' :: d' :: y :: t =>
        if isHighSurrogate u then
          match unit? a' b' c' d' with
          | none => .error (.malformed .unicodeEscape (t.length + 6))
          | some v =>
            if isLowSurrogate v then consChar (joinSurrogates u v) (string left (y :: t))
            else consChar (unitChar u) (string left ('\\' :: 'u' :: a' :: b' :: c' :: d' :: y :: t))
        else consChar (unitChar u) (string left ('\\' :: 'u' :: a' :: b' :: c' :: d' :: y :: t))
      | x, r => consChar (unitChar u) (string left (x :: r))
  | '\\' :: 'u' :: r => .error (.malformed .unicodeEscape (r.length + 1))
  | '\\' :: c :: r =>
    match escaped? c with
    | some e => consChar e (string left r)
    | none => .error (.malformed .escape (r.length + 2))
  | c :: r =>
    if c.toNat < 0x20 then .error (.malformed .printable (r.length + 1))
    else consChar c (string left r)
termination_by s => s.length

/-! ## Values -/

mutual

/-- A value at the front of a text. -/
def value : Nat → List Char → Step Json
  | 0, s => .error (.malformed .value s.length)
  | n + 1, s =>
    match s with
    | '"' :: r =>
      match string s.length r with
      | .ok (cs, t) => .ok (.str (String.ofList cs), t)
      | .error e => .error e
    | '{' :: r =>
      match blanks r with
      | '}' :: t => .ok (.obj [], t)
      | t => match members n t with
        | .ok (ms, t) => .ok (.obj (Pairs.ofList ms), t)
        | .error e => .error e
    | '[' :: r =>
      match blanks r with
      | ']' :: t => .ok (.arr [], t)
      | t => match items n t with
        | .ok (vs, t) => .ok (.arr vs, t)
        | .error e => .error e
    | 'n' :: 'u' :: 'l' :: 'l' :: r => .ok (.null, r)
    | 't' :: 'r' :: 'u' :: 'e' :: r => .ok (.bool true, r)
    | 'f' :: 'a' :: 'l' :: 's' :: 'e' :: r => .ok (.bool false, r)
    | 'N' :: 'a' :: 'N' :: r => .ok (.num (.float Binary64.nan), r)
    | 'I' :: 'n' :: 'f' :: 'i' :: 'n' :: 'i' :: 't' :: 'y' :: r =>
      .ok (.num (.float (Binary64.infinity false)), r)
    | '-' :: 'I' :: 'n' :: 'f' :: 'i' :: 'n' :: 'i' :: 't' :: 'y' :: r =>
      .ok (.num (.float (Binary64.infinity true)), r)
    | s => number s

/-- The members of an object from a name on, with the closing brace. -/
def members : Nat → List Char → Step (List (String × Json))
  | 0, s => .error (.malformed .propertyName s.length)
  | n + 1, s =>
    match s with
    | '"' :: r =>
      match string s.length r with
      | .error e => .error e
      | .ok (name, t) =>
        match blanks t with
        | ':' :: t =>
          match value n (blanks t) with
          | .error e => .error e
          | .ok (v, t) =>
            match blanks t with
            | '}' :: t => .ok ([(String.ofList name, v)], t)
            | ',' :: t =>
              match members n (blanks t) with
              | .ok (ms, t) => .ok ((String.ofList name, v) :: ms, t)
              | .error e => .error e
            | t => .error (.malformed .comma t.length)
        | t => .error (.malformed .colon t.length)
    | s => .error (.malformed .propertyName s.length)

/-- The items of an array from a value on, with the closing bracket. -/
def items : Nat → List Char → Step (List Json)
  | 0, s => .error (.malformed .value s.length)
  | n + 1, s =>
    match value n s with
    | .error e => .error e
    | .ok (v, t) =>
      match blanks t with
      | ']' :: t => .ok ([v], t)
      | ',' :: t =>
        match items n (blanks t) with
        | .ok (vs, t) => .ok (v :: vs, t)
        | .error e => .error e
      | t => .error (.malformed .comma t.length)

end

/-- A whole text: one value with spaces around it. Two steps of `value` take at least one character,
    so the bound is never met. -/
def whole (s : List Char) : Except Fault Json :=
  match value (2 * s.length + 1) (blanks s) with
  | .error e => .error e
  | .ok (v, t) =>
    match blanks t with
    | [] => .ok v
    | t => .error (.malformed .nothingMore t.length)

/-! ## Places -/

/-- A place in a text: lines and columns from one, the offset from zero. -/
structure Place where
  line : Nat
  column : Nat
  offset : Nat
  deriving DecidableEq, Repr

/-- The place at which `left` characters remain. Lines end at line feeds alone. -/
def Place.ofLeft (s : List Char) (left : Nat) : Place :=
  let before := s.take (s.length - left)
  ⟨before.count '\n' + 1, (before.reverse.takeWhile (· ≠ '\n')).length + 1, before.length⟩

/-- Why a text was not read. -/
inductive ReadError
  | malformed (what : Expected) (place : Place)
  | numeral (refusal : Numeral.Refusal)
  deriving DecidableEq, Repr

/-- The words for it. -/
def ReadError.message : ReadError → String
  | .malformed what p =>
    what.message ++ ": line " ++ Nat.repr p.line ++ " column " ++ Nat.repr p.column
      ++ " (char " ++ Nat.repr p.offset ++ ")"
  | .numeral r => r.message

/-- A fault with its place in the text. -/
def Fault.locate (s : List Char) : Fault → ReadError
  | .malformed what left => .malformed what (Place.ofLeft s left)
  | .numeral r => .numeral r

/-- Reads characters that were decoded with their byte order mark taken off. -/
def parseChars (s : List Char) : Except ReadError Json :=
  match whole s with
  | .ok v => .ok v
  | .error e => .error (e.locate s)

/-- Reads a text. A byte order mark at its front is refused. -/
def parse (text : String) : Except ReadError Json :=
  match text.toList with
  | '\ufeff' :: r => .error ((Fault.malformed .noByteOrderMark (r.length + 1)).locate ('\ufeff' :: r))
  | s => parseChars s

end LockAudit.Json
