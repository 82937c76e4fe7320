import LockAudit.Decimal
import LockAudit.Text.Digit

/-!
# `LockAudit.Shell.Format` — texts with escapes and formats

Escapes begin with a backslash. A format has conversions, which begin with a percent sign and take
arguments; it is used again as long as there are arguments. Characters stand for bytes.

## Contents
- **Escapes.** `escape` and `unescape`.
- **Formats.** `Conversion`, `convert`, `format`.
-/

namespace LockAudit.Shell.Format

/-! ## Escapes -/

/-- An octal digit. -/
def isOctal (c : Char) : Bool := '0' ≤ c && c ≤ '7'

/-- The byte of octal digits. -/
def octal (ds : List Char) : Char :=
  Char.ofNat (ds.foldl (fun n c => 8 * n + (c.toNat - 48)) 0 % 256)

/-- The escapes of one letter. -/
def letters : List (Char × Char) :=
  [('\\', '\\'), ('a', '\x07'), ('b', '\x08'), ('f', '\x0c'), ('n', '\n'), ('r', '\r'), ('t', '\t'),
    ('v', '\x0b')]

/-- What stands behind a backslash: the character, and what follows the escape. An escape that is not
    known leaves the backslash. -/
def escape (s : List Char) : Char × List Char :=
  match s with
  | [] => ('\\', [])
  | c :: r =>
    let ds := (s.take 3).takeWhile isOctal
    if !ds.isEmpty then (octal ds, s.drop ds.length)
    else match letters.lookup c with
      | some d => (d, r)
      | none => ('\\', s)

/-- Replaces the escapes of a text, and says whether the text ended all output. An octal number may
    have a zero in front of its three digits. -/
def unescape : Nat → List Char → List Char × Bool
  | 0, _ => ([], false)
  | _, [] => ([], false)
  | n + 1, '\\' :: r =>
    match r with
    | 'c' :: _ => ([], true)
    | '0' :: t =>
      let ds := (t.take 3).takeWhile isOctal
      let (more, cut) := unescape n (t.drop ds.length)
      (octal ds :: more, cut)
    | _ =>
      let (c, t) := escape r
      let (more, cut) := unescape n t
      (c :: more, cut)
  | n + 1, c :: r =>
    let (more, cut) := unescape n r
    (c :: more, cut)

/-! ## Formats -/

/-- A conversion. -/
structure Conversion where
  /-- Fills up on the right. -/
  isLeft : Bool
  /-- Fills up with zeros. -/
  hasZeros : Bool
  width : Nat
  precision : Option Nat
  letter : Char
  deriving DecidableEq, Repr

/-- The value of a row of digits. -/
def count (ds : List Char) : Nat := ds.foldl (fun n c => 10 * n + (c.toNat - 48)) 0

/-- Reads a conversion from behind the percent sign. -/
def conversion? (s : List Char) : Option (Conversion × List Char) :=
  let isFlag (c : Char) : Bool := "-0+ #".toList.contains c
  let flags := s.takeWhile isFlag
  let r := s.dropWhile isFlag
  let width := r.takeWhile Text.isAsciiDigit
  let r := r.dropWhile Text.isAsciiDigit
  let (precision, r) := match r with
    | '.' :: t => (some (count (t.takeWhile Text.isAsciiDigit)), t.dropWhile Text.isAsciiDigit)
    | _ => (none, r)
  match r with
  | [] => none
  | c :: r => some (⟨flags.contains '-', flags.contains '0', count width, precision, c⟩, r)

/-- Fills a text up to the width of a conversion. -/
def Conversion.pad (v : Conversion) (s : List Char) : List Char :=
  let fill := v.width - s.length
  if v.isLeft then s ++ List.replicate fill ' '
  else List.replicate fill ' ' ++ s

/-- The text of a number, with at least as many digits as the conversion asks for. -/
def Conversion.number (v : Conversion) (base : Nat) (upper : Bool) (n : Int) : List Char :=
  let ds := Nat.toDigits base n.natAbs
  let ds := if upper then ds.map Char.toUpper else ds
  let sign := if n < 0 then ['-'] else []
  let least := match v.precision with
    | some p => p
    | none => if v.hasZeros && !v.isLeft then v.width - sign.length else 0
  v.pad (sign ++ List.replicate (least - ds.length) '0' ++ ds)

/-- The number that an argument denotes; a quote in front takes the code of a character. Nothing is
    zero. -/
def argument? (s : List Char) : Option Int :=
  match s with
  | [] => some 0
  | '\'' :: c :: _ => some c.toNat
  | '"' :: c :: _ => some c.toNat
  | '-' :: r => if !r.isEmpty && r.all Text.isAsciiDigit then some (-(count r : Int)) else none
  | '+' :: r => if !r.isEmpty && r.all Text.isAsciiDigit then some (count r) else none
  | _ => if s.all Text.isAsciiDigit then some (count s) else none

/-- What a format has come to. -/
structure Written where
  text : List Char
  /-- Arguments that are no numbers where one is wanted. -/
  defects : List (List Char)
  /-- Whether an argument ended all output. -/
  isOver : Bool
  /-- A conversion that is not known. -/
  unknown : Option (List Char)
  rest : List (List Char)

/-- The unsigned number of sixty-four bits. -/
def unsigned (n : Int) : Int := n % twoTo 64

/-- Uses a format once. -/
def once : Nat → List Char → List (List Char) → Written
  | 0, _, args => ⟨[], [], false, none, args⟩
  | _, [], args => ⟨[], [], false, none, args⟩
  | n + 1, '\\' :: r, args =>
    let (c, t) := escape r
    let w := once n t args
    { w with text := c :: w.text }
  | n + 1, '%' :: r, args =>
    match r with
    | '%' :: t =>
      let w := once n t args
      { w with text := '%' :: w.text }
    | _ =>
      match conversion? r with
      | none => ⟨[], [], true, some [], args⟩
      | some (v, t) =>
        let a := args.headD []
        let args := args.tail
        let text (s : List Char) : Written :=
          let w := once n t args
          { w with text := v.pad s ++ w.text }
        let number (base : Nat) (upper : Bool) (f : Int → Int) : Written :=
          let w := once n t args
          match argument? a with
          | some k => { w with text := v.number base upper (f k) ++ w.text }
          | none => { w with text := v.number base upper 0 ++ w.text, defects := a :: w.defects }
        match v.letter with
        | 's' => text (match v.precision with
            | some p => a.take p
            | none => a)
        | 'c' => text (a.take 1)
        | 'b' =>
          let (s, cut) := unescape (a.length + 1) a
          if cut then ⟨v.pad s, [], true, none, []⟩ else text s
        | 'd' => number 10 false id
        | 'i' => number 10 false id
        | 'u' => number 10 false unsigned
        | 'o' => number 8 false unsigned
        | 'x' => number 16 false unsigned
        | 'X' => number 16 true unsigned
        | _ => ⟨[], [], true, some ('%' :: r), args⟩
  | n + 1, c :: r, args =>
    let w := once n r args
    { w with text := c :: w.text }

/-- Uses a format until no argument is left. A format that takes none is used once. -/
def repeated (s : List Char) : Nat → List (List Char) → Written
  | 0, args => ⟨[], [], false, none, args⟩
  | n + 1, args =>
    let w := once (s.length + 1) s args
    if w.isOver || w.rest.isEmpty || w.rest.length = args.length then w
    else
      let more := repeated s n w.rest
      { more with text := w.text ++ more.text, defects := w.defects ++ more.defects }

/-- The text of a format with arguments. -/
def format (s : List Char) (args : List (List Char)) : Written := repeated s (args.length + 1) args

end LockAudit.Shell.Format
