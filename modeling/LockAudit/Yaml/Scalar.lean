import LockAudit.Yaml.Cursor

/-!
# `LockAudit.Yaml.Scalar` — the ways to write a text

A text is written plain, between quotes, or as a block of lines. Plain and quoted texts may go over
several lines: a single line break becomes a space and more of them become one fewer (`fold`). A
block keeps its lines, or folds those that do not begin with a space.

Every function gives the text and the place after it.

## Contents
- **Plain texts.** `plain`.
- **Quoted texts.** `quoted`, with `escape` for the escapes between double quotes.
- **Blocks.** `block`.
-/

namespace LockAudit.Yaml

/-- What a line break and the blank lines after it become in a folded text. -/
def fold (first : Char) (breaks : List Char) : List Char :=
  if first ≠ '\n' then first :: breaks else if breaks.isEmpty then [' '] else breaks

/-! ## Plain texts -/

/-- Whether a plain text ends before a character. The character after it decides on a colon. -/
def endsPlain (inFlow : Bool) (x : Char) (after : Option Char) : Bool :=
  endsWord (some x)
    || (x == ':' && (endsWord after || (inFlow && after.any fun y => ",[]\x7b\x7d".toList.contains y)))
    || (inFlow && ",?[]\x7b\x7d".toList.contains x)

/-- The part of a plain text up to the next gap. -/
def plainRun (inFlow : Bool) : List Char → List Char
  | [] => []
  | x :: r => if endsPlain inFlow x r.head? then [] else x :: plainRun inFlow r

/-- The line breaks of blank lines. They end where a document begins or ends. -/
def blankLines : Nat → Cursor → List Char × Cursor
  | 0, c => ([], c)
  | n + 1, c =>
    let c := c.skip (· == ' ')
    match c.lineBreak? with
    | none => ([], c)
    | some (b, c) =>
      if c.atMarker then ([b], c)
      else let (bs, c) := blankLines n c; (b :: bs, c)

/-- What stands between two parts of a plain text, nothing if the text is over; and whether a line
    ended there. -/
def plainGap (c : Cursor) : List Char × Bool × Cursor :=
  let (spaces, c) := c.span (· == ' ')
  match c.lineBreak? with
  | none => (spaces, false, c)
  | some (b, c) =>
    if c.atMarker then ([], true, c)
    else
      let (bs, c) := blankLines c.rest.length c
      if c.atMarker then ([], true, c) else (fold b bs, true, c)

/-- A plain text whose lines after the first stand at a column or to the right of it. It is given
    with whether a line ended after it. The bound is the number of characters. -/
def plainFrom (inFlow : Bool) (margin : Nat) :
    Nat → List Char → Bool → Cursor → List Char × Bool × Cursor
  | 0, _, broke, c => ([], broke, c)
  | n + 1, gap, broke, c =>
    let run := if c.peek = some '#' then [] else plainRun inFlow c.rest
    if run.isEmpty then ([], broke, c)
    else
      let (next, broke, d) := plainGap (c.advance run.length)
      if next.isEmpty || d.peek = some '#' || (!inFlow && d.column < margin) then
        (gap ++ run, broke, d)
      else
        let (more, broke, e) := plainFrom inFlow margin n next broke d
        (gap ++ run ++ more, broke, e)

/-- A plain text. -/
def plain (inFlow : Bool) (margin : Nat) (c : Cursor) : List Char × Bool × Cursor :=
  plainFrom inFlow margin c.rest.length [] false c

/-! ## Quoted texts -/

/-- The characters that have an escape of one letter. -/
def escapes : List (Char × Char) :=
  [('0', '\x00'), ('a', '\x07'), ('b', '\x08'), ('t', '\t'), ('\t', '\t'), ('n', '\n'),
    ('v', '\x0b'), ('f', '\x0c'), ('r', '\r'), ('e', '\x1b'), (' ', ' '), ('"', '"'),
    ('\\', '\\'), ('/', '/'), ('N', '\x85'), ('_', '\xa0'), ('L', '\u2028'), ('P', '\u2029')]

/-- How many hexadecimal digits follow the letter of an escape. -/
def escapeDigits (c : Char) : Option Nat :=
  if c = 'x' then some 2 else if c = 'u' then some 4 else if c = 'U' then some 8 else none

/-- The number that hexadecimal digits denote. -/
def hexNumber? : List Char → Option Nat
  | [] => some 0
  | ds => ds.foldl (fun n d => do pure (16 * (← n) + (← Text.hexValue? d))) (some 0)

/-- The character with a code of some hexadecimal digits. -/
def coded (digits : Nat) (c : Cursor) : Except Fault (Char × Cursor) :=
  let ds := c.rest.take digits
  match hexNumber? ds with
  | none => .error .escape
  | some n =>
    if ds.length = digits ∧ n.isValidChar then .ok (Char.ofNat n, c.advance digits)
    else .error .escape

/-- The blank lines between two lines of a quoted text. No document may begin or end there. -/
def quotedBreaks : Nat → Cursor → Except Fault (List Char × Cursor)
  | 0, c => .ok ([], c)
  | n + 1, c =>
    if c.atMarker then .error .unfinished
    else
      let c := c.skip isGap
      match c.lineBreak? with
      | none => .ok ([], c)
      | some (b, c) => do
        let (bs, c) ← quotedBreaks n c
        pure (b :: bs, c)

/-- What an escape stands for; a line break after the backslash joins two lines. -/
def escape (c : Cursor) : Except Fault (List Char × Cursor) :=
  match c.peek with
  | none => .error .escape
  | some x =>
    match escapes.lookup x, escapeDigits x with
    | some y, _ => .ok ([y], c.next)
    | none, some digits => do
      let (y, c) ← coded digits c.next
      pure ([y], c)
    | none, none =>
      match c.lineBreak? with
      | some (_, c) => quotedBreaks (c.rest.length + 1) c
      | none => .error .escape

/-- A character of a quoted text that needs no attention. -/
def isQuotedChar (x : Char) : Bool :=
  !(x == '\'' || x == '"' || x == '\\' || isGap x || isBreak x)

/-- The part of a quoted text up to the next gap or up to its end. -/
def quotedRun (double : Bool) : Nat → Cursor → Except Fault (List Char × Cursor)
  | 0, c => .ok ([], c)
  | n + 1, c =>
    let (run, c) := c.span isQuotedChar
    let more (s : List Char) (c : Cursor) : Except Fault (List Char × Cursor) := do
      let (t, c) ← quotedRun double n c
      pure (run ++ s ++ t, c)
    match c.peek with
    | some '\'' =>
      if double then more ['\''] c.next
      else if c.second = some '\'' then more ['\''] (c.advance 2)
      else .ok (run, c)
    | some '"' => if double then .ok (run, c) else more ['"'] c.next
    | some '\\' =>
      if double then do
        let (s, c) ← escape c.next
        more s c
      else more ['\\'] c.next
    | _ => .ok (run, c)

/-- What stands between two parts of a quoted text. -/
def quotedGap (c : Cursor) : Except Fault (List Char × Cursor) :=
  let (spaces, c) := c.span isGap
  match c.peek, c.lineBreak? with
  | none, _ => .error .unfinished
  | some _, none => .ok (spaces, c)
  | some _, some (b, c) => do
    let (bs, c) ← quotedBreaks (c.rest.length + 1) c
    pure (fold b bs, c)

/-- A quoted text from behind its opening quote. -/
def quotedFrom (double : Bool) : Nat → Cursor → Except Fault (List Char × Cursor)
  | 0, _ => .error .unfinished
  | n + 1, c => do
    let (run, c) ← quotedRun double (c.rest.length + 1) c
    if c.peek = some (if double then '"' else '\'') then pure (run, c.next)
    else
      let (gap, c) ← quotedGap c
      let (more, c) ← quotedFrom double n c
      pure (run ++ gap ++ more, c)

/-- A quoted text. -/
def quoted (double : Bool) (c : Cursor) : Except Fault (List Char × Cursor) :=
  quotedFrom double (c.rest.length + 1) c.next

/-! ## Blocks -/

/-- What becomes of the line breaks at the end of a block. -/
inductive Chomping
  | strip
  | clip
  | keep
  deriving DecidableEq, Repr

/-- The sign for it. -/
def Chomping.ofChar? (c : Option Char) : Option Chomping :=
  if c = some '+' then some .keep else if c = some '-' then some .strip else none

/-- How far a block is indented, as its header says. -/
def indentOf (c : Option Char) : Except Fault (Option Nat) :=
  match c with
  | none => .ok none
  | some x =>
    if x = '0' then .error .misplaced
    else .ok (if Text.isAsciiDigit x then Text.digitValue? x else none)

/-- The header of a block: its chomping and its indent, in either order. -/
def blockHeader (c : Cursor) : Except Fault (Chomping × Option Nat × Cursor) :=
  match Chomping.ofChar? c.peek with
  | some chomping => do
    let c := c.next
    match ← indentOf c.peek with
    | some n => pure (chomping, some n, c.next)
    | none => pure (chomping, none, c)
  | none => do
    match ← indentOf c.peek with
    | none => pure (.clip, none, c)
    | some n =>
      let c := c.next
      match Chomping.ofChar? c.peek with
      | some chomping => pure (chomping, some n, c.next)
      | none => pure (.clip, some n, c)

/-- Spaces up to a column. -/
def skipIndent (column : Nat) : Nat → Cursor → Cursor
  | 0, c => c
  | n + 1, c => if c.column < column ∧ c.peek = some ' ' then skipIndent column n c.next else c

/-- The blank lines before a line of a block. -/
def blockBreaks (column : Nat) : Nat → Cursor → List Char × Cursor
  | 0, c => ([], c)
  | n + 1, c =>
    let c := skipIndent column column c
    match c.lineBreak? with
    | none => ([], c)
    | some (b, c) => let (bs, c) := blockBreaks column n c; (b :: bs, c)

/-- The blank lines at the start of a block, with the column of the longest of them or of the first
    line with a text. -/
def blockStart : Nat → Nat → Cursor → List Char × Nat × Cursor
  | 0, column, c => ([], column, c)
  | n + 1, column, c =>
    let c := c.skip (· == ' ')
    let column := max column c.column
    match c.lineBreak? with
    | none => ([], column, c)
    | some (b, c) => let (bs, column, c) := blockStart n column c; (b :: bs, column, c)

/-- Whether a line is folded with its neighbor: it does not begin with a gap. -/
def isFoldable (c : Cursor) : Bool := !c.peek.any isGap

/-- The lines of a block at a column, from the line breaks before the first one. The last line break
    and those after it are given apart. -/
def blockLines (folded : Bool) (column : Nat) :
    Nat → List Char → Cursor → List Char × List Char × List Char × Cursor
  | 0, breaks, c => ([], [], breaks, c)
  | n + 1, breaks, c =>
    let (line, d) := c.span isInline
    let (last, d) := match d.lineBreak? with
      | some (b, d) => ([b], d)
      | none => ([], d)
    let (after, e) := blockBreaks column (d.rest.length + 1) d
    if e.column = column ∧ e.peek.isSome then
      let joint :=
        if folded && last == ['\n'] && isFoldable c && isFoldable e then
          (if after.isEmpty then [' '] else [])
        else last
      let (more, ending) := blockLines folded column n after e
      (breaks ++ line ++ joint ++ more, ending)
    else (breaks ++ line, last, after, e)

/-- A block, whose lines stand to the right of a margin. -/
def block (folded : Bool) (margin : Nat) (c : Cursor) : Except Fault (List Char × Cursor) := do
  let (chomping, indent, c) ← blockHeader c.next
  if !endsStrictly c.peek then throw .misplaced
  let c ← c.restOfLine .misplaced
  let least := max margin 1
  let (breaks, column, c) := match indent with
    | some n =>
      let column := least + n - 1
      let (bs, d) := blockBreaks column (c.rest.length + 1) c
      (bs, column, d)
    | none =>
      let (bs, column, d) := blockStart (c.rest.length + 1) 0 c
      (bs, max least column, d)
  let (body, last, after, c) :=
    if c.column = column ∧ c.peek.isSome then
      blockLines folded column (c.rest.length + 1) breaks c
    else ([], [], breaks, c)
  let ending := match chomping with
    | .strip => []
    | .clip => last
    | .keep => last ++ after
  pure (body ++ ending, c)

end LockAudit.Yaml
