import LockAudit.Yaml.Property
import LockAudit.Yaml.Scalar

/-!
# `LockAudit.Yaml.Token` — the tokens of a YAML text

A text is read from left to right into tokens. In a block the columns tell where collections begin
and end, and tokens stand for that too. Whether something is the key of a mapping is known only at
the colon behind it, so every place where a key could begin is remembered (`Candidate`), one for the
block and one for each open bracket, and the token for the key is put there when the colon comes.

## Contents
- **`Token`**.
- **`Lexer`**, what is known at a place, and `Lexer.step`, which reads a token.
- **`tokens`**, all the tokens of a text.
-/

namespace LockAudit.Yaml

/-- A token. -/
inductive Token
  | directive (d : Directive)
  | documentStart
  | documentEnd
  | blockSequence
  | blockMapping
  | blockEnd
  | flowSequence
  | flowSequenceEnd
  | flowMapping
  | flowMappingEnd
  | blockEntry
  | flowEntry
  | key
  | value
  | alias (name : String)
  | anchor (name : String)
  | tag (t : TagText)
  | scalar (text : String) (isPlain : Bool)
  deriving DecidableEq, Repr

/-- A place where a key may have begun. -/
structure Candidate where
  /-- The tokens before it. -/
  place : Nat
  /-- Whether it must be a key. -/
  required : Bool
  index : Nat
  line : Nat
  column : Nat
  deriving DecidableEq, Repr

/-- The most characters that a key may have, up to its colon, to be known as one. -/
def Candidate.reach : Nat := 1024

/-- What is known at a place of the text. -/
structure Lexer where
  cursor : Cursor
  /-- The tokens so far, the latest first. -/
  done : List Token
  /-- The columns of the open block collections, the innermost first. -/
  columns : List Nat
  /-- Whether a key may begin here. -/
  mayBeKey : Bool
  /-- The candidate of the innermost open bracket, those of the brackets around it, and last the one
      of the block. -/
  candidates : List (Option Candidate)

namespace Lexer

/-- The start of a text. -/
def ofText (s : List Char) : Lexer := ⟨.ofText s, [], [], true, [none]⟩

/-- Whether the place is between brackets. -/
def inFlow (l : Lexer) : Bool := 1 < l.candidates.length

/-- The least column at which what belongs to the innermost block collection may stand. -/
def margin (l : Lexer) : Nat :=
  match l.columns with
  | [] => 0
  | c :: _ => c + 1

/-- Adds a token. -/
def push (t : Token) (l : Lexer) : Lexer := { l with done := t :: l.done }

/-- Moves to another place. -/
def goto (c : Cursor) (l : Lexer) : Lexer := { l with cursor := c }

/-- Says whether a key may begin here. -/
def allow (b : Bool) (l : Lexer) : Lexer := { l with mayBeKey := b }

/-- Adds a token of some characters. -/
def take (characters : Nat) (t : Token) (l : Lexer) : Lexer :=
  (l.push t).goto (l.cursor.advance characters)

/-- Puts a token behind the first ones. -/
def insert (place : Nat) (t : Token) (l : Lexer) : Lexer :=
  let (late, early) := l.done.splitAt (l.done.length - place)
  { l with done := late ++ t :: early }

/-! ## Candidates -/

/-- Drops the candidates that have been left behind, by a line or by their reach. -/
def dropStale (l : Lexer) : Except Fault Lexer := do
  let fresh ← l.candidates.mapM fun k =>
    match k with
    | none => pure none
    | some k =>
      if k.line = l.cursor.line ∧ l.cursor.index - k.index ≤ Candidate.reach then pure (some k)
      else if k.required then throw Fault.unfinished
      else pure none
  pure { l with candidates := fresh }

/-- Drops the candidate of the innermost bracket. -/
def dropCandidate (l : Lexer) : Except Fault Lexer :=
  match l.candidates with
  | some k :: r =>
    if k.required then .error .unfinished else .ok { l with candidates := none :: r }
  | _ => .ok l

/-- Remembers the place, if a key may begin here. -/
def saveCandidate (l : Lexer) : Except Fault Lexer := do
  if !l.mayBeKey then return l
  let l ← l.dropCandidate
  let c := l.cursor
  let required := !l.inFlow && l.columns.head? == some c.column
  let k : Candidate := ⟨l.done.length, required, c.index, c.line, c.column⟩
  pure { l with candidates := some k :: l.candidates.tail }

/-! ## Columns -/

/-- Closes the block collections to the right of a margin. -/
def closeFrom (margin : Nat) (l : Lexer) : Lexer :=
  if l.inFlow then l
  else
    let closed := l.columns.takeWhile (margin ≤ ·)
    { l with done := List.replicate closed.length .blockEnd ++ l.done
             columns := l.columns.drop closed.length }

/-- Whether a collection at a column would be a new one. -/
def opensAt (column : Nat) (l : Lexer) : Bool := l.columns.head?.all (· < column)

/-- Opens a block collection at the place, unless it is open already. -/
def openHere (t : Token) (l : Lexer) : Lexer :=
  if l.opensAt l.cursor.column then
    { l with done := t :: l.done, columns := l.cursor.column :: l.columns }
  else l

/-! ## Steps -/

/-- Spaces, comments and line breaks. -/
def skipBlank : Nat → Lexer → Lexer
  | 0, l => l
  | n + 1, l =>
    let c := l.cursor.skip (· == ' ')
    let c := if c.peek = some '#' then c.skip isInline else c
    match c.lineBreak? with
    | none => l.goto c
    | some (_, c) => skipBlank n ((l.goto c).allow (l.mayBeKey || !l.inFlow))

/-- Leaves all block collections before something that stands at the start of a line. -/
def leave (l : Lexer) : Except Fault Lexer := do
  let l ← (l.closeFrom 0).dropCandidate
  pure (l.allow false)

/-- A bracket that opens. -/
def opening (t : Token) (l : Lexer) : Except Fault Lexer := do
  let l ← l.saveCandidate
  pure (({ l with candidates := none :: l.candidates }.allow true).take 1 t)

/-- A bracket that closes. -/
def closing (t : Token) (l : Lexer) : Except Fault Lexer := do
  if !l.inFlow then throw .misplaced
  pure (({ l with candidates := l.candidates.tail }.allow false).take 1 t)

/-- Something that only stands where a block collection has it or may begin with it. -/
def blockSign (collection t : Token) (l : Lexer) : Except Fault Lexer := do
  if !l.inFlow && !l.mayBeKey then throw .misplaced
  let l := if l.inFlow then l else l.openHere collection
  let l ← l.dropCandidate
  pure (l.take 1 t)

/-- The colon between a key and its value. -/
def colon (l : Lexer) : Except Fault Lexer :=
  match l.candidates with
  | some k :: r =>
    let l := { l with candidates := none :: r }.insert k.place .key
    let l :=
      if !l.inFlow && l.opensAt k.column then
        { l.insert k.place .blockMapping with columns := k.column :: l.columns }
      else l
    .ok ((l.allow false).take 1 .value)
  | _ => do
    let l ← l.blockSign .blockMapping .value
    pure (l.allow (!l.inFlow))

/-- An anchor, an alias, a tag or a quoted text: a node, or the beginning of one. -/
def property {α : Type} (read : Cursor → Except Fault (α × Cursor)) (token : α → Token) (l : Lexer) :
    Except Fault Lexer := do
  let l ← l.saveCandidate
  let (a, c) ← read l.cursor
  pure (((l.allow false).push (token a)).goto c)

/-- The token of a text. -/
def textToken (isPlain : Bool) (s : List Char) : Token := .scalar (String.ofList s) isPlain

/-- A block of lines. -/
def lines (folded : Bool) (l : Lexer) : Except Fault Lexer := do
  let l ← l.dropCandidate
  let (s, c) ← block folded l.margin l.cursor
  pure (((l.allow true).push (textToken false s)).goto c)

/-- A plain text. -/
def plainText (l : Lexer) : Except Fault Lexer := do
  let l ← l.saveCandidate
  let (s, broke, c) := plain l.inFlow l.margin l.cursor
  pure (((l.allow broke).push (textToken true s)).goto c)

/-- Whether a plain text may begin with a character before another one. -/
def beginsPlain (inFlow : Bool) (x : Char) (after : Option Char) : Bool :=
  !(isGap x || isBreak x || "-?:,[]\x7b\x7d#&*!|>'\"%@\x60".toList.contains x)
    || (!endsWord after && (x == '-' || (!inFlow && (x == '?' || x == ':'))))

/-- A mark that begins or ends a document. -/
def marker (t : Token) (l : Lexer) : Except Fault Lexer := do
  let l ← l.leave
  pure (l.take 3 t)

/-- A sign that is alone: in a block it needs a gap behind it. -/
def isAlone (l : Lexer) : Bool := l.inFlow || endsWord l.cursor.second

/-- Reads what begins with a character. -/
def read (x : Char) (l : Lexer) : Except Fault Lexer :=
  let c := l.cursor
  if x = '%' ∧ c.column = 0 then do
    let l ← l.leave
    let (d, c) ← directive c
    pure ((l.push (.directive d)).goto c)
  else if c.atMark ['-', '-', '-'] then l.marker .documentStart
  else if c.atMark ['.', '.', '.'] then l.marker .documentEnd
  else if x = '[' then l.opening .flowSequence
  else if x = '{' then l.opening .flowMapping
  else if x = ']' then l.closing .flowSequenceEnd
  else if x = '}' then l.closing .flowMappingEnd
  else if x = ',' then do
    let l ← l.dropCandidate
    pure ((l.allow true).take 1 .flowEntry)
  else if x = '-' ∧ endsWord c.second then do
    let l ← l.blockSign .blockSequence .blockEntry
    pure (l.allow true)
  else if x = '?' ∧ l.isAlone then do
    let l ← l.blockSign .blockMapping .key
    pure (l.allow (!l.inFlow))
  else if x = ':' ∧ l.isAlone then l.colon
  else if x = '*' then l.property name .alias
  else if x = '&' then l.property name .anchor
  else if x = '!' then l.property tagText .tag
  else if x = '|' ∧ !l.inFlow then l.lines false
  else if x = '>' ∧ !l.inFlow then l.lines true
  else if x = '\'' then l.property (quoted false) (textToken false)
  else if x = '"' then l.property (quoted true) (textToken false)
  else if beginsPlain l.inFlow x c.second then l.plainText
  else .error .misplaced

/-- Reads to the end. The bound is the number of characters. -/
def run : Nat → Lexer → Except Fault Lexer
  | 0, l => .ok l
  | n + 1, l => do
    let l ← (l.skipBlank (l.cursor.rest.length + 1)).dropStale
    let l := l.closeFrom (l.cursor.column + 1)
    match l.cursor.peek with
    | none => l.leave
    | some x => run n (← l.read x)

end Lexer

/-- The tokens of a text. A byte order mark in front is skipped. -/
def tokens (s : List Char) : Except Fault (List Token) := do
  let s := if s.head? = some '\ufeff' then s.tail else s
  let l ← (Lexer.ofText s).run (s.length + 1)
  pure l.done.reverse

end LockAudit.Yaml
