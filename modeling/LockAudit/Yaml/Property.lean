import LockAudit.Numeral
import LockAudit.Text.Decoding
import LockAudit.Yaml.Cursor

/-!
# `LockAudit.Yaml.Property` — names, tags and directives

A node may have an anchor and a tag. A tag is written with a handle, which directives at the head of
a document may give a meaning, or as a whole between angle brackets.

## Contents
- **Names.** `name`, for anchors and aliases.
- **Tags.** `TagText` and `tagText`.
- **Directives.** `Directive` and `directive`.
-/

namespace LockAudit.Yaml

/-! ## Names -/

/-- Whether a name may end before a character. -/
def endsName (x : Option Char) : Bool := endsWord x || x.any fun y => "?:,]\x7d%@\x60".toList.contains y

/-- The name of an anchor, from behind the sign in front of it. -/
def name (c : Cursor) : Except Fault (String × Cursor) :=
  let (ds, d) := c.next.span isNameChar
  if ds.isEmpty || !endsName d.peek then .error .property else .ok (String.ofList ds, d)

/-! ## Tags -/

/-- A tag as it is written. -/
structure TagText where
  /-- The handle, unless the tag is written as a whole. -/
  handle : Option String
  suffix : String
  deriving DecidableEq, Repr

/-- A character of a tag. -/
def isTagChar (c : Char) : Bool := c.isAlphanum || "-;/?:@&=+$,_.!~*'()[]".toList.contains c

/-- The byte of two hexadecimal digits behind a percent sign. -/
def percentByte? (c : Cursor) : Option UInt8 :=
  match c.rest with
  | '%' :: a :: b :: _ => do pure (16 * (← Text.hexValue? a) + (← Text.hexValue? b)).toUInt8
  | _ => none

/-- The bytes of escapes that follow each other. -/
def percentBytes : Nat → Cursor → Except Fault (List UInt8 × Cursor)
  | 0, c => .ok ([], c)
  | n + 1, c =>
    if c.peek ≠ some '%' then .ok ([], c)
    else match percentByte? c with
      | none => .error .property
      | some b => do
        let (bs, c) ← percentBytes n (c.advance 3)
        pure (b :: bs, c)

/-- The characters of a tag, with escapes taken as UTF-8. -/
def tagCharsFrom : Nat → Cursor → Except Fault (List Char × Cursor)
  | 0, c => .ok ([], c)
  | n + 1, c => do
    let (run, c) := c.span isTagChar
    if c.peek ≠ some '%' then return (run, c)
    let (bytes, c) ← percentBytes c.rest.length c
    match Text.decodeUtf8 bytes with
    | .error _ => throw .property
    | .ok s =>
      let (more, c) ← tagCharsFrom n c
      pure (run ++ s ++ more, c)

/-- The characters of a tag, at least one. -/
def tagChars (c : Cursor) : Except Fault (String × Cursor) := do
  let (s, d) ← tagCharsFrom (c.rest.length + 1) c
  if d.index = c.index then throw .property
  pure (String.ofList s, d)

/-- A handle: an exclamation mark, or a name between two of them. -/
def tagHandle (c : Cursor) : Except Fault (String × Cursor) :=
  if c.peek ≠ some '!' then .error .property
  else if c.second = some ' ' then .ok ("!", c.next)
  else
    let (s, d) := c.next.span isNameChar
    if d.peek = some '!' then .ok ("!" ++ String.ofList s ++ "!", d.next) else .error .property

/-- Whether a tag has a second exclamation mark, which makes what is before it its handle. -/
def hasHandle (c : Cursor) : Bool :=
  (c.rest.tail.takeWhile fun x => !endsStrictly (some x)).contains '!'

/-- A tag. -/
def tagText (c : Cursor) : Except Fault (TagText × Cursor) := do
  let (tag, d) ←
    if c.second = some '<' then do
      let (s, d) ← tagChars (c.advance 2)
      if d.peek ≠ some '>' then throw .property
      pure (TagText.mk none s, d.next)
    else if endsWord c.second then pure (TagText.mk none "!", c.next)
    else do
      let (handle, d) ← if hasHandle c then tagHandle c else pure ("!", c.next)
      let (s, d) ← tagChars d
      pure (TagText.mk (some handle) s, d)
  if endsStrictly d.peek then pure (tag, d) else throw .property

/-! ## Directives -/

/-- A directive. -/
inductive Directive
  /-- The version of the language; of its numeral only the part before the point matters. -/
  | version (major : Nat)
  /-- A handle for tags that begin in a certain way. -/
  | tag (handle beginning : String)
  /-- Any other directive, which is ignored. -/
  | other
  deriving DecidableEq, Repr

/-- The digits of a version number. -/
def versionDigits (c : Cursor) : Except Fault (Nat × Cursor) :=
  let (ds, d) := c.span Text.isAsciiDigit
  match ds, Numeral.read ds with
  | [], _ => .error .directive
  | _, .error _ => .error .directive
  | _, .ok n => .ok (n, d)

/-- A directive with the line that it stands on. -/
def directive (c : Cursor) : Except Fault (Directive × Cursor) := do
  let (word, d) := c.next.span isNameChar
  if word.isEmpty || !endsStrictly d.peek then throw .directive
  let (it, d) ←
    if word = "YAML".toList then do
      let (major, d) ← versionDigits (d.skip (· == ' '))
      if d.peek ≠ some '.' then throw .directive
      let (_, d) ← versionDigits d.next
      if !endsStrictly d.peek then throw .directive
      pure (Directive.version major, d)
    else if word = "TAG".toList then do
      let (handle, d) ← tagHandle (d.skip (· == ' '))
      if d.peek ≠ some ' ' then throw .directive
      let (beginning, d) ← tagChars (d.skip (· == ' '))
      if !endsStrictly d.peek then throw .directive
      pure (Directive.tag handle beginning, d)
    else pure (Directive.other, d.skip isInline)
  let d ← d.restOfLine .directive
  pure (it, d)

end LockAudit.Yaml
