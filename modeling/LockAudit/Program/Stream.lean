import LockAudit.Text.Decoding

/-!
# `LockAudit.Program.Stream` — bytes that flow between programs

A stream is some bytes and then, if it does not end, a pattern of bytes for ever. Within the shell,
texts are lists of characters of which each stands for one byte.
-/

namespace LockAudit.Program

/-- Bytes that flow. -/
structure Stream where
  bytes : List UInt8
  /-- What is repeated without end after them; nothing if the stream ends. -/
  pattern : List UInt8
  deriving DecidableEq, Repr

namespace Stream

/-- No bytes. -/
def empty : Stream := ⟨[], []⟩

/-- Bytes that end. -/
def ofBytes (bs : List UInt8) : Stream := ⟨bs, []⟩

/-- Whether the stream goes on for ever. -/
def isEndless (s : Stream) : Bool := !s.pattern.isEmpty

/-- One stream after another. Nothing comes after an endless one. -/
def append (s t : Stream) : Stream :=
  if s.isEndless then s else ⟨s.bytes ++ t.bytes, t.pattern⟩

/-- Some bytes of a pattern that is repeated. -/
def cycle (pattern : List UInt8) : Nat → List UInt8 → List UInt8
  | 0, _ => []
  | n + 1, b :: r => b :: cycle pattern n r
  | n + 1, [] =>
    match pattern with
    | [] => []
    | b :: r => b :: cycle pattern n r

/-- The first bytes. -/
def take (n : Nat) (s : Stream) : List UInt8 :=
  s.bytes.take n ++ cycle s.pattern (n - s.bytes.length) s.pattern

/-- Every byte changed, or dropped. -/
def filterMap (f : UInt8 → Option UInt8) (s : Stream) : Stream :=
  ⟨s.bytes.filterMap f, s.pattern.filterMap f⟩

end Stream

/-! ## Characters for bytes -/

/-- The bytes of a text, as characters. -/
def byteChars (s : String) : List Char := s.toUTF8.toList.map fun b => Char.ofNat b.toNat

/-- The bytes that characters stand for. -/
def bytesOf (s : List Char) : List UInt8 := s.map fun c => UInt8.ofNat c.toNat

/-- The text of characters that stand for bytes. -/
def textOf (s : List Char) : String := String.ofList (Text.decodeReplacing (bytesOf s))

/-- What a program wrote, as a text: bad bytes are replaced and all lines end in a line feed. -/
def outputText (bs : List UInt8) : String :=
  String.ofList (Text.newlines (Text.decodeReplacing bs))

end LockAudit.Program
