import LockAudit.Text.Digit

/-!
# `LockAudit.Text.Decoding` — bytes to characters

Decoders for UTF-8, UTF-16 and UTF-32, and the choice among them for a text of unknown encoding.

A decoder is a list of steps (`Piece`): a character, a code unit of a surrogate pair that stands
alone, or a bad run of bytes with the reason. `strict` refuses the first bad run, `lenient` takes
lone surrogates, and `replacing` puts one replacement character for every bad run. A bad run of
UTF-8 is as long as it could have gone on to be a character.

## Contents
- **Pieces.** `Piece`, `Defect` and the two ways to join them.
- **Encodings.** `utf8`, `utf16`, `utf32`.
- **Detection.** `Encoding.detect` looks at byte order marks and at zero bytes among the first
  four; `decode` takes the mark off.
- **Lines.** `newlines` turns the other line ends into line feeds.
-/

namespace LockAudit.Text

/-! ## Pieces -/

/-- What a decoder finds at a place. -/
inductive Piece
  /-- A character made of this many bytes. -/
  | char (c : Char) (bytes : Nat)
  /-- A lone surrogate made of this many bytes, which this reason refuses. -/
  | surrogate (bytes : Nat) (refused : Nat) (reason : String)
  /-- This many bytes that are no character, and why. -/
  | bad (bytes : Nat) (reason : String)
  deriving Repr

/-- The number of bytes that a piece takes. -/
def Piece.size : Piece → Nat
  | .char _ n => n
  | .surrogate n _ _ => n
  | .bad n _ => n

/-- Why bytes could not be decoded: the codec, the first byte and the number of bad bytes, where
    they begin, and the reason. -/
structure Defect where
  codec : String
  first : UInt8
  start : Nat
  bytes : Nat
  reason : String
  deriving DecidableEq, Repr

/-- The words for it. -/
def Defect.message (d : Defect) : String :=
  let place :=
    if d.bytes = 1 then
      "byte 0x" ++ String.ofList [hexDigit (d.first.toNat / 16), hexDigit (d.first.toNat % 16)]
        ++ " in position " ++ Nat.repr d.start
    else "bytes in position " ++ Nat.repr d.start ++ "-" ++ Nat.repr (d.start + d.bytes - 1)
  "'" ++ d.codec ++ "' codec can't decode " ++ place ++ ": " ++ d.reason

/-- Decodes to the end, piece by piece. The bound is the number of bytes; no piece is empty. -/
def pieces (step : List UInt8 → Piece) : Nat → List UInt8 → List Piece
  | 0, _ => []
  | _, [] => []
  | n + 1, bs =>
    let p := step bs
    p :: pieces step n (bs.drop (max 1 p.size))

/-- The characters of some pieces, or the first defect. A lone surrogate is one unless it is
    allowed. Then it becomes the replacement character, as texts here hold characters only: this is a
    limit of the model, which cannot keep it as a code point. -/
def joinStrict (codec : String) (allow : Bool) (bs : List UInt8) (start : Nat) :
    List Piece → Except Defect (List Char)
  | [] => .ok []
  | p :: ps =>
    let next := joinStrict codec allow (bs.drop p.size) (start + p.size) ps
    let fail (n : Nat) (reason : String) : Except Defect (List Char) :=
      .error ⟨codec, bs.headD 0, start, n, reason⟩
    match p with
    | .char c _ => (c :: ·) <$> next
    | .surrogate _ n reason => if allow then ('\ufffd' :: ·) <$> next else fail n reason
    | .bad n reason => fail n reason

/-- The characters of some pieces, with one replacement character for every bad run. The bytes of a
    lone surrogate are each a bad run of their own. -/
def joinReplacing (ps : List Piece) : List Char :=
  ps.flatMap fun
    | .char c _ => [c]
    | .surrogate n _ _ => List.replicate n '\ufffd'
    | .bad _ _ => ['\ufffd']

/-! ## Encodings -/

/-- A continuation byte of UTF-8. -/
def isContinuation (b : UInt8) : Bool := 0x80 ≤ b && b ≤ 0xbf

/-- The six payload bits of a continuation byte. -/
def low6 (b : UInt8) : Nat := b.toNat % 64

/-- Whether a byte may follow a lead byte: a continuation, and within the range that excludes
    overlong forms, surrogates and code points beyond the last one. -/
def maySecond (lead b : UInt8) : Bool :=
  isContinuation b && (lead != 0xe0 || 0xa0 ≤ b) && (lead != 0xed || b < 0xa0)
    && (lead != 0xf0 || 0x90 ≤ b) && (lead != 0xf4 || b < 0x90)

/-- Where a row of bytes stops before its end. -/
def endOfData : String := "unexpected end of data"

/-- Where a continuation byte was wanted. -/
def badContinuation : String := "invalid continuation byte"

/-- One step of UTF-8. -/
def utf8Step (bs : List UInt8) : Piece :=
  match bs with
  | [] => .bad 1 endOfData
  | a :: r =>
    let char (n bytes : Nat) : Piece := .char (Char.ofNat n) bytes
    if a < 0x80 then char a.toNat 1
    else if a < 0xc2 || 0xf4 < a then .bad 1 "invalid start byte"
    else if a < 0xe0 then
      match r with
      | [] => .bad 1 endOfData
      | b :: _ => if maySecond a b then char (a.toNat % 32 * 64 + low6 b) 2 else .bad 1 badContinuation
    else if a < 0xf0 then
      match r with
      | [] => .bad 1 endOfData
      | b :: c :: _ =>
        if maySecond a b then
          if isContinuation c then char ((a.toNat % 16 * 64 + low6 b) * 64 + low6 c) 3
          else .bad 2 badContinuation
        else if a == 0xed && isContinuation b && isContinuation c then .surrogate 3 1 badContinuation
        else .bad 1 badContinuation
      | [b] => if maySecond a b then .bad 2 endOfData else .bad 1 badContinuation
    else
      match r with
      | [] => .bad 1 endOfData
      | b :: r =>
        if maySecond a b then
          match r with
          | [] => .bad 2 endOfData
          | c :: r =>
            if isContinuation c then
              match r with
              | [] => .bad 3 endOfData
              | d :: _ =>
                if isContinuation d then
                  char (((a.toNat % 8 * 64 + low6 b) * 64 + low6 c) * 64 + low6 d) 4
                else .bad 3 badContinuation
            else .bad 2 badContinuation
        else .bad 1 badContinuation

/-- Which byte of a unit comes first. -/
inductive ByteOrder
  | little
  | big
  deriving DecidableEq, Repr

/-- The number that two bytes denote. -/
def ByteOrder.pair (o : ByteOrder) (a b : UInt8) : Nat :=
  match o with
  | .little => b.toNat * 256 + a.toNat
  | .big => a.toNat * 256 + b.toNat

/-- One step of UTF-16. -/
def utf16Step (o : ByteOrder) (bs : List UInt8) : Piece :=
  match bs with
  | a :: b :: r =>
    let u := o.pair a b
    if 0xd800 ≤ u && u ≤ 0xdbff then
      match r with
      | c :: d :: _ =>
        let v := o.pair c d
        if 0xdc00 ≤ v && v ≤ 0xdfff then
          .char (Char.ofNat (0x10000 + (u - 0xd800) * 0x400 + (v - 0xdc00))) 4
        else .surrogate 2 2 "illegal UTF-16 surrogate"
      | r => .surrogate 2 (2 + r.length) endOfData
    else if 0xdc00 ≤ u && u ≤ 0xdfff then .surrogate 2 2 "illegal encoding"
    else .char (Char.ofNat u) 2
  | bs => .bad bs.length "truncated data"

/-- One step of UTF-32. -/
def utf32Step (o : ByteOrder) (bs : List UInt8) : Piece :=
  match bs with
  | a :: b :: c :: d :: _ =>
    let n := match o with
      | .little => o.pair c d * 65536 + o.pair a b
      | .big => o.pair a b * 65536 + o.pair c d
    if 0xd800 ≤ n && n ≤ 0xdfff then
      .surrogate 4 4 "code point in surrogate code point range(0xd800, 0xe000)"
    else if 0x10ffff < n then .bad 4 "code point not in range(0x110000)"
    else .char (Char.ofNat n) 4
  | bs => .bad bs.length "truncated data"

/-- An encoding. -/
inductive Encoding
  | utf8
  | utf16 (order : ByteOrder)
  | utf32 (order : ByteOrder)
  deriving DecidableEq, Repr

/-- The name of an encoding in messages. -/
def Encoding.codec : Encoding → String
  | .utf8 => "utf-8"
  | .utf16 .little => "utf-16-le"
  | .utf16 .big => "utf-16-be"
  | .utf32 .little => "utf-32-le"
  | .utf32 .big => "utf-32-be"

/-- One step of an encoding. -/
def Encoding.step : Encoding → List UInt8 → Piece
  | .utf8 => utf8Step
  | .utf16 o => utf16Step o
  | .utf32 o => utf32Step o

/-- The pieces of a row of bytes. -/
def Encoding.pieces (e : Encoding) (bs : List UInt8) : List Piece :=
  Text.pieces e.step bs.length bs

/-- Decodes UTF-8 and refuses the first bad run. -/
def decodeUtf8 (bs : List UInt8) : Except Defect (List Char) :=
  joinStrict "utf-8" false bs 0 (Encoding.utf8.pieces bs)

/-- Decodes UTF-8 with one replacement character for every bad run. -/
def decodeReplacing (bs : List UInt8) : List Char := joinReplacing (Encoding.utf8.pieces bs)

/-! ## Detection -/

/-- The encoding of a text, and the length of its byte order mark. A text of four or more bytes
    without a mark shows its encoding by the zero bytes of its first, ASCII, characters. -/
def Encoding.detect (bs : List UInt8) : Encoding × Nat :=
  match bs with
  | 0x00 :: 0x00 :: 0xfe :: 0xff :: _ => (.utf32 .big, 4)
  | 0xff :: 0xfe :: 0x00 :: 0x00 :: _ => (.utf32 .little, 4)
  | 0xfe :: 0xff :: _ => (.utf16 .big, 2)
  | 0xff :: 0xfe :: _ => (.utf16 .little, 2)
  | 0xef :: 0xbb :: 0xbf :: _ => (.utf8, 3)
  | a :: b :: c :: d :: _ =>
    if a = 0 then (if b = 0 then .utf32 .big else .utf16 .big, 0)
    else if b = 0 then (if c = 0 ∧ d = 0 then .utf32 .little else .utf16 .little, 0)
    else (.utf8, 0)
  | [a, b] => (if a = 0 then .utf16 .big else if b = 0 then .utf16 .little else .utf8, 0)
  | _ => (.utf8, 0)

/-- Decodes a text of unknown encoding, with lone surrogates allowed. Places in a defect count from
    the first byte, except that the mark of UTF-8 does not count. -/
def decode (bs : List UInt8) : Except Defect (List Char) :=
  let (e, mark) := Encoding.detect bs
  let body := bs.drop mark
  joinStrict e.codec true body (if e = .utf8 then 0 else mark) (e.pieces body)

/-! ## Lines -/

/-- The text with every carriage return, alone or before a line feed, turned into a line feed. -/
def newlines : List Char → List Char
  | [] => []
  | '\r' :: '\n' :: r => '\n' :: newlines r
  | '\r' :: r => '\n' :: newlines r
  | c :: r => c :: newlines r

end LockAudit.Text
