import LockAudit.Binary64.Arithmetic
import LockAudit.Binary64.Reader
import LockAudit.Json.Value
import LockAudit.Text.Base64
import LockAudit.Yaml.Tag

/-!
# `LockAudit.Yaml.Value` — the values of YAML nodes

What a document says, without the ways in which it was written. `Value.ofScalar` gives the value of a
text under a tag.

## Contents
- **`Value`**, with `isSet` and `isHashable`.
- **Numbers.** `integer?` and `decimal?`.
- **Scalars.** `Value.ofScalar`.
-/

namespace LockAudit.Yaml

/-- A value. -/
inductive Value
  | null
  | bool (b : Bool)
  | number (n : Number)
  | text (s : String)
  | bytes (bs : List UInt8)
  | moment (t : Timestamp)
  | list (vs : List Value)
  /-- Of two entries with one key the later one counts. -/
  | map (entries : List (Value × Value))
  | set (members : List Value)
  /-- A collection that the value is itself a part of. -/
  | enclosing
  deriving Repr

namespace Value

/-- Whether a value says anything: nothing, false, zero and what is empty do not. -/
def isSet : Value → Bool
  | .null => false
  | .bool b => b
  | .number n => n.isSet
  | .text s => !s.isEmpty
  | .bytes bs => !bs.isEmpty
  | .list vs => !vs.isEmpty
  | .map es => !es.isEmpty
  | .set vs => !vs.isEmpty
  | .moment _ => true
  | .enclosing => true

/-- Whether a value may be a key: collections may not. -/
def isHashable : Value → Bool
  | .list _ => false
  | .map _ => false
  | .set _ => false
  | .enclosing => false
  | _ => true

end Value

/-! ## Numbers -/

/-- Takes the sign off a number. -/
def takeSign (s : List Char) : Bool × List Char :=
  match s with
  | '-' :: r => (true, r)
  | '+' :: r => (false, r)
  | r => (false, r)

/-- Reads digits of a base, which may be announced by a zero and a letter. -/
def radix? (base : Nat) (letter : Char) (s : List Char) : Option Int := do
  let (negative, r) := takeSign (Text.trimSpace s)
  let ds := match r with
    | '0' :: x :: t => if x.toLower = letter then t else r
    | _ => r
  if ds.isEmpty then none
  let n ← ds.foldlM (fun n c => do
    let d ← Text.hexValue? c
    if d < base then some (base * n + d) else none) 0
  pure (if negative then -n else n)

/-- Reads an integer. Underscores are dropped wherever they stand. -/
def integer? (s : List Char) : Option Int :=
  let (negative, r) := takeSign (s.filter (· ≠ '_'))
  let magnitude : Option Int :=
    match r with
    | [] => none
    | ['0'] => some 0
    | '0' :: 'b' :: t => radix? 2 'b' t
    | '0' :: 'x' :: t => radix? 16 'x' t
    | '0' :: _ => radix? 8 'o' r
    | _ =>
      (Text.split (· == ':') r).foldlM (fun n p => do pure (60 * n + (← Numeral.integer? p))) 0
  magnitude.map fun n => if negative then -n else n

/-- Adds up the places of a number of base sixty, the lowest first. -/
def sumSixtieths (base : Nat) (sum : Binary64) : List Binary64 → Option Binary64
  | [] => some sum
  | x :: r => do sumSixtieths (60 * base) (sum.add (x.mul (← Binary64.ofInt? base))) r

/-- Reads a number with a point. Underscores are dropped wherever they stand. -/
def decimal? (s : List Char) : Option Binary64 :=
  let (negative, r) := takeSign ((s.filter (· ≠ '_')).map Char.toLower)
  let magnitude : Option Binary64 :=
    if s.all (· == '_') then none
    else if r = ".inf".toList then some (.infinity false)
    else if r = ".nan".toList then some .nan
    else match Text.split (· == ':') r with
      | [_] => Binary64.ofText? (Text.trimSpace r)
      | places => do
        let xs ← places.mapM fun p => Binary64.ofText? (Text.trimSpace p)
        sumSixtieths 1 (.zero false) xs.reverse
  magnitude.map fun x => if negative then x.neg else x

/-! ## Scalars -/

/-- The truth value of a word. -/
def truth? (s : String) : Option Bool :=
  let word := Text.lower s
  if word ∈ ["yes", "true", "on"] then some true
  else if word ∈ ["no", "false", "off"] then some false
  else none

/-- The timestamp of a text, if there is such a moment. -/
def moment? (s : List Char) : Option Timestamp :=
  (Timestamp.ofText? (Tag.dropLastBreak s)).filter Timestamp.isValid

/-- The bytes of a text of ASCII characters. -/
def bytes? (s : List Char) : Option (List UInt8) :=
  if s.all fun c => c.toNat < 128 then Text.Base64.decode? s else none

/-- The value of a text under a tag. -/
def Value.ofScalar (tag : Tag) (s : String) : Except Fault Value :=
  let found (v : Option Value) : Except Fault Value :=
    match v with
    | some v => .ok v
    | none => .error .scalar
  match tag with
  | .null => .ok .null
  | .bool => found ((truth? s).map .bool)
  | .int => found ((integer? s.toList).map fun n => .number (.int n))
  | .float => found ((decimal? s.toList).map fun x => .number (.float x))
  | .binary => found ((bytes? s.toList).map .bytes)
  | .timestamp => found ((moment? s.toList).map .moment)
  | .str => .ok (.text s)
  | _ => .error .tag

end LockAudit.Yaml
