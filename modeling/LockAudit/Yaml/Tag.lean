import LockAudit.Text.Blank
import LockAudit.Yaml.Timestamp

/-!
# `LockAudit.Yaml.Tag` — what a node stands for

The tags of the language, and the tag that a plain text has without being given one: the words for
nothing and for truth values, the forms of numbers and of timestamps, and otherwise a text.

## Contents
- **`Tag`** and `Tag.ofUri`.
- **Numbers.** `looksInt`, `looksFloat`.
- **`Tag.ofPlain`**, the tag of a plain text.
-/

namespace LockAudit.Yaml

/-- What a node stands for. -/
inductive Tag
  | null
  | bool
  | int
  | float
  | binary
  | timestamp
  | str
  | seq
  | map
  | set
  | omap
  | pairs
  /-- As a key, takes the entries of other mappings in. -/
  | merge
  /-- As a key, gives the value of the mapping where a scalar is wanted. -/
  | value
  | other (uri : String)
  deriving DecidableEq, Repr

namespace Tag

/-- What the tags of the language begin with. -/
def language : String := "tag:yaml.org,2002:"

/-- The tags of the language by name. -/
def named : List (String × Tag) :=
  [("null", .null), ("bool", .bool), ("int", .int), ("float", .float), ("binary", .binary),
    ("timestamp", .timestamp), ("str", .str), ("seq", .seq), ("map", .map), ("set", .set),
    ("omap", .omap), ("pairs", .pairs), ("merge", .merge), ("value", .value)]

/-- The tag of a full name. -/
def ofUri (uri : String) : Tag :=
  ((named.find? fun p => language ++ p.1 = uri).map Prod.snd).getD (.other uri)

/-! ## Numbers -/

/-- A digit or an underscore. -/
def isDigitOrBar (c : Char) : Bool := Text.isAsciiDigit c || c == '_'

/-- A numeral: a digit, then digits and underscores. -/
def isNumeral (s : List Char) : Bool := s.head?.any Text.isAsciiDigit && s.all isDigitOrBar

/-- A numeral of base sixty's lower places: one digit, or two of which the first is at most five. -/
def isSixtieth : List Char → Bool
  | [a] => Text.isAsciiDigit a
  | [a, b] => '0' ≤ a && a ≤ '5' && Text.isAsciiDigit b
  | _ => false

/-- A numeral of base sixty, its places divided by colons. -/
def isSexagesimal (s : List Char) : Bool :=
  match Text.split (· == ':') s with
  | first :: places => isNumeral first && !places.isEmpty && places.all isSixtieth
  | [] => false

/-- A text without the sign in front of it. -/
def unsigned (s : List Char) : List Char :=
  match s with
  | '-' :: r => r
  | '+' :: r => r
  | r => r

/-- Whether some characters, at least one, are digits of a base or underscores. -/
def areDigits (p : Char → Bool) (s : List Char) : Bool :=
  !s.isEmpty && s.all fun c => p c || c == '_'

/-- An octal digit. -/
def isOctal (c : Char) : Bool := '0' ≤ c && c ≤ '7'

/-- Whether a text has the form of an integer: binary, octal, decimal, hexadecimal or of base
    sixty. -/
def looksInt (s : List Char) : Bool :=
  match unsigned s with
  | ['0'] => true
  | '0' :: 'b' :: r => areDigits (fun c => c == '0' || c == '1') r
  | '0' :: 'x' :: r => areDigits (fun c => (Text.hexValue? c).isSome) r
  | '0' :: r => areDigits isOctal r
  | r => isNumeral r || isSexagesimal r

/-- An exponent, which must have a sign; or nothing. -/
def isExponent : List Char → Bool
  | [] => true
  | e :: sign :: r =>
    (e == 'e' || e == 'E') && (sign == '-' || sign == '+') && !r.isEmpty && r.all Text.isAsciiDigit
  | _ => false

/-- Whether a text has the form of a number with a point. -/
def looksFloat (s : List Char) : Bool :=
  let r := unsigned s
  let whole := r.takeWhile (· ≠ '.')
  match r.drop whole.length with
  | [] => false
  | _ :: places =>
    let rest := places.dropWhile isDigitOrBar
    if whole.isEmpty then
      ["inf", "Inf", "INF"].contains (String.ofList places)
        || (r == s && (["nan", "NaN", "NAN"].contains (String.ofList places)
          || (places.head?.any Text.isAsciiDigit && isExponent rest)))
    else (isNumeral whole && isExponent rest) || (isSexagesimal whole && rest.isEmpty)

/-! ## Plain texts -/

/-- The words for truth values. -/
def truthWords : List String :=
  ["yes", "Yes", "YES", "no", "No", "NO", "true", "True", "TRUE", "false", "False", "FALSE",
    "on", "On", "ON", "off", "Off", "OFF"]

/-- The words for nothing. -/
def nullWords : List String := ["~", "null", "Null", "NULL"]

/-- A text without a line feed at its end. -/
def dropLastBreak (s : List Char) : List Char := if s.getLast? = some '\n' then s.dropLast else s

/-- The tag of a text that is not given one. A line feed at its end does not count. -/
def ofPlain (s : List Char) : Tag :=
  let body := dropLastBreak s
  let word := String.ofList body
  if s.isEmpty then .null
  else if truthWords.contains word then .bool
  else if looksFloat body then .float
  else if looksInt body then .int
  else if word = "<<" then .merge
  else if nullWords.contains word then .null
  else if Timestamp.isPlain body then .timestamp
  else if word = "=" then .value
  else if ["!", "&", "*"].contains word then .other (language ++ "yaml")
  else .str

end Tag

end LockAudit.Yaml
