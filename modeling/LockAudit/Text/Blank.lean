/-!
# `LockAudit.Text.Blank` — white space, and one text in another

Which characters count as blank, and the four cuts made at them: `trimStart`, `trimEnd`, `trim`
and `words`. The class is Unicode's white space together with the four ASCII separators
U+001C..U+001F, so it is wider than `Char.isWhitespace`.

`isInfix` decides whether a text occurs in another, and `afterLast?` cuts a text behind the last
occurrence. Occurrences may overlap.
-/

namespace LockAudit.Text

/-! ## Blanks -/

/-- The characters with Unicode's White_Space property. -/
def isWhiteSpace (c : Char) : Bool :=
  let n := c.toNat
  (0x09 ≤ n && n ≤ 0x0d) || n == 0x20 || n == 0x85 || n == 0xa0 || n == 0x1680
    || (0x2000 ≤ n && n ≤ 0x200a) || n == 0x2028 || n == 0x2029 || n == 0x202f || n == 0x205f
    || n == 0x3000

/-- The blank characters: white space and the four ASCII separators. -/
def isBlank (c : Char) : Bool := isWhiteSpace c || (0x1c ≤ c.toNat && c.toNat ≤ 0x1f)

/-- The text without the white space at either end. -/
def trimSpace (s : List Char) : List Char :=
  ((s.dropWhile isWhiteSpace).reverse.dropWhile isWhiteSpace).reverse

/-- The text without its leading blanks. -/
def trimStart (s : List Char) : List Char := s.dropWhile isBlank

/-- The text without its trailing blanks. -/
def trimEnd (s : List Char) : List Char := (s.reverse.dropWhile isBlank).reverse

/-- The text without the blanks at either end. -/
def trim (s : List Char) : List Char := trimEnd (trimStart s)

/-- The pieces between the characters that satisfy `p`, empty ones included: there is one piece
    more than there are such characters. -/
def split (p : Char → Bool) : List Char → List (List Char)
  | [] => [[]]
  | c :: r =>
    if p c then [] :: split p r
    else match split p r with
      | [] => [[c]]
      | w :: ws => (c :: w) :: ws

/-- The maximal runs of characters that are not blank. -/
def words (s : List Char) : List (List Char) := (split isBlank s).filter (· ≠ [])

/-- Nothing but blanks. -/
def allBlank (s : List Char) : Bool := s.all isBlank

/-- A string without the blanks at either end. -/
def trimString (s : String) : String := String.ofList (trim s.toList)

/-- A string in lower case, for the ASCII letters; other characters stay. -/
def lower (s : String) : String := String.ofList (s.toList.map Char.toLower)

theorem split_ne_nil (p : Char → Bool) (s : List Char) : split p s ≠ [] := by
  cases s with
  | nil => simp [split]
  | cons c r =>
    simp only [split]
    split
    · simp
    · split <;> simp

@[simp] theorem trim_nil : trim [] = [] := rfl

/-! ## Searching -/

/-- Whether a text occurs in another. -/
def isInfix (needle : List Char) : List Char → Bool
  | [] => needle.isEmpty
  | c :: r => needle.isPrefixOf (c :: r) || isInfix needle r

/-- What follows the last occurrence of a text, if there is one. -/
def afterLast? (needle : List Char) : List Char → Option (List Char)
  | [] => if needle.isEmpty then some [] else none
  | c :: r =>
    match afterLast? needle r with
    | some t => some t
    | none => if needle.isPrefixOf (c :: r) then some ((c :: r).drop needle.length) else none

/-- A text occurs in another exactly when it is a prefix of one of its tails. -/
theorem isInfix_iff {needle s : List Char} : isInfix needle s = true ↔ needle <:+: s := by
  induction s with
  | nil => simp [isInfix]
  | cons c r ih =>
    simp only [isInfix, Bool.or_eq_true, ih, List.isPrefixOf_iff_prefix, List.infix_cons_iff]

end LockAudit.Text
