/-!
# `LockAudit.Text.Glob` — patterns for file names

In a pattern `*` stands for any text, `?` for any one character, and brackets for one character of a
class: single characters and ranges, or with `!` in front any other character. A bracket that is not
closed stands for itself. All else stands for itself, case included.

A class is read in chunks: a hyphen makes a range unless it stands at an end, a range whose ends are
the wrong way round holds nothing and disappears together with its ends, and what is then left decides
whether the class is empty, negated or plain.

## Contents
- **Classes.** `Class`, `chunks`, `dropEmptyRanges`, `classItems`.
- **Patterns.** `Token`, `tokens`.
- **Matching.** `matchTokens`, `accepts`.
-/

namespace LockAudit.Text.Glob

/-! ## Classes -/

/-- A set of characters: those within some bounds, or all others. -/
structure Class where
  negated : Bool
  ranges : List (Char × Char)
  deriving DecidableEq, Repr

/-- Whether a class holds a character. -/
def Class.holds (k : Class) (c : Char) : Bool :=
  k.negated != k.ranges.any fun r => r.1 ≤ c && c ≤ r.2

/-- The text before the first hyphen that has at least `skip` characters before it, and what follows
    that hyphen. -/
def cutHyphen : Nat → List Char → Option (List Char × List Char)
  | _, [] => none
  | 0, '-' :: r => some ([], r)
  | skip, c :: r => (cutHyphen (skip - 1) r).map fun p => (c :: p.1, p.2)

theorem cutHyphen_length {skip : Nat} {s : List Char} {p : List Char × List Char}
    (h : cutHyphen skip s = some p) : p.2.length < s.length := by
  induction s generalizing skip p with
  | nil => simp [cutHyphen] at h
  | cons c r ih =>
    unfold cutHyphen at h
    split at h
    · simp at h
    · next heq => obtain ⟨-, rfl⟩ := List.cons.inj heq; simp_all; subst h; simp
    · next heq =>
      obtain ⟨-, rfl⟩ := List.cons.inj heq
      obtain ⟨q, hq, rfl⟩ := Option.map_eq_some_iff.1 h
      have := ih hq
      simp only [List.length_cons]
      omega

/-- The pieces of a class between the hyphens that make ranges. Two such hyphens have at least two
    characters between them. -/
def chunks (skip : Nat) (s : List Char) : List (List Char) :=
  match _h : cutHyphen skip s with
  | none => [s]
  | some (chunk, []) => [chunk ++ ['-']]
  | some (chunk, rest) => chunk :: chunks 2 rest
termination_by s.length
decreasing_by exact cutHyphen_length _h

/-- Joins the pieces at ranges whose ends are the wrong way round, from the last to the first. -/
def dropEmptyRanges : List (List Char) → List (List Char)
  | [] => []
  | c :: r =>
    match dropEmptyRanges r with
    | [] => [c]
    | d :: t =>
      match c.getLast?, d.head? with
      | some a, some b => if b < a then (c.dropLast ++ d.tail) :: t else c :: d :: t
      | _, _ => c :: d :: t

/-- The bounds that pieces denote: a range between each two, and single characters. `start` is the
    character at which a range begins. -/
def bounds : Option Char → List (List Char) → List (Char × Char)
  | _, [] => []
  | start, c :: r =>
    let single (cs : List Char) := cs.map fun x => (x, x)
    let opened := match start, c with
      | some a, b :: cs => ([(a, b)], cs)
      | _, cs => ([], cs)
    match r with
    | [] => opened.1 ++ single opened.2
    | r =>
      match opened.2.getLast? with
      | none => opened.1 ++ ('-', '-') :: bounds none r
      | some a => opened.1 ++ single opened.2.dropLast ++ bounds (some a) r

/-- The class of the text between brackets. -/
def classOf (s : List Char) : Class :=
  let pieces := if s.contains '-' then
      dropEmptyRanges (chunks (if s.head? = some '!' then 2 else 1) s)
    else [s]
  match pieces with
  | ('!' :: c) :: r => ⟨true, bounds none (c :: r)⟩
  | pieces => ⟨false, bounds none pieces⟩

/-! ## Patterns -/

/-- What a part of a pattern stands for. -/
inductive Token
  | anyText
  | anyChar
  | char (c : Char)
  | oneOf (k : Class)
  deriving DecidableEq, Repr

/-- Splits the text behind an opening bracket at the closing one. A bracket right at the front, or
    right behind `!`, does not close. -/
def cutClass (s : List Char) : Option (List Char × List Char) :=
  let front := match s with
    | '!' :: ']' :: _ => 2
    | '!' :: _ => 1
    | ']' :: _ => 1
    | _ => 0
  match (s.drop front).dropWhile (· ≠ ']') with
  | [] => none
  | _ :: rest => some (s.take (s.length - rest.length - 1), rest)

/-- Reads a pattern; every step takes at least one of the `fuel` characters. -/
def readTokens : Nat → List Char → List Token
  | _, [] => []
  | 0, _ => []
  | fuel + 1, c :: r =>
    if c = '*' then .anyText :: readTokens fuel r
    else if c = '?' then .anyChar :: readTokens fuel r
    else if c = '[' then
      match cutClass r with
      | none => .char '[' :: readTokens fuel r
      | some (s, rest) => .oneOf (classOf s) :: readTokens fuel rest
    else .char c :: readTokens fuel r

/-- The tokens of a pattern. -/
def tokens (s : List Char) : List Token := readTokens s.length s

/-! ## Matching -/

/-- The tails of a text, from the whole text on. -/
def tails : List Char → List (List Char)
  | [] => [[]]
  | c :: r => (c :: r) :: tails r

/-- Whether tokens match a whole text. -/
def matchTokens : List Token → List Char → Bool
  | [], s => s.isEmpty
  | .anyText :: ts, s => (tails s).any (matchTokens ts)
  | .anyChar :: ts, _ :: r => matchTokens ts r
  | .char c :: ts, d :: r => c == d && matchTokens ts r
  | .oneOf k :: ts, d :: r => k.holds d && matchTokens ts r
  | _ :: _, [] => false

/-- Whether a pattern matches a whole text. -/
def accepts (pattern text : String) : Bool := matchTokens (tokens pattern.toList) text.toList

@[simp] theorem matchTokens_nil (s : List Char) : matchTokens [] s = s.isEmpty := by
  cases s <;> simp [matchTokens]

end LockAudit.Text.Glob
