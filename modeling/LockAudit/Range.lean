import LockAudit.Version.Reader

/-!
# `LockAudit.Range` — version ranges

A range is a union of alternatives separated by `||`. An alternative is a list of comparators
separated by blanks, all of which must hold, or a hyphen range `low - high`. A comparator is an
operator and a partial: up to three numbers, of which those from the first `x`, `X` or `*` on are
left open.

## Contents
- **Partials.** `Partial.parse`, and the versions at its edges: `lower` and `upper`.
- **Comparators.** `Constraint` is a relation to one version; `expand` gives the constraints of an
  operator and a partial; `constraints` those of an alternative.
- **Ranges.** `alternatives` cuts a range; `satisfies` decides whether a version is in it. An
  alternative that cannot be read matches nothing and leaves the others as they are.
-/

namespace LockAudit.Range

open LockAudit.Text

/-! ## Partials -/

/-- A version with components left open: its leading numbers, and what follows three of them. -/
structure Partial where
  numbers : List Nat
  suffix : List Char
  deriving DecidableEq, Repr

/-- A component of a partial: digits, or open. -/
inductive Component
  | digits (ds : List Char)
  | wild
  deriving DecidableEq, Repr

/-- The component at the front of a text. -/
def component? (s : List Char) : Option (Component × List Char) :=
  match s with
  | [] => none
  | c :: r =>
    if c = 'x' ∨ c = 'X' ∨ c = '*' then some (.wild, r)
    else if isDigit c then some (.digits (s.takeWhile isDigit), s.dropWhile isDigit)
    else none

/-- Up to `n` further components, each behind a point. -/
def components : Nat → List Char → List Component × List Char
  | 0, s => ([], s)
  | n + 1, s =>
    match s with
    | '.' :: r =>
      match component? r with
      | none => ([], s)
      | some (c, t) =>
        let (cs, u) := components n t
        (c :: cs, u)
    | _ => ([], s)

/-- The numbers before the first open component. -/
def leadingNumbers : List Component → Except Version.Fault (List Nat)
  | [] => .ok []
  | .wild :: _ => .ok []
  | .digits ds :: cs => do
    let n ← Version.number ds
    let ns ← leadingNumbers cs
    pure (n :: ns)

/-- Whether a text may follow the components of a partial: nothing, or a prerelease or build on one
    line. -/
def isSuffix (s : List Char) : Bool :=
  match s with
  | [] => true
  | c :: r => (c == '-' || c == '+') && !r.contains '\n'

/-- Reads a partial. No text, or a single open component, leaves everything open; a suffix counts
    only after three numbers. -/
def Partial.parse (s : List Char) : Except Version.Fault Partial :=
  let s := trim s
  if s = [] then .ok ⟨[], []⟩
  else
    let r := match s with
      | 'v' :: r => r
      | r => r
    match component? r with
    | none => .error .invalid
    | some (c, r) =>
      let (cs, suffix) := components 2 r
      if isSuffix suffix then do
        let ns ← leadingNumbers (c :: cs)
        pure ⟨ns, if ns.length = 3 then suffix else []⟩
      else .error .invalid

/-- A row of numbers with zeros added up to three. -/
def padded (ns : List Nat) : List Nat := ns ++ List.replicate (3 - ns.length) 0

/-- The least version of a partial. -/
def Partial.lower (p : Partial) : Except Version.Fault Version :=
  Version.ofSemantic (padded p.numbers) p.suffix

/-- Adds one to the last number. -/
def succLast : List Nat → List Nat
  | [] => []
  | [n] => [n + 1]
  | n :: ns => n :: succLast ns

/-- The first release after all those that begin with the partial's first `n` numbers. -/
def Partial.upper (p : Partial) (n : Nat) : Except Version.Fault Version :=
  Version.ofSemantic (padded (succLast (p.numbers.take n))) []

/-! ## Comparators -/

/-- How a version may relate to a bound. -/
inductive Relation
  | lt
  | le
  | gt
  | ge
  | eq
  deriving DecidableEq, Repr

/-- The sign of a relation. -/
def Relation.sign : Relation → String
  | .lt => "<"
  | .le => "<="
  | .gt => ">"
  | .ge => ">="
  | .eq => "=="

/-- Whether two compared versions are in the relation. -/
def Relation.holds : Relation → Ordering → Bool
  | .lt, o => o.isLT
  | .le, o => o.isLE
  | .gt, o => o.isGT
  | .ge, o => o.isGE
  | .eq, o => o.isEq

/-- A condition on a version: its relation to a bound. -/
structure Constraint where
  relation : Relation
  bound : Version
  deriving DecidableEq, Repr

/-- Whether a version meets a constraint. -/
def Constraint.admits (c : Constraint) (v : Version) : Bool :=
  c.relation.holds (v.order c.bound)

/-- The operators of a comparator. No sign and `=` are one operator, and so are `~` and `~>`. -/
inductive Operator
  | same
  | lt
  | le
  | gt
  | ge
  | caret
  | tilde
  deriving DecidableEq, Repr

/-- The operator at the front of a comparator, and the rest. -/
def operator : List Char → Operator × List Char
  | '<' :: '=' :: r => (.le, r)
  | '>' :: '=' :: r => (.ge, r)
  | '<' :: r => (.lt, r)
  | '>' :: r => (.gt, r)
  | '=' :: r => (.same, r)
  | '^' :: r => (.caret, r)
  | '~' :: '>' :: r => (.tilde, r)
  | '~' :: r => (.tilde, r)
  | r => (.same, r)

/-- How many numbers of a partial a caret holds fixed: up to the first that is not zero, or all. -/
def caretWidth (p : Partial) : Nat :=
  match p.numbers with
  | [] => 0
  | [_] => 1
  | [n, _] => if 0 < n then 1 else 2
  | n :: m :: _ => if 0 < n then 1 else if 0 < m then 2 else 3

/-- How many numbers of a partial a tilde holds fixed: the first two, or one if there is no other. -/
def tildeWidth (p : Partial) : Nat := min 2 p.numbers.length

/-- The constraints of an operator and a partial. With everything open, nothing is strictly less or
    greater, and everything else matches. -/
def expand (op : Operator) (p : Partial) : Except Version.Fault (List Constraint) :=
  match p.numbers with
  | [] =>
    match op with
    | .lt | .gt => .ok [⟨.lt, Version.ofRelease [0]⟩]
    | _ => .ok []
  | ns => do
    let lower ← p.lower
    match op with
    | .caret => do
      let upper ← p.upper (caretWidth p)
      pure [⟨.ge, lower⟩, ⟨.lt, upper⟩]
    | .tilde => do
      let upper ← p.upper (tildeWidth p)
      pure [⟨.ge, lower⟩, ⟨.lt, upper⟩]
    | _ =>
      if ns.length = 3 then
        match op with
        | .lt => pure [⟨.lt, lower⟩]
        | .le => pure [⟨.le, lower⟩]
        | .gt => pure [⟨.gt, lower⟩]
        | .ge => pure [⟨.ge, lower⟩]
        | _ => pure [⟨.eq, lower⟩]
      else do
        let upper ← p.upper ns.length
        match op with
        | .lt => pure [⟨.lt, lower⟩]
        | .le => pure [⟨.lt, upper⟩]
        | .gt => pure [⟨.ge, upper⟩]
        | .ge => pure [⟨.ge, lower⟩]
        | _ => pure [⟨.ge, lower⟩, ⟨.lt, upper⟩]

/-- The constraints of one comparator. -/
def comparator (token : List Char) : Except Version.Fault (List Constraint) := do
  let p ← Partial.parse (operator token).2
  expand (operator token).1 p

/-- The constraint that the upper end of a hyphen range sets. -/
def hyphenEnd (high : Partial) : Except Version.Fault (List Constraint) :=
  match high.numbers with
  | [] => .ok []
  | ns =>
    if ns.length = 3 then do pure [⟨.le, ← high.lower⟩]
    else do pure [⟨.lt, ← high.upper ns.length⟩]

/-- The constraints of a hyphen range. -/
def hyphen (low high : List Char) : Except Version.Fault (List Constraint) := do
  let high ← Partial.parse high
  let low ← Partial.parse low
  let least ← expand .ge low
  let greatest ← hyphenEnd high
  pure (least ++ greatest)

/-- The characters an operator may end with. -/
def isOperatorChar (c : Char) : Bool := c == '<' || c == '>' || c == '=' || c == '^' || c == '~'

/-- The text without the blanks that follow an operator. -/
def joinOperators : List Char → List Char
  | [] => []
  | c :: r =>
    if isOperatorChar c then c :: joinOperators (r.dropWhile isBlank) else c :: joinOperators r
termination_by s => s.length
decreasing_by
  · have := (List.dropWhile_sublist (l := r) isBlank).length_le
    simp only [List.length_cons]
    omega
  · simp

/-- The constraints of several comparators, one after the other. -/
def comparators : List (List Char) → Except Version.Fault (List Constraint)
  | [] => .ok []
  | t :: ts => do
    let c ← comparator t
    let cs ← comparators ts
    pure (c ++ cs)

/-- The constraints of an alternative. -/
def constraints (alternative : List Char) : Except Version.Fault (List Constraint) :=
  match words alternative with
  | [low, ['-'], high] => hyphen low high
  | _ => comparators (words (joinOperators alternative))

/-! ## Ranges -/

/-- The texts between the signs `||`, without blanks at their ends. -/
def cut : List Char → List (List Char)
  | [] => [[]]
  | '|' :: '|' :: r => [] :: cut r
  | c :: r =>
    match cut r with
    | [] => [[c]]
    | w :: ws => (c :: w) :: ws

/-- The alternatives of a range. -/
def alternatives (range : List Char) : List (List Char) := (cut range).map trim

/-- Whether a version meets one of some alternatives, tried from the left. -/
def admits (v : Version) : List (List Char) → Except Numeral.Refusal Bool
  | [] => .ok false
  | a :: as =>
    match constraints a with
    | .error .invalid => admits v as
    | .error (.numeral e) => .error e
    | .ok cs => if cs.all (·.admits v) then .ok true else admits v as

/-- Whether an installed version lies in a range. A text that is no version lies in none, and no
    range holds nothing. Only a numeral that is refused is an error. -/
def satisfies (version : String) (range : Option String) : Except Numeral.Refusal Bool :=
  match Version.parseInstalled version.toList, range with
  | .error (.numeral e), _ => .error e
  | .error .invalid, _ => .ok false
  | .ok _, none => .ok false
  | .ok v, some r => admits v (alternatives r.toList)

end LockAudit.Range
