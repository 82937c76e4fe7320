import LockAudit.Yaml.Cursor

/-!
# `LockAudit.Yaml.Timestamp` — dates and times

A date, alone or with a time of day behind `T` or some gaps; the time may have a fraction of a
second and an offset. `ofText?` reads the form, `isValid` says whether there is such a moment.
-/

namespace LockAudit.Yaml

/-- A time of day. -/
structure TimeOfDay where
  hour : Nat
  minute : Nat
  second : Nat
  /-- The minutes by which the place's clock differs from universal time, either way. -/
  offset : Nat
  deriving DecidableEq, Repr

/-- Whether there is such a time: its offset is less than a day. -/
def TimeOfDay.isValid (t : TimeOfDay) : Bool :=
  t.hour < 24 && t.minute < 60 && t.second < 60 && t.offset < 24 * 60

/-- A date, and a time of day if there is one. -/
structure Timestamp where
  year : Nat
  month : Nat
  day : Nat
  time : Option TimeOfDay
  deriving DecidableEq, Repr

namespace Timestamp

/-- Takes a number of some digits. -/
def number? (fewest most : Nat) (s : List Char) : Option (Nat × List Char) :=
  let ds := (s.take most).takeWhile Text.isAsciiDigit
  if fewest ≤ ds.length then
    some (ds.foldl (fun n c => 10 * n + (c.toNat - 48)) 0, s.drop ds.length)
  else none

/-- Takes a sign. -/
def sign? (c : Char) (s : List Char) : Option (List Char) :=
  match s with
  | x :: r => if x = c then some r else none
  | [] => none

/-- The offset at the end of a time, in minutes; without one it is zero. -/
def offset? (s : List Char) : Option Nat :=
  if s = [] then some 0
  else match s.dropWhile isGap with
    | ['Z'] => some 0
    | c :: r =>
      if c = '+' ∨ c = '-' then do
        let (hours, r) ← number? 1 2 r
        if r = [] then return 60 * hours
        let (minutes, r) ← number? 2 2 (← sign? ':' r)
        if r = [] then some (60 * hours + minutes) else none
      else none
    | [] => none

/-- Reads a time of day. -/
def time? (s : List Char) : Option TimeOfDay := do
  let (hour, r) ← number? 1 2 s
  let (minute, r) ← number? 2 2 (← sign? ':' r)
  let (second, r) ← number? 2 2 (← sign? ':' r)
  let r := match r with
    | '.' :: t => t.dropWhile Text.isAsciiDigit
    | _ => r
  pure ⟨hour, minute, second, ← offset? r⟩

/-- What stands behind a date before a time. -/
def afterDate? : List Char → Option (List Char)
  | [] => none
  | c :: r => if c = 'T' ∨ c = 't' then some r else if isGap c then some (r.dropWhile isGap) else none

/-- Reads a timestamp. -/
def ofText? (s : List Char) : Option Timestamp := do
  let (year, r) ← number? 4 4 s
  let (month, r) ← number? 1 2 (← sign? '-' r)
  let (day, r) ← number? 1 2 (← sign? '-' r)
  if r = [] then return ⟨year, month, day, none⟩
  pure ⟨year, month, day, some (← time? (← afterDate? r))⟩

/-- Whether a year has a 29th of February. -/
def isLeap (year : Nat) : Bool := year % 4 == 0 && (year % 100 != 0 || year % 400 == 0)

/-- The days of a month. -/
def daysIn (year month : Nat) : Nat :=
  if month = 2 then (if isLeap year then 29 else 28)
  else if month ∈ [4, 6, 9, 11] then 30 else 31

/-- Whether there is such a moment. -/
def isValid (t : Timestamp) : Bool :=
  1 ≤ t.year && 1 ≤ t.month && t.month ≤ 12 && 1 ≤ t.day && t.day ≤ daysIn t.year t.month
    && t.time.all TimeOfDay.isValid

/-- Whether a text is a timestamp without being called one: a date alone needs all its digits. -/
def isPlain (s : List Char) : Bool :=
  match ofText? s with
  | some t => t.time.isSome || s.length == 10
  | none => false

end Timestamp

end LockAudit.Yaml
