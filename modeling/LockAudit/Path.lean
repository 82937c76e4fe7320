import LockAudit.Text.Blank

/-!
# `LockAudit.Path` — file paths

A path is a root and a list of names. Reading a text drops empty segments and `.`; `..` stays, as it
may mean something else behind a link. Paths are ordered by their names, one after the other, which
is not the order of their texts: `a/b` comes before `a-b`.

`normalized` is the one operation that takes `..` away, from the text alone.
-/

namespace LockAudit

/-- A path. The root is empty for a relative path, and one or two slashes otherwise. -/
structure Path where
  root : String
  names : List String
  deriving DecidableEq, Repr

namespace Path

/-- The segments of a text between slashes. -/
def segments (s : String) : List String :=
  ((Text.split (· == '/') s.toList).map String.ofList).filter fun n => n ≠ "" ∧ n ≠ "."

/-- The root of a text: exactly two leading slashes are kept, any other number is one. -/
def rootOf (s : List Char) : String :=
  match s with
  | '/' :: '/' :: '/' :: _ => "/"
  | '/' :: '/' :: _ => "//"
  | '/' :: _ => "/"
  | _ => ""

/-- Reads a path. -/
def ofString (s : String) : Path := ⟨rootOf s.toList, segments s⟩

/-- The text of a path; the empty relative path is `.`. -/
def toString (p : Path) : String :=
  if p.root = "" ∧ p.names = [] then "." else p.root ++ "/".intercalate p.names

/-- A path that starts at the root. -/
def isAbsolute (p : Path) : Bool := p.root != ""

/-- A path below another; an absolute path stands for itself. -/
def join (p q : Path) : Path := if q.isAbsolute then q else ⟨p.root, p.names ++ q.names⟩

/-- The path of a name below a path. -/
def child (p : Path) (name : String) : Path := ⟨p.root, p.names ++ [name]⟩

/-- The path without its last name. -/
def parent (p : Path) : Path := ⟨p.root, p.names.dropLast⟩

/-- The last name, or nothing. -/
def name (p : Path) : String := p.names.getLastD ""

/-- The names below another path, if the path lies below it. -/
def below? (p base : Path) : Option (List String) :=
  if p.root = base.root ∧ base.names <+: p.names then some (p.names.drop base.names.length)
  else none

/-- Takes a name back for every `..` that follows one; a `..` at the root is dropped. -/
def collapse (absolute : Bool) (names : List String) : List String :=
  (names.foldl (fun done n =>
    if n ≠ ".." then n :: done
    else match done with
      | [] => if absolute then [] else [n]
      | d :: r => if d = ".." then n :: done else r) []).reverse

/-- The absolute form of a text below a folder, with every `..` taken out. -/
def normalized (folder : Path) (s : String) : Path :=
  let p := folder.join (ofString s)
  ⟨p.root, collapse p.isAbsolute p.names⟩

/-- The order of lists of names: the first names that differ decide. -/
def namesLe : List String → List String → Bool
  | [], _ => true
  | _ :: _, [] => false
  | m :: ms, n :: ns => if m = n then namesLe ms ns else m ≤ n

/-- The order of paths, name by name. -/
def le (p q : Path) : Bool := namesLe (p.root :: p.names) (q.root :: q.names)

end Path

end LockAudit
