import LockAudit.Path
import LockAudit.Text.Printable

/-!
# `LockAudit.FileTree` — a tree of files

The files that a scan sees, as a value: a file has bytes and may be executable, a folder lists its
entries. There are no links, so a path has one meaning: `..` leaves the folder it stands in, and
every name before the last must be a folder.

## Contents
- **`SystemError`**, the reasons for which a path cannot be used, with their numbers and texts.
- **Looking.** `find` walks a path from a folder; `readFile`, `isFile`, `isFolder`.
- **Changing.** `write`, `remove`, `makeFolders`.
- **Saving.** `makeFolder`, `ensureFolder`, `save`, which name the path that is refused.
-/

namespace LockAudit

/-- Why the system refuses a path. -/
inductive SystemError
  | noEntry
  | execFormat
  | noPermission
  | alreadyThere
  | notFolder
  | isFolder
  | nameTooLong
  deriving DecidableEq, Repr

/-- The number of a refusal. -/
def SystemError.number : SystemError → Nat
  | .noEntry => 2
  | .execFormat => 8
  | .noPermission => 13
  | .alreadyThere => 17
  | .notFolder => 20
  | .isFolder => 21
  | .nameTooLong => 36

/-- The words for a refusal. -/
def SystemError.reason : SystemError → String
  | .noEntry => "No such file or directory"
  | .execFormat => "Exec format error"
  | .noPermission => "Permission denied"
  | .alreadyThere => "File exists"
  | .notFolder => "Not a directory"
  | .isFolder => "Is a directory"
  | .nameTooLong => "File name too long"

/-- The number and the words of a refusal. -/
def SystemError.text (e : SystemError) : String :=
  "[Errno " ++ Nat.repr e.number ++ "] " ++ e.reason

/-- A refusal with the path in quotes. -/
def SystemError.message (e : SystemError) (path : String) : String :=
  e.text ++ ": " ++ Text.quoted path

/-- A file or a folder. -/
inductive FileTree
  | file (bytes : List UInt8) (executable : Bool)
  | folder (entries : List (String × FileTree))
  deriving Repr

namespace FileTree

/-- The longest name, in bytes. -/
def maxNameBytes : Nat := 255

/-- The entry of a folder with a name. -/
def lookup? (name : String) : List (String × FileTree) → Option FileTree
  | [] => none
  | (n, t) :: r => if n = name then some t else lookup? name r

/-- Walks names from a place, which is given with the folders above it, innermost first. -/
def walk (above : List FileTree) (here : FileTree) : List String → Except SystemError FileTree
  | [] => .ok here
  | n :: ns =>
    match here with
    | .file _ _ => .error .notFolder
    | .folder es =>
      if n = ".." then
        match above with
        | [] => walk [] here ns
        | up :: higher => walk higher up ns
      else if maxNameBytes < n.utf8ByteSize then .error .nameTooLong
      else match lookup? n es with
        | none => .error .noEntry
        | some t => walk (here :: above) t ns

/-- What an absolute path leads to from the root. -/
def find (root : FileTree) (p : Path) : Except SystemError FileTree := walk [] root p.names

/-- The bytes of a file. -/
def readFile (root : FileTree) (p : Path) : Except SystemError (List UInt8) :=
  match root.find p with
  | .ok (.file bytes _) => .ok bytes
  | .ok (.folder _) => .error .isFolder
  | .error e => .error e

/-- Whether there is anything at a path. -/
def contains (root : FileTree) (p : Path) : Bool := (root.find p).isOk

/-- Whether a path leads to a file. -/
def isFile (root : FileTree) (p : Path) : Bool :=
  match root.find p with
  | .ok (.file _ _) => true
  | _ => false

/-- Whether a path leads to a folder. -/
def isFolder (root : FileTree) (p : Path) : Bool :=
  match root.find p with
  | .ok (.folder _) => true
  | _ => false

/-- Gives a name an entry, in its place if the name is there, else at the end. -/
def putEntry (name : String) (t : FileTree) :
    List (String × FileTree) → List (String × FileTree)
  | [] => [(name, t)]
  | (n, u) :: r => if n = name then (n, t) :: r else (n, u) :: putEntry name t r

/-- Puts a tree at a path. Missing folders on the way are made; a file on the way is an error, and
    so is a folder in the place of a file. -/
def write (t : FileTree) : List String → FileTree → Except SystemError FileTree
  | [], .folder _ => .error .isFolder
  | [], .file _ _ => .ok t
  | _ :: _, .file _ _ => .error .notFolder
  | [n], .folder es =>
    match lookup? n es with
    | none => .ok (.folder (putEntry n t es))
    | some u => do
      let u ← write t [] u
      pure (.folder (putEntry n u es))
  | n :: ns, .folder es => do
    let u ← write t ns ((lookup? n es).getD (.folder []))
    pure (.folder (putEntry n u es))

/-- Makes the folders of a path that are missing. -/
def makeFolders : List String → FileTree → Except SystemError FileTree
  | [], .folder es => .ok (.folder es)
  | [], .file _ _ => .error .notFolder
  | _ :: _, .file _ _ => .error .notFolder
  | n :: ns, .folder es => do
    let u ← makeFolders ns ((lookup? n es).getD (.folder []))
    pure (.folder (putEntry n u es))

/-- The tree without what stands at a path; nothing there leaves it as it is. -/
def remove : List String → FileTree → FileTree
  | [], t => t
  | _ :: _, .file b x => .file b x
  | [n], .folder es => .folder (es.filter fun e => e.1 ≠ n)
  | n :: ns, .folder es =>
    match lookup? n es with
    | none => .folder es
    | some u => .folder (putEntry n (remove ns u) es)

/-! ## Saving -/

/-- Makes one folder. Nothing may stand in its place, and the folder that it is to stand in must be
    there. -/
def makeFolder (p : Path) (root : FileTree) : Except SystemError FileTree :=
  match root.find p with
  | .ok _ => .error .alreadyThere
  | .error .noEntry =>
    match root.find p.parent with
    | .ok _ => makeFolders (Path.collapse true p.names) root
    | .error e => .error e
  | .error e => .error e

/-- A path that the system refuses, and why. -/
structure Refused where
  error : SystemError
  path : Path
  deriving DecidableEq, Repr

/-- The words for a refused path. -/
def Refused.message (r : Refused) : String := r.error.message r.path.toString

/-- Makes a folder unless it is there, where a path is meant below another. -/
def makeUnlessThere (here p : Path) (root : FileTree) : Except Refused FileTree :=
  match makeFolder (here.join p) root with
  | .ok root => .ok root
  | .error e => if root.isFolder (here.join p) then .ok root else .error ⟨e, p⟩

/-- Makes a folder and those above it, up to a number of them, if they are missing. -/
def ensureFolder (here : Path) : Nat → Path → FileTree → Except Refused FileTree
  | 0, p, root => makeUnlessThere here p root
  | n + 1, p, root =>
    match makeFolder (here.join p) root with
    | .error .noEntry => do
      let root ← ensureFolder here n p.parent root
      makeUnlessThere here p root
    | _ => makeUnlessThere here p root

/-- Saves bytes in a file and makes the folders above it that are missing. A file that is there stays
    executable if it was. -/
def save (here p : Path) (bytes : List UInt8) (root : FileTree) : Except Refused FileTree := do
  let root ← ensureFolder here p.names.length p.parent root
  let place := Path.collapse true (here.join p).names
  let put (x : Bool) : Except Refused FileTree :=
    match write (.file bytes x) place root with
    | .ok root => .ok root
    | .error e => .error ⟨e, p⟩
  match root.find (here.join p) with
  | .ok (.folder _) => .error ⟨.isFolder, p⟩
  | .ok (.file _ x) => put x
  | .error .noEntry => put false
  | .error e => .error ⟨e, p⟩

end FileTree

end LockAudit
