import LockAudit.Analysis
import LockAudit.Text.Glob

/-!
# `LockAudit.Discovery` — finding lockfiles

A search walks a folder, leaves out the folders that hold no sources of the project, and returns the
files whose names match a pattern, in the order of their paths. A limit cuts the search short after
the file that reaches it.

`discover` finds the lockfiles of a workspace and names each by its path below the workspace.
-/

namespace LockAudit.Discovery

open LockAudit.Text

/-- The folders that are not searched. -/
def excludedFolders : List String :=
  [".git", ".hg", ".svn", ".venv", "venv", ".tox", "__pycache__", "node_modules", ".yarn", "vendor",
    "dist", "build"]

/-- The patterns without blanks around them, and without those that are blank. -/
def cleanPatterns (patterns : List String) : List String :=
  (patterns.map trimString).filter (· ≠ "")

/-- The names of the files among some entries, below a place. -/
def filesIn (place : List String) (entries : List (String × FileTree)) : List (List String) :=
  entries.filterMap fun e =>
    match e.2 with
    | .file _ _ => some (place ++ [e.1])
    | .folder _ => none

mutual

/-- All files below a place, except those in excluded folders. The files of a folder come before
    those of the folders in it. -/
def walk (excluded place : List String) : FileTree → List (List String)
  | .file _ _ => []
  | .folder entries => filesIn place entries ++ walkEntries excluded place entries

/-- The files in the folders among some entries. -/
def walkEntries (excluded place : List String) : List (String × FileTree) → List (List String)
  | [] => []
  | (n, t) :: r =>
    (if excluded.contains n then [] else walk excluded (place ++ [n]) t)
      ++ walkEntries excluded place r

end

/-- The files that are wanted among those to which a search comes, after it has found some. The limit is
    looked at whenever another file has been found, and ends the search where it is reached. -/
def search (limit : Option Int) (wanted : List String → Bool) (count : Nat) :
    List (List String) → List (List String)
  | [] => []
  | names :: rest =>
    if wanted names then
      let count := count + 1
      if limit.any (· ≤ (count : Int)) then [names] else names :: search limit wanted count rest
    else search limit wanted count rest

/-- The files below a folder whose names match one of some patterns. -/
def findFiles (files : FileTree) (root : Path) (patterns : List String) (limit : Option Int)
    (excluded : List String) : List Path :=
  let patterns := cleanPatterns patterns
  match files.find root with
  | .error _ => []
  | .ok tree =>
    let wanted := fun names : List String => patterns.any fun p => Glob.accepts p (names.getLastD "")
    ((search limit wanted 0 (walk excluded [] tree)).map fun names =>
      ⟨root.root, root.names ++ names⟩).mergeSort Path.le

/-- The path of a file below a folder, or its whole path. -/
def displayName (root file : Path) : String :=
  match file.below? root with
  | some names => Path.toString ⟨"", names⟩
  | none => file.toString

/-- The lockfiles of a workspace. -/
def discover (files : FileTree) (root : Path) : List Lockfile :=
  (findFiles files root [Lockfile.fileName] none excludedFolders).map fun file =>
    ⟨file, displayName root file⟩

end LockAudit.Discovery
