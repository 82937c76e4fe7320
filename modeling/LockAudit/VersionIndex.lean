/-!
# `LockAudit.VersionIndex` — resolved versions by package

For each package name the versions at which a dependency tree holds it, in the order in which they
were first met and each of them once. Names keep the order in which they were first met.

`versions_add` says what adding does to every answer: the new version goes to the end of its own
name's list unless it is there, and no other name's list changes.
-/

namespace LockAudit

/-- Package names with their versions, both in the order of their first addition. -/
structure VersionIndex where
  entries : List (String × List String)
  deriving DecidableEq, Repr

namespace VersionIndex

/-- The index without names. -/
def empty : VersionIndex := ⟨[]⟩

/-- Adds a version at the end unless it is there. -/
def addVersion (version : String) (vs : List String) : List String :=
  if version ∈ vs then vs else vs ++ [version]

/-- Adds a version to a name's entry, which is made at the end if it is missing. -/
def addEntry (name version : String) : List (String × List String) → List (String × List String)
  | [] => [(name, [version])]
  | (n, vs) :: r =>
    if n = name then (n, addVersion version vs) :: r else (n, vs) :: addEntry name version r

/-- Adds a version of a name. -/
def add (ix : VersionIndex) (name version : String) : VersionIndex :=
  ⟨addEntry name version ix.entries⟩

/-- The versions that go with a name in some entries. -/
def lookup (name : String) : List (String × List String) → List String
  | [] => []
  | (n, vs) :: r => if n = name then vs else lookup name r

/-- The versions of a name, in the order of their first addition. -/
def versions (ix : VersionIndex) (name : String) : List String := lookup name ix.entries

/-- The first version of a name. -/
def first? (ix : VersionIndex) (name : String) : Option String := (ix.versions name).head?

/-- The names of the index. -/
def names (ix : VersionIndex) : List String := ix.entries.map (·.1)

/-- Whether a name has been added. -/
def contains (ix : VersionIndex) (name : String) : Bool := ix.names.contains name

/-- The number of names. -/
def size (ix : VersionIndex) : Nat := ix.entries.length

theorem lookup_addEntry (name version other : String) (es : List (String × List String)) :
    lookup other (addEntry name version es)
      = if name = other then addVersion version (lookup other es) else lookup other es := by
  induction es with
  | nil => by_cases h : name = other <;> simp [addEntry, lookup, addVersion, h]
  | cons e r ih =>
    obtain ⟨n, vs⟩ := e
    by_cases hn : n = name
    · subst hn
      by_cases ho : n = other <;> simp [addEntry, lookup, ho]
    · by_cases ho : n = other
      · subst ho
        simp [addEntry, lookup, hn, Ne.symm hn]
      · simp [addEntry, lookup, hn, ho, ih]

/-- Adding changes the list of its own name alone. -/
theorem versions_add (ix : VersionIndex) (name version other : String) :
    (ix.add name version).versions other
      = if name = other then addVersion version (ix.versions other) else ix.versions other :=
  lookup_addEntry name version other ix.entries

end VersionIndex

end LockAudit
