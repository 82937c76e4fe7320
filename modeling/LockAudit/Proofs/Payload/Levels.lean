import LockAudit.Proofs.Json.Exact
import LockAudit.Proofs.Payload.Pruning

/-!
# `LockAudit.Proofs.Payload.Levels` — a request, read level by level

Building a payload sorts the whole request first and reads it then, so that reading is by recursion on
what is read. Nothing is read that way that could not be read from the request as it was written, if
the names of each level are put in order when the level is come to:

* `node_sorted` — an entry has its version, integrity, ranges and mark as they were written, and below it
  what is read from the level below (`readBelow`).
* `children_sortedMembers` — a level is read one entry after the other, without those that are left out
  (`readEach`); the first fault of a level is that of the first faulty entry by name.
* `build_by_levels` — so is the level at the top, from which a policy may leave out more.
-/

namespace LockAudit

/-! ## Sorted members -/

namespace Json

variable (ms : List (String × Json))

/-- The order of members and what is below them are sorted independently. -/
theorem sort_sortedMembers : Pairs.sort (sortedMembers ms) = sortedMembers (Pairs.sort ms) := by
  rw [sortedMembers_eq_map, sortedMembers_eq_map, Pairs.sort_map]

theorem filter_sortedMembers (keep : String → Bool) :
    (sortedMembers ms).filter (fun e => keep e.1) = sortedMembers (ms.filter fun e => keep e.1) := by
  rw [sortedMembers_eq_map, sortedMembers_eq_map, List.filter_map]
  rfl

theorem get?_sorted (name : String) :
    Pairs.get? name (Pairs.sort (sortedMembers ms)) = (Pairs.get? name ms).map sorted := by
  rw [Pairs.get?_sort, get?_sortedMembers]

variable (v : Json)

@[simp] theorem str?_sorted : v.sorted.str? = v.str? := by cases v <;> simp [sorted, str?]

@[simp] theorem bool?_sorted : v.sorted.bool? = v.bool? := by cases v <;> simp [sorted, bool?]

end Json

namespace Payload

open Json (sortedMembers)

/-! ## Levels -/

/-- Reads entries as they were written, one after the other, without those that are left out. -/
def readEach (skip : Bool) (path : List String) (es : List (String × Json)) :
    Except Fault (List (String × Node)) :=
  (es.filter fun e => !(skip && isMarked e.2)).mapM fun e =>
    (e.1, ·) <$> node skip (path ++ [e.1]) e.2.sorted

/-- Reads what was written below an entry, in the order of the names. -/
def readBelow (skip : Bool) (path : List String) :
    Option Json → Except Fault (Option (List (String × Node)))
  | none => .ok none
  | some (.obj es) => some <$> readEach skip path (Pairs.sort es)
  | some _ => .error (.dependenciesNotObject path)

variable (skip : Bool) (path : List String)

theorem isMarked_sorted (entry : Json) : isMarked entry.sorted = isMarked entry := by
  rw [isMarked, isMarked, Json.member?_sorted]
  cases entry.member? "dev" with
  | none => rfl
  | some v => exact congrArg (· == some true) v.bool?_sorted

theorem children_sortedMembers (es : List (String × Json)) :
    children skip path (sortedMembers es) = readEach skip path es := by
  induction es with
  | nil =>
    rw [sortedMembers, children]
    rfl
  | cons e es ih =>
    obtain ⟨key, value⟩ := e
    rw [sortedMembers, children, isMarked_sorted, ih, readEach, readEach, List.filter_cons]
    cases skip && isMarked value with
    | true => rfl
    | false =>
      rw [if_neg Bool.false_ne_true, Bool.not_false, if_pos rfl, List.mapM_cons]
      cases node skip (path ++ [key]) value.sorted <;> rfl

theorem nested_sortedMembers (ms : List (String × Json)) :
    nested skip path (sortedMembers ms) = readBelow skip path (Pairs.get? "dependencies" ms) := by
  induction ms with
  | nil =>
    rw [sortedMembers, nested]
    rfl
  | cons m ms ih =>
    obtain ⟨key, value⟩ := m
    rw [sortedMembers, Pairs.get?]
    by_cases hk : key = "dependencies"
    · rw [if_pos hk]
      cases value with
      | obj es =>
        rw [Json.sorted, nested, if_pos hk, Json.sort_sortedMembers, children_sortedMembers, readBelow]
        cases readEach skip path (Pairs.sort es) <;> rfl
      | _ => simp [Json.sorted, nested, hk, readBelow]
    · rw [if_neg hk, nested_of_ne hk, ih]

/-! ## Entries -/

theorem entryVersion_sorted (ms : List (String × Json)) :
    entryVersion path (Pairs.sort (sortedMembers ms)) = entryVersion path ms := by
  rw [entryVersion, entryVersion, Json.get?_sorted]
  cases Pairs.get? "version" ms with
  | none => rfl
  | some v => cases v <;> rfl

theorem entryRequires_sorted (ms : List (String × Json)) :
    entryRequires path (Pairs.sort (sortedMembers ms)) =
      Option.map (fun rs => Pairs.sort (sortedMembers rs)) <$> entryRequires path ms := by
  rw [entryRequires, entryRequires, Json.get?_sorted]
  cases Pairs.get? "requires" ms with
  | none => rfl
  | some v => cases v <;> rfl

/-- **An entry is read level by level.** Only the ranges that it requires are sorted on all levels at once,
    which does not show in a text: writing them sorts them anyway (`Json.compactChars_sorted`). -/
theorem node_sorted (ms : List (String × Json)) :
    node skip path (Json.obj ms).sorted = (do
      let version ← entryVersion path ms
      let requires ← entryRequires path ms
      let dependencies ← readBelow skip path (Pairs.get? "dependencies" ms)
      pure (.mk version ((Pairs.get? "integrity" ms).bind Json.str?)
        (requires.map fun rs => Pairs.sort (sortedMembers rs))
        ((Pairs.get? "dev" ms).bind Json.bool?) dependencies)) := by
  have hnested : nested skip path (Pairs.sort (sortedMembers ms)) =
      readBelow skip path (Pairs.get? "dependencies" ms) := by
    rw [Json.sort_sortedMembers, nested_sortedMembers, Pairs.get?_sort]
  have hintegrity : (Pairs.get? "integrity" (Pairs.sort (sortedMembers ms))).bind Json.str? =
      (Pairs.get? "integrity" ms).bind Json.str? := by
    rw [Json.get?_sorted]
    cases Pairs.get? "integrity" ms <;> simp
  have hdev : (Pairs.get? "dev" (Pairs.sort (sortedMembers ms))).bind Json.bool? =
      (Pairs.get? "dev" ms).bind Json.bool? := by
    rw [Json.get?_sorted]
    cases Pairs.get? "dev" ms <;> simp
  rw [Json.sorted, node, entryVersion_sorted, entryRequires_sorted, hnested, hintegrity, hdev]
  cases entryRequires path ms <;> rfl

/-! ## The top -/

theorem topEntries_sorted (request : Json) :
    topEntries request.sorted = (fun es => sortedMembers (Pairs.sort es)) <$> topEntries request := by
  cases request with
  | obj ms =>
    rw [Json.sorted, topEntries, topEntries, Json.get?_sorted]
    cases Pairs.get? "dependencies" ms with
    | none => rfl
    | some v =>
      cases v with
      | obj es =>
        simp only [Option.map_some, Json.sorted, Json.sort_sortedMembers]
        rfl
      | _ => rfl
  | _ => rfl

/-- **A payload is built level by level**, from the request as it was written. -/
theorem build_by_levels (policy : DevPolicy) (request : Json) (m : Manifest) (skipDev : Bool) :
    build policy request m skipDev = (do
      let entries ← topEntries request
      let kept := (Pairs.sort entries).filter fun e =>
        !(skipDev && policy == .declared && isDevOnly m e.1)
      let dependencies ← readEach (skipDev && policy == .flagged) [] kept
      pure ⟨filled m.name, filled m.version, registryRanges m skipDev, dependencies, skipDev⟩) := by
  rw [build, topEntries_sorted]
  cases topEntries request with
  | error f => rfl
  | ok es =>
    have hkept := Json.filter_sortedMembers (Pairs.sort es) fun name =>
      !(skipDev && policy == .declared && isDevOnly m name)
    show (children _ [] ((sortedMembers (Pairs.sort es)).filter _) >>= _) = _
    rw [hkept, children_sortedMembers]
    rfl

end Payload

end LockAudit
