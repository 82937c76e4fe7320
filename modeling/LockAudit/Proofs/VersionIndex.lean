import Mathlib.Data.Finset.Card
import Mathlib.Data.List.Induction
import LockAudit.VersionIndex

/-!
# `LockAudit.Proofs.VersionIndex` — an index as the history of its additions

An index is filled one version at a time. What it answers is read off the row of these additions:

* `versions_addAll` — the versions of a name are those added under it, each once, in the order of their
  first addition.
* `names_addAll` — its names are those under which something was added, in the same way.

Between the additions an index may be asked anything. `answers_of_history` says what a row of calls is answered:
each answer is a function of the additions before it (`Call.told`), whatever was asked in between.
-/

namespace LockAudit.VersionIndex

/-- Adds versions of names, one after the other. -/
def addAll (ix : VersionIndex) (adds : List (String × String)) : VersionIndex :=
  adds.foldl (fun ix a => ix.add a.1 a.2) ix

variable {ix : VersionIndex} {name version : String}

theorem addAll_append (ix : VersionIndex) (adds more : List (String × String)) :
    ix.addAll (adds ++ more) = (ix.addAll adds).addAll more :=
  List.foldl_append

/-! ## One addition -/

theorem nodup_addVersion {s : String} {l : List String} (h : l.Nodup) : (addVersion s l).Nodup := by
  rw [addVersion]
  split
  · exact h
  · next hs =>
    refine List.nodup_append.mpr ⟨h, List.nodup_singleton s, ?_⟩
    rintro t ht u hu rfl
    exact hs (List.mem_singleton.mp hu ▸ ht)

theorem addEntry_of_mem {es : List (String × List String)} (h : version ∈ lookup name es) :
    addEntry name version es = es := by
  induction es with
  | nil => cases h
  | cons e es ih =>
    obtain ⟨n, vs⟩ := e
    rw [lookup] at h
    rw [addEntry]
    by_cases hn : n = name
    · rw [if_pos hn] at h
      rw [if_pos hn, addVersion, if_pos h]
    · rw [if_neg hn] at h
      rw [if_neg hn, ih h]

/-- Adding what is there changes nothing. -/
theorem add_of_mem (h : version ∈ ix.versions name) : ix.add name version = ix := by
  cases ix
  exact congrArg mk (addEntry_of_mem h)

/-- Adding at the end unless it is there keeps the first of equal texts. -/
theorem addVersion_eraseDups (s : String) (l : List String) :
    addVersion s l.eraseDups = (l ++ [s]).eraseDups := by
  rw [List.eraseDups_append, addVersion]
  by_cases hs : s ∈ l
  · simp [hs, List.removeAll]
  · simp [hs, List.removeAll, List.eraseDups_cons]

theorem names_addEntry (name version : String) (es : List (String × List String)) :
    (addEntry name version es).map (·.1) = addVersion name (es.map (·.1)) := by
  induction es with
  | nil => rfl
  | cons e es ih =>
    obtain ⟨n, vs⟩ := e
    by_cases hn : n = name
    · simp [addEntry, addVersion, hn]
    · rw [addEntry, if_neg hn, List.map_cons, ih, addVersion, addVersion]
      by_cases hname : name ∈ es.map (·.1)
      · simp [hname]
      · simp [hname, Ne.symm hn]

/-- A name is added at the end unless it is there. -/
theorem names_add (ix : VersionIndex) (name version : String) :
    (ix.add name version).names = addVersion name ix.names :=
  names_addEntry name version ix.entries

/-! ## All additions -/

/-- **The versions of a name are those that were added under it**, each where it was added first. -/
theorem versions_addAll (adds : List (String × String)) (name : String) :
    (empty.addAll adds).versions name = ((adds.filter (·.1 = name)).map (·.2)).eraseDups := by
  induction adds using List.reverseRecOn with
  | nil => rfl
  | append_singleton adds a ih =>
    rw [addAll_append]
    show ((empty.addAll adds).add a.1 a.2).versions name = _
    rw [versions_add, ih, List.filter_append, List.map_append]
    by_cases hname : a.1 = name
    · simp [hname, addVersion_eraseDups]
    · simp [hname]

/-- **The names are those under which something was added**, each where it was added first. -/
theorem names_addAll (adds : List (String × String)) :
    (empty.addAll adds).names = (adds.map (·.1)).eraseDups := by
  induction adds using List.reverseRecOn with
  | nil => rfl
  | append_singleton adds a ih =>
    rw [addAll_append]
    show ((empty.addAll adds).add a.1 a.2).names = _
    rw [names_add, ih, addVersion_eraseDups, List.map_append]
    rfl

theorem contains_addAll_iff {adds : List (String × String)} :
    (empty.addAll adds).contains name = true ↔ ∃ a ∈ adds, a.1 = name := by
  rw [contains, names_addAll, List.contains_iff_mem, List.mem_eraseDups, List.mem_map]

theorem size_addAll (adds : List (String × String)) :
    (empty.addAll adds).size = (adds.map (·.1)).eraseDups.length := by
  rw [← names_addAll, names, List.length_map, size]

theorem nodup_names_addAll (adds : List (String × String)) : (empty.addAll adds).names.Nodup := by
  induction adds using List.reverseRecOn with
  | nil => exact List.nodup_nil
  | append_singleton adds a ih =>
    rw [addAll_append]
    show ((empty.addAll adds).add a.1 a.2).names.Nodup
    rw [names_add]
    exact nodup_addVersion ih

/-- An index has as many names as there are under which something was added. -/
theorem size_eq_card (adds : List (String × String)) :
    (empty.addAll adds).size = (adds.map (·.1)).toFinset.card := by
  have hnames : (empty.addAll adds).names.toFinset = (adds.map (·.1)).toFinset := by
    ext name
    rw [List.mem_toFinset, List.mem_toFinset, names_addAll, List.mem_eraseDups]
  rw [← hnames, List.toFinset_card_of_nodup (nodup_names_addAll adds), names, List.length_map, size]

theorem head?_eraseDups (l : List String) : l.eraseDups.head? = l.head? := by
  cases l with
  | nil => rfl
  | cons s l => rw [List.eraseDups_cons, List.head?_cons, List.head?_cons]

/-- The first version of a name is the first that was ever added under it. -/
theorem first?_addAll (adds : List (String × String)) (name : String) :
    (empty.addAll adds).first? name = (adds.find? (·.1 = name)).map (·.2) := by
  rw [first?, versions_addAll, head?_eraseDups, List.head?_map, List.head?_filter]

theorem contains_addAll (adds : List (String × String)) (name : String) :
    (empty.addAll adds).contains name = adds.any (·.1 = name) := by
  rw [Bool.eq_iff_iff, contains_addAll_iff, List.any_eq_true]
  simp only [decide_eq_true_eq]

/-! ## Calls -/

/-- A call on an index: something is added, or something is asked. -/
inductive Call
  | add (name version : String)
  | first (name : String)
  | versions (name : String)
  | contains (name : String)
  | size
  deriving DecidableEq, Repr

/-- What a call is answered. Adding has no answer. -/
inductive Answer
  | done
  | version (v : Option String)
  | versions (vs : List String)
  | truth (b : Bool)
  | number (n : Nat)
  deriving DecidableEq, Repr

namespace Call

/-- The index after a call. -/
def act (ix : VersionIndex) : Call → VersionIndex
  | .add name version => ix.add name version
  | .first _ | .versions _ | .contains _ | .size => ix

/-- What an index answers. -/
def answer (ix : VersionIndex) : Call → Answer
  | .add _ _ => .done
  | .first name => .version (ix.first? name)
  | .versions name => .versions (ix.versions name)
  | .contains name => .truth (ix.contains name)
  | .size => .number ix.size

/-- What a call adds. -/
def addition? : Call → Option (String × String)
  | .add name version => some (name, version)
  | .first _ | .versions _ | .contains _ | .size => none

/-- The name that is asked about. -/
def asked? : Call → Option String
  | .first name | .versions name | .contains name => some name
  | .add _ _ | .size => none

/-- The answer that the additions before a call tell. The first version of a name is the first that was added
    under it; its versions are all that were added under it, each where it was added first; and names count
    once, however much is added under them. -/
def told (adds : List (String × String)) : Call → Answer
  | .add _ _ => .done
  | .first name => .version ((adds.find? (·.1 = name)).map (·.2))
  | .versions name => .versions ((adds.filter (·.1 = name)).map (·.2)).eraseDups
  | .contains name => .truth (adds.any (·.1 = name))
  | .size => .number (adds.map (·.1)).toFinset.card

end Call

/-- The index after a row of calls. -/
def after (ix : VersionIndex) (calls : List Call) : VersionIndex := calls.foldl Call.act ix

/-- The answers to a row of calls, each by the index as the calls before it have left it. -/
def answers (ix : VersionIndex) : List Call → List Answer
  | [] => []
  | c :: calls => c.answer ix :: (c.act ix).answers calls

/-- What a row of calls adds. -/
def additions (calls : List Call) : List (String × String) := calls.filterMap Call.addition?

theorem answers_append (ix : VersionIndex) (before calls : List Call) :
    ix.answers (before ++ calls) = ix.answers before ++ (ix.after before).answers calls := by
  induction before generalizing ix with
  | nil => rfl
  | cons c before ih =>
    show c.answer ix :: (c.act ix).answers (before ++ calls) = _
    rw [ih]
    rfl

theorem length_answers (ix : VersionIndex) (calls : List Call) : (ix.answers calls).length = calls.length := by
  induction calls generalizing ix with
  | nil => rfl
  | cons c calls ih => exact congrArg (· + 1) (ih (c.act ix))

/-- Asking leaves an index as it was. -/
theorem after_eq (ix : VersionIndex) (calls : List Call) : ix.after calls = ix.addAll (additions calls) := by
  induction calls generalizing ix with
  | nil => rfl
  | cons c calls ih =>
    show (c.act ix).after calls = _
    rw [ih, additions]
    cases c with
    | add name version => rfl
    | first name => rfl
    | versions name => rfl
    | contains name => rfl
    | size => rfl

/-- An index answers what its history tells. -/
theorem answer_addAll (adds : List (String × String)) (c : Call) :
    c.answer (empty.addAll adds) = c.told adds := by
  cases c with
  | add name version => rfl
  | first name => exact congrArg Answer.version (first?_addAll adds name)
  | versions name => exact congrArg Answer.versions (versions_addAll adds name)
  | contains name => exact congrArg Answer.truth (contains_addAll adds name)
  | size => exact congrArg Answer.number (size_eq_card adds)

theorem mem_addVersion_of_ne {s t : String} {l : List String} (h : s ≠ t) : t ∈ addVersion s l ↔ t ∈ l := by
  rw [addVersion]
  split
  · rfl
  · rw [List.mem_append, List.mem_singleton, or_iff_left (Ne.symm h)]

/-- Adding under one name changes no answer about another. -/
theorem answer_add_of_ne {other : String} (h : name ≠ other) {c : Call} (hc : c.asked? = some other) :
    c.answer (ix.add name version) = c.answer ix := by
  have hversions : (ix.add name version).versions other = ix.versions other := by
    rw [versions_add, if_neg h]
  cases c with
  | add _ _ => cases hc
  | size => cases hc
  | first n =>
    cases hc
    exact congrArg Answer.version (congrArg List.head? hversions)
  | versions n =>
    cases hc
    exact congrArg Answer.versions hversions
  | contains n =>
    cases hc
    refine congrArg Answer.truth ?_
    -- The names are the only part that may grow, by the name that was added under.
    rw [Bool.eq_iff_iff, contains, contains, List.contains_iff_mem, List.contains_iff_mem, names_add]
    exact mem_addVersion_of_ne h

/-- Adding again what was added before changes nothing. -/
theorem add_of_mem_additions {calls : List Call} (h : (name, version) ∈ additions calls) :
    (empty.after calls).add name version = empty.after calls := by
  apply add_of_mem
  rw [after_eq, versions_addAll, List.mem_eraseDups, List.mem_map]
  exact ⟨(name, version), List.mem_filter.mpr ⟨h, by simp⟩, rfl⟩

/-- **An index is the history of its additions.** In every row of calls on a new index, each call is answered
    what the additions before it tell, whatever was asked in between. Adding under one name changes no answer
    about another, and adding again what was added before changes nothing at all. -/
theorem answers_of_history :
    (∀ before c later, (empty.answers (before ++ c :: later))[before.length]? =
      some (c.told (additions before))) ∧
    (∀ calls name version other, name ≠ other → ∀ c : Call, c.asked? = some other →
      c.answer ((empty.after calls).add name version) = c.answer (empty.after calls)) ∧
    (∀ calls name version, (name, version) ∈ additions calls →
      (empty.after calls).add name version = empty.after calls) := by
  refine ⟨?_, ?_, ?_⟩
  · intro before c later
    rw [answers_append, ← length_answers empty before, List.getElem?_append_right (Nat.le_refl _), Nat.sub_self]
    show some (c.answer (empty.after before)) = _
    rw [after_eq, answer_addAll]
  · intro calls name version other h c hc
    exact answer_add_of_ne h hc
  · intro calls name version h
    exact add_of_mem_additions h

/-- A version that is added twice, with questions in between. -/
def sampleCalls : List Call :=
  [.add "ms" "2.1.3", .first "ms", .add "debug" "4.0.0", .add "ms" "2.0.0", .size, .add "ms" "2.1.3"]

/-- Behind these calls the versions stand in the order of their first addition, another name does not matter to
    them, and the version that was added twice is there once. -/
theorem answers_of_history_sample :
    (empty.answers (sampleCalls ++ [.versions "ms"]))[6]? = some (.versions ["2.1.3", "2.0.0"]) ∧
    (Call.first "ms").answer ((empty.after sampleCalls).add "debug" "3.0.0") = .version (some "2.1.3") ∧
    (empty.after sampleCalls).add "debug" "4.0.0" = empty.after sampleCalls := by
  obtain ⟨hanswers, hother, hagain⟩ := answers_of_history
  refine ⟨?_, ?_, ?_⟩
  · exact (hanswers sampleCalls (.versions "ms") []).trans (by decide)
  · exact (hother sampleCalls "debug" "3.0.0" "ms" (by decide) (.first "ms") rfl).trans (by decide)
  · exact hagain sampleCalls "debug" "4.0.0" (by decide)

end LockAudit.VersionIndex
