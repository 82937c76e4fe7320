import LockAudit.Proofs.Payload.Nodes

/-!
# `LockAudit.Proofs.Payload.Index` — the index of a payload

The index of a payload is collected while its tree is walked, and a package's name is cut out of the text
of the path to its node. Both are shown to be harmless here:

* `packageName_append` — a path's text gives back its last key, unless this key has the sign that
  separates keys;
* `mem_versions_index` — without such keys the index lists, for every name, exactly the versions at which
  the tree holds it.
-/

namespace LockAudit

open LockAudit.Text

/-! ## Names -/

namespace Payload

/-- The sign that separates the keys of a path. -/
def pathSign : Char := '>'

/-- A key that a path's text gives back. -/
def IsPlainKey (key : String) : Prop := pathSign ∉ key.toList

theorem afterLast?_of_not_mem {s : List Char} (h : pathSign ∉ s) :
    afterLast? [' ', pathSign, ' '] s = none := by
  induction s with
  | nil => rfl
  | cons c r ih =>
    have hr : pathSign ∉ r := fun hr => h (List.mem_cons_of_mem c hr)
    have hprefix : List.isPrefixOf [' ', pathSign, ' '] (c :: r) = false := by
      rw [← Bool.not_eq_true, List.isPrefixOf_iff_prefix]
      intro hp
      exact h (hp.subset (by simp))
    simp [afterLast?, ih hr, hprefix]

/-- The last separator is the one before a text without its sign. -/
theorem afterLast?_append (s : List Char) {k : List Char} (h : pathSign ∉ k) :
    afterLast? [' ', pathSign, ' '] (s ++ [' ', pathSign, ' '] ++ k) = some k := by
  induction s with
  | nil =>
    have hblank : pathSign ∉ ' ' :: k := by
      intro hk
      rcases List.mem_cons.mp hk with hk | hk
      · exact absurd hk (by decide)
      · exact h hk
    -- Behind the separator there is no other, and it begins at none but its first character.
    have htail := afterLast?_of_not_mem hblank
    have hmid : List.isPrefixOf [' ', pathSign, ' '] (pathSign :: ' ' :: k) = false := rfl
    have hfront : List.isPrefixOf [' ', pathSign, ' '] (' ' :: pathSign :: ' ' :: k) = true := by
      simp [List.isPrefixOf]
    show afterLast? _ (' ' :: pathSign :: ' ' :: k) = some k
    rw [afterLast?, afterLast?, htail, hmid, hfront]
    rfl
  | cons c s ih =>
    rw [List.cons_append, List.cons_append, afterLast?, ih]

/-- **A path's text gives back its last key.** -/
theorem packageName_append (path : List String) {key : String} (h : IsPlainKey key) :
    packageName (path ++ [key]) = key := by
  have hsign : " > ".toList = [' ', pathSign, ' '] := by decide
  by_cases hp : path = []
  · have htext : (pathText (path ++ [key])).toList = key.toList := by
      rw [hp, List.nil_append, pathText, String.intercalate_singleton]
    simp only [packageName, htext, hsign, afterLast?_of_not_mem h, Option.getD_none,
      String.ofList_toList]
  · have htext : (pathText (path ++ [key])).toList =
        (pathText path).toList ++ [' ', pathSign, ' '] ++ key.toList := by
      rw [pathText, String.intercalate_append_of_ne_nil hp (List.cons_ne_nil _ _),
        String.intercalate_singleton, String.toList_append, String.toList_append, hsign, pathText]
    simp only [packageName, htext, hsign, afterLast?_append _ h, Option.getD_some,
      String.ofList_toList]

end Payload

/-! ## Versions -/

theorem VersionIndex.mem_versions_add {ix : VersionIndex} {name version other v : String} :
    v ∈ (ix.add name version).versions other ↔
      v ∈ ix.versions other ∨ (name = other ∧ version = v) := by
  rw [versions_add]
  by_cases hn : name = other
  · rw [if_pos hn, addVersion]
    by_cases hmem : version ∈ ix.versions other
    · rw [if_pos hmem]
      constructor
      · exact .inl
      · rintro (h | ⟨-, rfl⟩)
        · exact h
        · exact hmem
    · rw [if_neg hmem, List.mem_append, List.mem_singleton]
      simp [hn, eq_comm]
  · simp [hn]

theorem VersionIndex.versions_empty (name : String) : VersionIndex.empty.versions name = [] := rfl

namespace Payload

/-- All keys of a tree are given back by the texts of their paths. -/
def PlainKeys (ns : List (String × Node)) : Prop := ∀ key version, Holds ns key version → IsPlainKey key

/-- Without the separating sign in a key of the request, no key of the payload has it. -/
theorem plainKeys_of_build {policy : DevPolicy} {request : Json} {m : Manifest} {skip : Bool}
    {p : Payload} (hbuild : build policy request m skip = .ok p)
    (h : ∀ key entry, request.Dependency key entry → IsPlainKey key) : PlainKeys p.dependencies := by
  intro key version hholds
  obtain ⟨entry, hentry⟩ := dependency_of_holds_build hbuild hholds
  exact h key entry hentry

mutual

/-- Walking a node adds its own version under its name, and what its tree holds. -/
theorem mem_versions_indexNode (n : Node) (path : List String) (ix : VersionIndex)
    (h : PlainKeys n.children) {name v : String} :
    v ∈ (indexNode path ix n).versions name ↔
      v ∈ ix.versions name ∨ (packageName path = name ∧ n.version = v) ∨
        Holds n.children name v := by
  match n with
  | .mk version integrity requires dev none =>
    have hnone : ¬ Holds (Node.mk version integrity requires dev none).children name v :=
      not_holds_nil
    rw [indexNode, indexNested, VersionIndex.mem_versions_add]
    simp [hnone, Node.version]
  | .mk version _ _ _ (some ns) =>
    -- The node's own version is added before what is below it.
    rw [indexNode, indexNested, mem_versions_indexNodes ns path _ h, VersionIndex.mem_versions_add,
      or_assoc]
    rfl

/-- Walking nodes adds what their trees hold. -/
theorem mem_versions_indexNodes (ns : List (String × Node)) (path : List String) (ix : VersionIndex)
    (h : PlainKeys ns) {name v : String} :
    v ∈ (indexNodes path ix ns).versions name ↔ v ∈ ix.versions name ∨ Holds ns name v := by
  match ns with
  | [] => simp [indexNodes, not_holds_nil]
  | (key, n) :: r =>
    have hkey : IsPlainKey key := h key n.version (.here List.mem_cons_self)
    have hchildren : PlainKeys n.children := fun k w hk =>
      h k w (.deeper List.mem_cons_self hk)
    have hrest : PlainKeys r := fun k w hk => h k w (holds_cons_iff.mpr (.inr (.inr hk)))
    rw [indexNodes, mem_versions_indexNodes r path _ hrest,
      mem_versions_indexNode n (path ++ [key]) ix hchildren, packageName_append path hkey,
      holds_cons_iff]
    simp only [or_assoc]

end

/-- **The index lists what the tree holds**, and nothing else. -/
theorem mem_versions_index {p : Payload} (h : PlainKeys p.dependencies) {name v : String} :
    v ∈ p.index.versions name ↔ Holds p.dependencies name v := by
  rw [index, mem_versions_indexNodes p.dependencies [] .empty h, VersionIndex.versions_empty]
  simp

end Payload

end LockAudit
