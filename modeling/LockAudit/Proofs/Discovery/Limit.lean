import LockAudit.Proofs.Discovery

/-!
# `LockAudit.Proofs.Discovery.Limit` — a search with a limit

A search with a limit ends at the file that reaches the limit, wherever in the tree that file is, and sorts what
it has found until then. What it has found is the beginning of what a full search finds (`search_eq`), and
sorting a part gives a part of the sorted whole. So a limited search returns some of the files of a full one, in
their order (`sublist_findFiles`).

How many these are is the limit, or all if there are fewer. The limit of zero is the exception: the search looks
at its limit when it has found a file, and not before (`findFiles_limit_iff`).
-/

namespace LockAudit.Discovery

variable {files : FileTree} {root : Path} {patterns excluded : List String}

/-- A search from what is no folder finds nothing, whatever its limit. -/
theorem findFiles_of_error {e : SystemError} (hfind : files.find root = .error e) (limit : Option Int) :
    findFiles files root patterns limit excluded = [] := by
  rw [findFiles, hfind]

/-- **A limited search finds some of the files of a full one, in their order.** -/
theorem sublist_findFiles (limit : Option Int) :
    (findFiles files root patterns limit excluded).Sublist
      (findFiles files root patterns none excluded) := by
  cases hfind : files.find root with
  | error e => simp [findFiles_of_error hfind]
  | ok tree =>
    rw [findFiles_eq hfind, findFiles_eq hfind]
    apply Sorting.mergeSort_sublist Path.le_trans Path.le_total Path.le_antisymm
    exact (upTo_sublist limit _).map _

/-- How many files a limited search finds: there is always room for one. -/
theorem length_findFiles (n : Int) :
    (findFiles files root patterns (some n) excluded).length =
      min (max 1 n.toNat) (findFiles files root patterns none excluded).length := by
  cases hfind : files.find root with
  | error e => simp [findFiles_of_error hfind]
  | ok tree =>
    simp only [findFiles_eq hfind, List.length_mergeSort, List.length_map, upTo, List.length_take]

/-- Below proper folders, no file is found twice. -/
theorem nodup_findFiles (hfiles : files.IsProper) (limit : Option Int) :
    (findFiles files root patterns limit excluded).Nodup := by
  cases hfind : files.find root with
  | error e =>
    rw [findFiles_of_error hfind]
    exact List.nodup_nil
  | ok tree =>
    refine (pairwise_findFiles hfind (hfiles.of_find hfind) patterns limit excluded).imp ?_
    rintro p q hlt rfl
    exact hlt.asymm hlt

/-- **A limited search is a full search that is cut short.** It returns files of the full search only, in the
    order of the full search, and none of them twice. There are as many as the limit says, or all if they are
    fewer, exactly if the limit is not zero or there is nothing to be found. With a limit of zero the search
    still returns one file, if there is one. -/
theorem findFiles_limit_iff (files : FileTree) (hfiles : files.IsProper) (root : Path)
    (patterns excluded : List String) (n : Nat) :
    (findFiles files root patterns (some n) excluded).Sublist
        (findFiles files root patterns none excluded) ∧
      (findFiles files root patterns (some n) excluded).Nodup ∧
      ((findFiles files root patterns (some n) excluded).length =
          min n (findFiles files root patterns none excluded).length ↔
        n ≠ 0 ∨ findFiles files root patterns none excluded = []) ∧
      (findFiles files root patterns (some (0 : Nat)) excluded).length =
        min 1 (findFiles files root patterns none excluded).length := by
  refine ⟨sublist_findFiles _, nodup_findFiles hfiles _, ?_, length_findFiles _⟩
  rw [length_findFiles, Int.toNat_natCast, ← List.length_eq_zero_iff]
  -- Both sides are now about two numbers, the limit and the count of the full search.
  generalize (findFiles files root patterns none excluded).length = m
  omega

/-! ## A workspace with two lockfiles -/

theorem isProper_sampleFiles : sampleFiles.IsProper := by
  refine .folder (by simp; decide) (by simp) ?_
  simp only [List.forall_mem_singleton]
  exact isProper_sampleTree

theorem found_sampleTree : found [Lockfile.fileName] excludedFolders sampleTree =
    [["a-b", "yarn.lock"], ["a", "yarn.lock"]] := by decide

/-- A search for the lockfiles of the workspace that finds one and looks at its limit. -/
theorem findFiles_sampleFiles_first {n : Nat} (h : n ≤ 1) :
    findFiles sampleFiles ⟨"/", ["w"]⟩ [Lockfile.fileName] (some n) excludedFolders =
      [⟨"/", ["w", "a-b", "yarn.lock"]⟩] := by
  have hroom : max 1 n = 1 := Nat.max_eq_left h
  rw [findFiles_eq rfl, found_sampleTree, upTo, Int.toNat_natCast, hroom]
  exact List.mergeSort_singleton _

/-- The one file that is found is not the first of the two: a search comes to files in the order in which
    folders are listed. -/
theorem findFiles_limit_iff_sample :
    sampleFiles.IsProper ∧
    findFiles sampleFiles ⟨"/", ["w"]⟩ [Lockfile.fileName] none excludedFolders =
      [⟨"/", ["w", "a", "yarn.lock"]⟩, ⟨"/", ["w", "a-b", "yarn.lock"]⟩] ∧
    findFiles sampleFiles ⟨"/", ["w"]⟩ [Lockfile.fileName] (some (1 : Nat)) excludedFolders =
      [⟨"/", ["w", "a-b", "yarn.lock"]⟩] ∧
    (findFiles sampleFiles ⟨"/", ["w"]⟩ [Lockfile.fileName] (some (1 : Nat)) excludedFolders).length =
      min 1 (findFiles sampleFiles ⟨"/", ["w"]⟩ [Lockfile.fileName] none excludedFolders).length := by
  refine ⟨isProper_sampleFiles, ?_, findFiles_sampleFiles_first (Nat.le_refl 1), ?_⟩
  · have hle : Path.le ⟨"/", ["w", "a-b", "yarn.lock"]⟩ ⟨"/", ["w", "a", "yarn.lock"]⟩ = false := by decide
    rw [findFiles_eq rfl, found_sampleTree]
    show List.mergeSort [_, _] _ = _
    simp [List.mergeSort, List.MergeSort.Internal.splitInTwo, hle]
  · obtain ⟨-, -, hcount, -⟩ := findFiles_limit_iff sampleFiles isProper_sampleFiles ⟨"/", ["w"]⟩
      [Lockfile.fileName] excludedFolders 1
    exact hcount.mpr (.inl Nat.one_ne_zero)

/-- A limit of zero lets one file through. -/
theorem limit_zero_exceeded :
    (findFiles sampleFiles ⟨"/", ["w"]⟩ [Lockfile.fileName] (some (0 : Nat)) excludedFolders).length ≠
      min 0 (findFiles sampleFiles ⟨"/", ["w"]⟩ [Lockfile.fileName] none excludedFolders).length := by
  rw [findFiles_sampleFiles_first (Nat.zero_le 1), Nat.zero_min]
  exact Nat.one_ne_zero

end LockAudit.Discovery
