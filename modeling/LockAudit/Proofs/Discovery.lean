import LockAudit.Discovery
import LockAudit.Proofs.FileTree
import LockAudit.Proofs.Path
import LockAudit.Proofs.Session.Evidence
import LockAudit.Proofs.Sorting

/-!
# `LockAudit.Proofs.Discovery` — which lockfiles a scan finds

A search walks a tree and leaves out some folders, then keeps the files whose names match, then sorts. For each
of the three there is one lemma, and none of the later ones opens the walk again.

* `accepts_literal` — a pattern without signs accepts one name, its own.
* `mem_walk` — the walk comes to a file exactly if none of the folders on the way to it is left out, by
  induction over the tree. `nodup_walk` — it comes there once.
* `pairwise_findFiles` — what is found is in strict order, so it stands there once.
* `discover_exact` — the lockfiles of a workspace, their order, and their names; and which of them an analyzer
  skips.
-/

namespace LockAudit

/-! ## Patterns without signs -/

namespace Text.Glob

/-- A pattern in which every character stands for itself. -/
def IsLiteral (pattern : String) : Prop := ∀ c ∈ pattern.toList, c ≠ '*' ∧ c ≠ '?' ∧ c ≠ '['

theorem readTokens_literal {s : List Char} (h : ∀ c ∈ s, c ≠ '*' ∧ c ≠ '?' ∧ c ≠ '[') :
    readTokens s.length s = s.map .char := by
  induction s with
  | nil => rfl
  | cons c s ih =>
    obtain ⟨⟨hstar, hquestion, hbracket⟩, h⟩ := List.forall_mem_cons.mp h
    rw [List.length_cons, readTokens, if_neg hstar, if_neg hquestion, if_neg hbracket, ih h, List.map_cons]

theorem matchTokens_chars {s r : List Char} : matchTokens (s.map .char) r = true ↔ r = s := by
  induction s generalizing r with
  | nil => simp
  | cons c s ih =>
    cases r with
    | nil => simp [matchTokens]
    | cons d r =>
      rw [List.map_cons, matchTokens, Bool.and_eq_true, beq_iff_eq, ih, List.cons.injEq]
      exact and_congr_left' eq_comm

/-- **A pattern without signs accepts one name, its own.** -/
theorem accepts_literal {pattern text : String} (h : IsLiteral pattern) :
    accepts pattern text = true ↔ text = pattern := by
  unfold accepts tokens
  rw [readTokens_literal h, matchTokens_chars, String.toList_inj]

end Text.Glob

namespace Discovery

open Text

variable {excluded names place : List String} {n : String} {tree : FileTree} {entries : List (String × FileTree)}

/-! ## The walk -/

/-- Some names lead to a file, and past no folder that is left out. -/
structure Searched (excluded : List String) (tree : FileTree) (names : List String) : Prop where
  file : ∃ bytes x, tree.At names (.file bytes x)
  not_nil : names ≠ []
  folders : ∀ n ∈ names.dropLast, n ∉ excluded

theorem not_searched_file {bytes : List UInt8} {x : Bool} : ¬ Searched excluded (.file bytes x) names := by
  rintro ⟨⟨_, _, h⟩, hne, -⟩
  cases h
  exact hne rfl

/-- A file of a folder, or one in a folder of it. -/
theorem searched_folder_iff : Searched excluded (.folder entries) names ↔
    (∃ n bytes x, (n, .file bytes x) ∈ entries ∧ names = [n]) ∨
    ∃ n t below, (n, t) ∈ entries ∧ n ∉ excluded ∧ Searched excluded t below ∧ names = n :: below := by
  constructor
  · rintro ⟨⟨bytes, x, h⟩, hne, hfolders⟩
    cases h with
    | @inside _ n below t _ hmem hinside =>
      -- The last name is that of the file, and no folder to be left out.
      by_cases hbelow : below = []
      · subst hbelow
        rw [FileTree.at_nil_iff] at hinside
        subst hinside
        exact .inl ⟨n, bytes, x, hmem, rfl⟩
      · rw [List.dropLast_cons_of_ne_nil hbelow, List.forall_mem_cons] at hfolders
        exact .inr ⟨n, t, below, hmem, hfolders.1, ⟨⟨bytes, x, hinside⟩, hbelow, hfolders.2⟩, rfl⟩
  · rintro (⟨n, bytes, x, hmem, rfl⟩ | ⟨n, t, below, hmem, hn, ⟨⟨bytes, x, h⟩, hne, hfolders⟩, rfl⟩)
    · exact ⟨⟨bytes, x, .inside hmem (.here _)⟩, List.cons_ne_nil n [], by simp⟩
    · refine ⟨⟨bytes, x, .inside hmem h⟩, List.cons_ne_nil n below, ?_⟩
      rw [List.dropLast_cons_of_ne_nil hne]
      exact List.forall_mem_cons.mpr ⟨hn, hfolders⟩

theorem mem_filesIn :
    names ∈ filesIn place entries ↔ ∃ n bytes x, (n, .file bytes x) ∈ entries ∧ names = place ++ [n] := by
  unfold filesIn
  rw [List.mem_filterMap]
  constructor
  · rintro ⟨⟨n, t⟩, hmem, h⟩
    cases t with
    | file bytes x => exact ⟨n, bytes, x, hmem, (Option.some.inj h).symm⟩
    | folder _ => cases h
  · rintro ⟨n, bytes, x, hmem, rfl⟩
    exact ⟨(n, .file bytes x), hmem, rfl⟩

theorem walkEntries_eq (excluded place : List String) (entries : List (String × FileTree)) :
    walkEntries excluded place entries = entries.flatMap fun e =>
      if excluded.contains e.1 then [] else walk excluded (place ++ [e.1]) e.2 := by
  induction entries with
  | nil => simp [walkEntries]
  | cons e entries ih => rw [List.flatMap_cons, walkEntries, ih]

theorem mem_walkEntries : names ∈ walkEntries excluded place entries ↔
    ∃ n t, (n, t) ∈ entries ∧ n ∉ excluded ∧ names ∈ walk excluded (place ++ [n]) t := by
  rw [walkEntries_eq, List.mem_flatMap]
  constructor
  · rintro ⟨⟨n, t⟩, hmem, h⟩
    by_cases hn : n ∈ excluded
    · simp [hn] at h
    · exact ⟨n, t, hmem, hn, by simpa [hn] using h⟩
  · rintro ⟨n, t, hmem, hn, h⟩
    exact ⟨(n, t), hmem, by simpa [hn] using h⟩

/-- **What a search walks to.** -/
theorem mem_walk : names ∈ walk excluded place tree ↔
    ∃ below, names = place ++ below ∧ Searched excluded tree below := by
  induction tree generalizing place names with
  | file bytes x => simp [walk, not_searched_file]
  | folder entries ih =>
    rw [walk, List.mem_append, mem_filesIn, mem_walkEntries]
    simp only [searched_folder_iff]
    -- The walk lists files before folders, as the cases of what is searched stand.
    constructor
    · rintro (⟨n, bytes, x, hmem, rfl⟩ | ⟨n, t, hmem, hn, h⟩)
      · exact ⟨[n], rfl, .inl ⟨n, bytes, x, hmem, rfl⟩⟩
      · obtain ⟨below, rfl, hbelow⟩ := (ih (n, t) hmem).mp h
        exact ⟨n :: below, by simp, .inr ⟨n, t, below, hmem, hn, hbelow, rfl⟩⟩
    · rintro ⟨_, rfl, ⟨n, bytes, x, hmem, rfl⟩ | ⟨n, t, below, hmem, hn, hbelow, rfl⟩⟩
      · exact .inl ⟨n, bytes, x, hmem, rfl⟩
      · exact .inr ⟨n, t, hmem, hn, (ih (n, t) hmem).mpr ⟨below, by simp, hbelow⟩⟩

theorem nodup_filesIn (h : (entries.map (·.1)).Nodup) : (filesIn place entries).Nodup := by
  refine List.pairwise_filterMap.mpr ((List.pairwise_map.mp h).imp ?_)
  rintro ⟨n, t⟩ ⟨n', t'⟩ hne names h names' h'
  cases t with
  | folder _ => cases h
  | file bytes x =>
    cases t' with
    | folder _ => cases h'
    | file bytes' x' =>
      cases h
      cases h'
      simpa using hne

/-- What lies in a folder has the folder's name and another. -/
theorem of_mem_walk_folder (h : names ∈ walk excluded (place ++ [n]) tree) :
    ∃ below, names = place ++ n :: below ∧ below ≠ [] := by
  obtain ⟨below, rfl, hbelow⟩ := mem_walk.mp h
  exact ⟨below, by simp, hbelow.not_nil⟩

/-- **A search comes to each file once.** -/
theorem nodup_walk (h : tree.IsProper) : (walk excluded place tree).Nodup := by
  induction tree generalizing place with
  | file bytes x => simp [walk]
  | folder entries ih =>
    cases h with
    | folder hnames hdistinct hentries =>
      rw [walk, List.nodup_append]
      refine ⟨nodup_filesIn hdistinct, ?_, ?_⟩
      · rw [walkEntries_eq]
        refine List.pairwise_flatMap.mpr ⟨?_, ?_⟩
        · intro e he
          split
          · exact List.nodup_nil
          · exact ih e he (hentries e he)
        · -- What lies in two folders differs in their names.
          refine (List.pairwise_map.mp hdistinct).imp ?_
          intro e e' hne names h names' h'
          split at h
          · cases h
          split at h'
          · cases h'
          obtain ⟨below, rfl, -⟩ := of_mem_walk_folder h
          obtain ⟨below', rfl, -⟩ := of_mem_walk_folder h'
          intro heq
          exact hne (List.cons.inj (List.append_cancel_left heq)).1
      · -- A file of the folder has one name below it, and all others have more.
        intro names h names' h'
        obtain ⟨n, bytes, x, -, rfl⟩ := mem_filesIn.mp h
        obtain ⟨n', t, -, -, h'⟩ := mem_walkEntries.mp h'
        obtain ⟨below, rfl, hne⟩ := of_mem_walk_folder h'
        intro heq
        exact hne (List.cons.inj (List.append_cancel_left heq)).2.symm

/-! ## Files that match -/

/-- The first of some files, up to a limit. There is always room for one. -/
def upTo {α : Type} (limit : Option Int) (files : List α) : List α :=
  match limit with
  | none => files
  | some n => files.take (max 1 n.toNat)

theorem search_none (wanted : List String → Bool) (count : Nat) (walked : List (List String)) :
    search none wanted count walked = walked.filter wanted := by
  induction walked generalizing count with
  | nil => rfl
  | cons names walked ih =>
    rw [search, List.filter_cons]
    split
    · exact congrArg (names :: ·) (ih (count + 1))
    · exact ih count

/-- A search that has found some files finds as many more as the limit leaves, and one where it leaves none. -/
theorem search_some (n : Int) (wanted : List String → Bool) (count : Nat) (walked : List (List String)) :
    search (some n) wanted count walked = (walked.filter wanted).take (max 1 (n - count).toNat) := by
  induction walked generalizing count with
  | nil => simp [search]
  | cons names walked ih =>
    rw [search, List.filter_cons]
    split
    · by_cases hlast : n ≤ (count + 1 : Nat)
      · have hroom : max 1 (n - count).toNat = 1 := by omega
        simp only [Option.any_some, hlast, decide_true, if_true]
        rw [hroom]
        rfl
      · have hroom : max 1 (n - count).toNat = max 1 (n - (count + 1 : Nat)).toNat + 1 := by omega
        simp only [Option.any_some, hlast, decide_false, Bool.false_eq_true, if_false]
        rw [ih (count + 1), hroom, List.take_succ_cons]
    · exact ih count

/-- **A search that ends at its limit finds the first files of a full one.** -/
theorem search_eq (limit : Option Int) (wanted : List String → Bool) (walked : List (List String)) :
    search limit wanted 0 walked = upTo limit (walked.filter wanted) := by
  cases limit with
  | none => exact search_none wanted 0 walked
  | some n =>
    rw [search_some, upTo]
    simp only [Int.ofNat_zero, Int.sub_zero]

/-- The files that a search finds, by their names below its folder. -/
def found (patterns excluded : List String) (tree : FileTree) : List (List String) :=
  (walk excluded [] tree).filter fun names =>
    (cleanPatterns patterns).any fun p => Glob.accepts p (names.getLastD "")

theorem mem_found {patterns : List String} : names ∈ found patterns excluded tree ↔
    Searched excluded tree names ∧
      ∃ p ∈ cleanPatterns patterns, Glob.accepts p (names.getLastD "") = true := by
  unfold found
  rw [List.mem_filter, mem_walk, List.any_eq_true]
  simp

theorem nodup_found {patterns : List String} (h : tree.IsProper) :
    (found patterns excluded tree).Nodup :=
  (nodup_walk h).sublist List.filter_sublist

variable {files : FileTree} {root : Path}

theorem findFiles_eq (hfind : files.find root = .ok tree) (patterns : List String) (limit : Option Int)
    (excluded : List String) : findFiles files root patterns limit excluded =
      ((upTo limit (found patterns excluded tree)).map
        fun names => (⟨root.root, root.names ++ names⟩ : Path)).mergeSort Path.le := by
  rw [findFiles, hfind]
  show ((search limit _ 0 (walk excluded [] tree)).map _).mergeSort Path.le = _
  rw [search_eq]
  rfl

theorem upTo_sublist {α : Type} (limit : Option Int) (xs : List α) : (upTo limit xs).Sublist xs := by
  cases limit with
  | none => exact List.Sublist.refl xs
  | some n => exact List.take_sublist _ xs

/-- **What is found is in strict order**, with a limit or without. -/
theorem pairwise_findFiles (hfind : files.find root = .ok tree) (htree : tree.IsProper)
    (patterns : List String) (limit : Option Int) (excluded : List String) :
    (findFiles files root patterns limit excluded).Pairwise Path.Before := by
  have hnames : (upTo limit (found patterns excluded tree)).Nodup :=
    (nodup_found htree).sublist (upTo_sublist limit _)
  have hnodup : ((upTo limit (found patterns excluded tree)).map
      fun names => (⟨root.root, root.names ++ names⟩ : Path)).Nodup := by
    refine List.pairwise_map.mpr (hnames.imp ?_)
    intro ms ns hne heq
    exact hne (List.append_cancel_left (congrArg Path.names heq))
  rw [findFiles_eq hfind]
  refine (Sorting.pairwise_mergeSort_of_nodup Path.le_trans Path.le_total hnodup).imp ?_
  rintro p q ⟨hle, hne⟩
  exact (Path.le_iff.mp hle).resolve_left hne

theorem mem_findFiles (hfind : files.find root = .ok tree) {patterns : List String} {p : Path} :
    p ∈ findFiles files root patterns none excluded ↔
      ∃ names ∈ found patterns excluded tree, p = ⟨root.root, root.names ++ names⟩ := by
  rw [findFiles_eq hfind, List.mem_mergeSort, List.mem_map]
  simp only [upTo, eq_comm]

/-! ## Lockfiles -/

/-- Some names lead to a lockfile, and past no folder that is left out. -/
structure Scannable (tree : FileTree) (names : List String) : Prop where
  file : ∃ bytes x, tree.At names (.file bytes x)
  name : names.getLast? = some Lockfile.fileName
  folders : ∀ n ∈ names.dropLast, n ∉ excludedFolders

/-- A lockfile below a workspace, and its name. -/
def record (root : Path) (names : List String) : Lockfile :=
  ⟨⟨root.root, root.names ++ names⟩, "/".intercalate names⟩

theorem Scannable.not_nil (h : Scannable tree names) : names ≠ [] := by
  rintro rfl
  cases h.name

theorem mem_found_fileName :
    names ∈ found [Lockfile.fileName] excludedFolders tree ↔ Scannable tree names := by
  have hclean : cleanPatterns [Lockfile.fileName] = [Lockfile.fileName] := by decide
  have hliteral : Glob.IsLiteral Lockfile.fileName := by
    unfold Glob.IsLiteral
    decide
  rw [mem_found, hclean]
  simp only [List.mem_singleton, exists_eq_left, Glob.accepts_literal hliteral]
  constructor
  · rintro ⟨⟨hfile, hne, hfolders⟩, hname⟩
    refine ⟨hfile, ?_, hfolders⟩
    rw [← hname, List.getLastD_eq_getLast?, List.getLast?_eq_some_getLast hne]
    rfl
  · intro h
    refine ⟨⟨h.file, h.not_nil, h.folders⟩, ?_⟩
    rw [List.getLastD_eq_getLast?, h.name]
    rfl

theorem displayName_below (h : names ≠ []) :
    displayName root ⟨root.root, root.names ++ names⟩ = "/".intercalate names := by
  unfold displayName
  rw [Path.below?_append]
  exact Path.toString_relative h

/-- **Which lockfiles a workspace has.** -/
theorem mem_discover (hfind : files.find root = .ok tree) {l : Lockfile} :
    l ∈ discover files root ↔ ∃ names, Scannable tree names ∧ l = record root names := by
  unfold discover
  rw [List.mem_map]
  constructor
  · rintro ⟨p, hp, rfl⟩
    obtain ⟨names, hnames, rfl⟩ := (mem_findFiles hfind).mp hp
    have hnames := mem_found_fileName.mp hnames
    exact ⟨names, hnames, by rw [displayName_below hnames.not_nil, record]⟩
  · rintro ⟨names, hnames, rfl⟩
    refine ⟨_, (mem_findFiles hfind).mpr ⟨names, mem_found_fileName.mpr hnames, rfl⟩, ?_⟩
    rw [displayName_below hnames.not_nil, record]

theorem pairwise_discover (hfind : files.find root = .ok tree) (htree : tree.IsProper) :
    (discover files root).Pairwise fun l m => l.path.Before m.path :=
  List.pairwise_map.mpr (pairwise_findFiles hfind htree _ _ _)

/-- No two lockfiles have one name. -/
theorem nodup_displayName (hfind : files.find root = .ok tree) (htree : tree.IsProper) :
    ((discover files root).map (·.displayName)).Nodup := by
  refine List.pairwise_map.mpr ((pairwise_discover hfind htree).imp_of_mem ?_)
  intro l m hl hm hlt heq
  obtain ⟨ms, hms, rfl⟩ := (mem_discover hfind).mp hl
  obtain ⟨ns, hns, rfl⟩ := (mem_discover hfind).mp hm
  -- One text between slashes would make the two paths one, and a path does not come before itself.
  have hslash : ∀ {names}, Scannable tree names → ∀ n ∈ names, '/' ∉ n.toList := by
    intro names h n hn
    obtain ⟨bytes, x, hat⟩ := h.file
    exact ((htree.of_at hat).2 n hn).no_slash
  have hsame : ms = ns :=
    Path.intercalate_injective hms.not_nil hns.not_nil (hslash hms) (hslash hns) heq
  subst hsame
  exact hlt.asymm hlt

/-- **The order in which folders are listed does not matter.** -/
theorem discover_of_relisted {files' tree' : FileTree} (hfind : files.find root = .ok tree)
    (hfind' : files'.find root = .ok tree') (htree : tree.IsProper) (h : tree.Relisted tree') :
    discover files' root = discover files root := by
  refine Sorting.eq_of_mem_iff (fun _ _ => Path.Before.asymm) (pairwise_discover hfind' (h.isProper htree))
    (pairwise_discover hfind htree) ?_
  intro l
  have hscannable : ∀ names, Scannable tree' names ↔ Scannable tree names := by
    intro names
    constructor
    · rintro ⟨⟨bytes, x, hat⟩, hname, hfolders⟩
      exact ⟨⟨bytes, x, (h.at_file_iff names).mpr hat⟩, hname, hfolders⟩
    · rintro ⟨⟨bytes, x, hat⟩, hname, hfolders⟩
      exact ⟨⟨bytes, x, (h.at_file_iff names).mp hat⟩, hname, hfolders⟩
  simp only [mem_discover hfind, mem_discover hfind', hscannable]

end Discovery

/-! ## Lockfiles that are skipped -/

/-- An analyzer that is enabled skips what is not worth analyzing, and nothing else. -/
theorem Analysis.skipped_iff {s : Settings} {host : Host} {files : FileTree} {l : Lockfile} :
    (∃ r, (analyze s host files .enabled l).result = .ok r ∧ r.status = .skipped) ↔
      shouldProcess files l.path = false := by
  constructor
  · rintro ⟨r, hr, hstatus⟩
    cases hp : shouldProcess files l.path with
    | false => rfl
    | true =>
      cases hh : (run s host files l.path).halt with
      | none =>
        rw [analyze_of_finished hp hh] at hr
        cases hr
        cases hstatus
      | some halt =>
        rw [analyze_of_halted hp hh] at hr
        rw [(judge_status hr).1] at hstatus
        cases hstatus
  · intro hp
    rw [analyze_of_skipped hp]
    exact ⟨_, rfl, rfl⟩

namespace Discovery

variable {names : List String} {tree files : FileTree} {root : Path}

/-- A lockfile that was found is worth analyzing unless it is empty. -/
theorem shouldProcess_record (hfind : files.find root = .ok tree) (htree : tree.IsProper)
    (hroot : Lockfile.installFolder ∉ root.names) {bytes : List UInt8} {x : Bool}
    (hat : tree.At names (.file bytes x)) (h : Scannable tree names) :
    Analysis.shouldProcess files (record root names).path = !bytes.isEmpty := by
  have hfile : files.find (record root names).path = .ok (.file bytes x) :=
    FileTree.find_of_at hfind htree hat
  have hname : (record root names).path.name = Lockfile.fileName := by
    show (root.names ++ names).getLastD "" = Lockfile.fileName
    rw [List.getLastD_eq_getLast?, List.getLast?_append, h.name]
    rfl
  have hfolder : Lockfile.installFolder ∉ (record root names).path.names := by
    show Lockfile.installFolder ∉ root.names ++ names
    obtain ⟨folders, rfl⟩ := List.getLast?_eq_some_iff.mp h.name
    have hfolders := h.folders
    rw [List.dropLast_concat] at hfolders
    simp only [List.mem_append, List.mem_singleton]
    -- Below the workspace the search itself has left such folders out.
    rintro (hmem | hmem | hmem)
    · exact hroot hmem
    · exact hfolders _ hmem (by decide)
    · exact absurd hmem (by decide)
  simp [Analysis.shouldProcess, hname, hfolder, hfile]

/-- **Which lockfiles a scan finds.** Below a workspace these are the files of the right name that are in no
    excluded folder, and nothing else; the workspace itself may lie in such a folder. They come in strict order
    of their paths, name by name, whatever the order in which folders are listed, and each has the names below
    the workspace between slashes for its own name, which no other has. Unless the workspace is that of an
    installed package, an analyzer that is enabled skips a lockfile of these exactly if it is empty. -/
theorem discover_exact {files tree : FileTree} {root : Path} (hfind : files.find root = .ok tree)
    (htree : tree.IsProper) :
    (∀ l, l ∈ discover files root ↔ ∃ names, Scannable tree names ∧ l = record root names) ∧
    ((discover files root).Pairwise fun l m => l.path.Before m.path) ∧
    ((discover files root).map (·.displayName)).Nodup ∧
    (∀ files' tree', files'.find root = .ok tree' → tree.Relisted tree' →
      discover files' root = discover files root) ∧
    (Lockfile.installFolder ∉ root.names → ∀ l ∈ discover files root,
      ∃ bytes, files.readFile l.path = .ok bytes ∧ ∀ s host,
        (∃ r, (Analysis.analyze s host files .enabled l).result = .ok r ∧ r.status = .skipped) ↔
          bytes = []) := by
  refine ⟨fun _ => mem_discover hfind, pairwise_discover hfind htree, nodup_displayName hfind htree,
    fun _ _ hfind' => discover_of_relisted hfind hfind' htree, ?_⟩
  intro hroot l hl
  obtain ⟨names, hnames, rfl⟩ := (mem_discover hfind).mp hl
  obtain ⟨bytes, x, hat⟩ := hnames.file
  have hfile : files.find (record root names).path = .ok (.file bytes x) :=
    FileTree.find_of_at hfind htree hat
  refine ⟨bytes, by rw [FileTree.readFile, hfile], fun s host => ?_⟩
  rw [Analysis.skipped_iff, shouldProcess_record hfind htree hroot hat hnames]
  simp

/-- A workspace with an empty lockfile, one that is not empty, and one of an installed package. -/
def sampleTree : FileTree := .folder
  [("a-b", .folder [("yarn.lock", .file [35] false)]),
    ("node_modules", .folder [("yarn.lock", .file [35] false)]),
    ("a", .folder [("yarn.lock", .file [] false)])]

theorem isProper_sampleTree : sampleTree.IsProper := by
  have hfolder : ∀ bytes, (FileTree.folder [("yarn.lock", .file bytes false)]).IsProper := by
    intro bytes
    refine .folder (by simp; decide) (by simp) ?_
    simp only [List.forall_mem_singleton]
    exact .file bytes false
  refine .folder (by simp; decide) (by decide) ?_
  simp only [List.forall_mem_cons, hfolder, true_and]
  simp

/-- The files of a system with that workspace. -/
def sampleFiles : FileTree := .folder [("w", sampleTree)]

theorem discover_exact_sample :
    record ⟨"/", ["w"]⟩ ["a-b", "yarn.lock"] ∈ discover sampleFiles ⟨"/", ["w"]⟩ ∧
    record ⟨"/", ["w"]⟩ ["node_modules", "yarn.lock"] ∉ discover sampleFiles ⟨"/", ["w"]⟩ ∧
    ∃ l ∈ discover sampleFiles ⟨"/", ["w"]⟩, l.displayName = "a/yarn.lock" ∧
      ∃ r, (Analysis.analyze .standard (Session.sampleHost []) sampleFiles .enabled l).result = .ok r ∧
        r.status = .skipped := by
  have hfind : sampleFiles.find ⟨"/", ["w"]⟩ = .ok sampleTree := rfl
  obtain ⟨hmem, -, -, -, hskip⟩ := discover_exact hfind isProper_sampleTree
  have hempty : record ⟨"/", ["w"]⟩ ["a", "yarn.lock"] ∈ discover sampleFiles ⟨"/", ["w"]⟩ :=
    (hmem _).mpr ⟨_, ⟨⟨[], false, .inside (.tail _ (.tail _ (.head _))) (.inside (.head _) (.here _))⟩,
      rfl, by decide⟩, rfl⟩
  refine ⟨?_, ?_, _, hempty, by decide, ?_⟩
  · exact (hmem _).mpr
      ⟨_, ⟨⟨[35], false, .inside (.head _) (.inside (.head _) (.here _))⟩, rfl, by decide⟩, rfl⟩
  · intro h
    obtain ⟨names, hnames, heq⟩ := (hmem _).mp h
    have hsame : ["node_modules", "yarn.lock"] = names :=
      List.append_cancel_left (congrArg (fun l => l.path.names) heq)
    exact hnames.folders "node_modules" (by simp [← hsame]) (by decide)
  · obtain ⟨bytes, hread, hiff⟩ := hskip (by decide) _ hempty
    exact (hiff _ _).mpr (Except.ok.inj hread).symm

end Discovery

end LockAudit
