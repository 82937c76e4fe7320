import LockAudit.FileTree

/-!
# `LockAudit.Proofs.FileTree` — what stands where in a tree

A tree is a folder of entries, and nothing in its type says that the names of a folder differ or that a
system would allow them. `IsProper` says both. In a proper tree a row of names leads to one thing at most,
and `find` finds it.

* `inductionOn` — induction over a tree: a folder has a property if all its entries have it.
* `At` — what stands at a row of names. `find_of_at` says that a path leads there.
* `Relisted` — the same tree, its folders listed in other orders. `Relisted.at_file_iff`: the same files
  stand at the same names.
-/

namespace LockAudit.FileTree

/-- A folder has a property if its entries have it. -/
@[elab_as_elim, induction_eliminator]
theorem inductionOn {motive : FileTree → Prop} (file : ∀ bytes x, motive (.file bytes x))
    (folder : ∀ entries, (∀ e ∈ entries, motive e.2) → motive (.folder entries)) (t : FileTree) : motive t :=
  match t with
  | .file bytes x => file bytes x
  | .folder entries => folder entries fun e _ => inductionOn file folder e.2
termination_by sizeOf t
decreasing_by
  have hentry := List.sizeOf_lt_of_mem ‹e ∈ entries›
  have hpair : sizeOf e = 1 + sizeOf e.1 + sizeOf e.2 := by
    cases e
    rfl
  simp only [FileTree.folder.sizeOf_spec]
  omega

/-! ## What stands where -/

/-- At some names below a tree stands another. -/
inductive At : FileTree → List String → FileTree → Prop
  | here (t : FileTree) : At t [] t
  | inside {entries : List (String × FileTree)} {n : String} {names : List String} {t u : FileTree}
      (h : (n, t) ∈ entries) (hinside : At t names u) : At (.folder entries) (n :: names) u

variable {tree t u : FileTree} {entries : List (String × FileTree)} {n : String} {names : List String}

theorem at_nil_iff : tree.At [] t ↔ t = tree := by
  constructor
  · intro h
    cases h
    rfl
  · rintro rfl
    exact .here t

theorem at_cons_iff :
    tree.At (n :: names) u ↔ ∃ entries t, tree = .folder entries ∧ (n, t) ∈ entries ∧ t.At names u := by
  constructor
  · intro h
    cases h with
    | inside h hinside => exact ⟨_, _, rfl, h, hinside⟩
  · rintro ⟨entries, t, rfl, h, hinside⟩
    exact .inside h hinside

theorem folder_at_cons_iff :
    (folder entries).At (n :: names) u ↔ ∃ t, (n, t) ∈ entries ∧ t.At names u := by
  simp only [at_cons_iff, folder.injEq, exists_and_left, exists_eq_left']

/-! ## Proper trees -/

/-- A name that a folder can give to an entry. -/
structure IsName (n : String) : Prop where
  not_empty : n ≠ ""
  not_here : n ≠ "."
  not_up : n ≠ ".."
  no_slash : '/' ∉ n.toList
  not_long : n.utf8ByteSize ≤ maxNameBytes

instance (n : String) : Decidable (IsName n) :=
  decidable_of_iff (n ≠ "" ∧ n ≠ "." ∧ n ≠ ".." ∧ '/' ∉ n.toList ∧ n.utf8ByteSize ≤ maxNameBytes)
    ⟨fun ⟨he, hh, hu, hs, hl⟩ => ⟨he, hh, hu, hs, hl⟩, fun ⟨he, hh, hu, hs, hl⟩ => ⟨he, hh, hu, hs, hl⟩⟩

/-- In each folder, the entries have names, and different ones. -/
inductive IsProper : FileTree → Prop
  | file (bytes : List UInt8) (x : Bool) : IsProper (.file bytes x)
  | folder {entries : List (String × FileTree)} (hnames : ∀ e ∈ entries, IsName e.1)
      (hdistinct : (entries.map (·.1)).Nodup) (hentries : ∀ e ∈ entries, IsProper e.2) :
      IsProper (.folder entries)

/-- What stands in a proper tree is proper, and stands at names. -/
theorem IsProper.of_at (h : tree.IsProper) (hat : tree.At names t) :
    t.IsProper ∧ ∀ n ∈ names, IsName n := by
  induction hat with
  | here => exact ⟨h, by simp⟩
  | inside hmem _ ih =>
    cases h with
    | folder hnames hdistinct hentries =>
      obtain ⟨hproper, hinside⟩ := ih (hentries _ hmem)
      exact ⟨hproper, List.forall_mem_cons.mpr ⟨hnames _ hmem, hinside⟩⟩

/-! ## Walking -/

theorem lookup?_of_mem (hdistinct : (entries.map (·.1)).Nodup) (h : (n, t) ∈ entries) :
    lookup? n entries = some t := by
  induction entries with
  | nil => cases h
  | cons e entries ih =>
    rw [List.map_cons, List.nodup_cons] at hdistinct
    rcases List.mem_cons.mp h with rfl | h
    · exact if_pos rfl
    · have hne : e.1 ≠ n := fun heq => hdistinct.1 (heq ▸ List.mem_map_of_mem h)
      exact (if_neg hne).trans (ih hdistinct.2 h)

/-- Names lead to what stands at them, whatever folders are above. -/
theorem walk_of_at (h : tree.IsProper) (hat : tree.At names t) (above : List FileTree) :
    walk above tree names = .ok t := by
  induction hat generalizing above with
  | here => rfl
  | inside hmem _ ih =>
    cases h with
    | folder hnames hdistinct hentries =>
      have hname := hnames _ hmem
      simp only [walk, if_neg hname.not_up, if_neg (Nat.not_lt.mpr hname.not_long),
        lookup?_of_mem hdistinct hmem]
      exact ih (hentries _ hmem) _

/-- A walk goes on from where its first names lead, with some folders above it. -/
theorem walk_append {ns : List String} {above : List FileTree} {here : FileTree}
    (h : walk above here ns = .ok t) : ∃ higher, ∀ ms, walk above here (ns ++ ms) = walk higher t ms := by
  induction ns generalizing above here with
  | nil =>
    cases h
    exact ⟨above, fun _ => rfl⟩
  | cons n ns ih =>
    cases here with
    | file bytes x => cases h
    | folder entries =>
      unfold walk at h
      simp only [List.cons_append, walk]
      by_cases hup : n = ".."
      · simp only [if_pos hup] at h ⊢
        cases above with
        | nil => exact ih h
        | cons up higher => exact ih h
      · simp only [if_neg hup] at h ⊢
        by_cases hlong : maxNameBytes < n.utf8ByteSize
        · rw [if_pos hlong] at h
          cases h
        · simp only [if_neg hlong] at h ⊢
          cases hn : lookup? n entries with
          | none =>
            rw [hn] at h
            cases h
          | some u =>
            rw [hn] at h
            exact ih h

/-- **A path leads to what stands below its first part.** -/
theorem find_of_at {root : FileTree} {p : Path} (hfind : root.find p = .ok tree) (h : tree.IsProper)
    (hat : tree.At names t) : root.find ⟨p.root, p.names ++ names⟩ = .ok t := by
  obtain ⟨above, happend⟩ := walk_append hfind
  exact (happend names).trans (walk_of_at h hat above)

theorem mem_of_lookup? (h : lookup? n entries = some t) : (n, t) ∈ entries := by
  induction entries with
  | nil => cases h
  | cons e entries ih =>
    rw [lookup?] at h
    split at h
    · next hname =>
      cases h
      exact hname ▸ List.mem_cons_self
    · exact List.mem_cons_of_mem e (ih h)

/-- A walk through proper folders comes to something proper, also where it leaves a folder again. -/
theorem IsProper.of_walk {above : List FileTree} (habove : ∀ u ∈ above, u.IsProper) (h : tree.IsProper)
    (hwalk : walk above tree names = .ok t) : t.IsProper := by
  induction names generalizing above tree with
  | nil =>
    cases hwalk
    exact h
  | cons n names ih =>
    cases h with
    | file bytes x => cases hwalk
    | @folder entries hnames hdistinct hentries =>
      have hfolder : (FileTree.folder entries).IsProper := .folder hnames hdistinct hentries
      unfold walk at hwalk
      by_cases hup : n = ".."
      · simp only [if_pos hup] at hwalk
        cases above with
        | nil => exact ih habove hfolder hwalk
        | cons up higher =>
          obtain ⟨hup, hhigher⟩ := List.forall_mem_cons.mp habove
          exact ih hhigher hup hwalk
      · simp only [if_neg hup] at hwalk
        by_cases hlong : maxNameBytes < n.utf8ByteSize
        · rw [if_pos hlong] at hwalk
          cases hwalk
        · simp only [if_neg hlong] at hwalk
          cases hn : lookup? n entries with
          | none =>
            rw [hn] at hwalk
            cases hwalk
          | some u =>
            rw [hn] at hwalk
            exact ih (List.forall_mem_cons.mpr ⟨hfolder, habove⟩) (hentries _ (mem_of_lookup? hn)) hwalk

/-- What a path leads to in a proper tree is proper. -/
theorem IsProper.of_find {root : FileTree} {p : Path} (h : root.IsProper) (hfind : root.find p = .ok tree) :
    tree.IsProper :=
  h.of_walk (List.forall_mem_nil _) hfind

/-! ## Other orders -/

/-- The same tree, its folders listed in other orders. -/
inductive Relisted : FileTree → FileTree → Prop
  | refl (t : FileTree) : Relisted t t
  | trans {t u v : FileTree} (h : Relisted t u) (h' : Relisted u v) : Relisted t v
  | folder {entries entries' : List (String × FileTree)} (h : entries.Perm entries') :
      Relisted (.folder entries) (.folder entries')
  | entry (before after : List (String × FileTree)) (n : String) {t u : FileTree} (h : Relisted t u) :
      Relisted (.folder (before ++ (n, t) :: after)) (.folder (before ++ (n, u) :: after))

namespace Relisted

/-- The same files stand at the same names. -/
theorem at_file_iff (h : t.Relisted u) {bytes : List UInt8} {x : Bool} (names : List String) :
    t.At names (.file bytes x) ↔ u.At names (.file bytes x) := by
  induction h generalizing names with
  | refl t => rfl
  | trans _ _ ih ih' => exact (ih names).trans (ih' names)
  | folder h =>
    cases names with
    | nil => simp only [at_nil_iff, reduceCtorEq]
    | cons n names => simp only [folder_at_cons_iff, h.mem_iff]
  | entry before after m h ih =>
    cases names with
    -- The two folders are not one tree, but neither is a file.
    | nil => simp only [at_nil_iff, reduceCtorEq]
    | cons n names =>
      simp only [folder_at_cons_iff, List.mem_append, List.mem_cons, or_and_right, exists_or, Prod.mk.injEq,
        and_assoc, exists_and_left, exists_eq_left, ih]

/-- Another order does not make names improper. -/
theorem isProper (h : t.Relisted u) (ht : t.IsProper) : u.IsProper := by
  induction h with
  | refl t => exact ht
  | trans _ _ ih ih' => exact ih' (ih ht)
  | folder h =>
    cases ht with
    | folder hnames hdistinct hentries =>
      refine .folder ?_ ((h.map _).nodup_iff.mp hdistinct) ?_
      · intro e he
        exact hnames e (h.mem_iff.mpr he)
      · intro e he
        exact hentries e (h.mem_iff.mpr he)
  | entry before after n h ih =>
    cases ht with
    | folder hnames hdistinct hentries =>
      simp only [List.forall_mem_append, List.forall_mem_cons] at hnames hentries
      obtain ⟨hbefore, ht, hafter⟩ := hentries
      refine .folder ?_ ?_ ?_
      · simpa only [List.forall_mem_append, List.forall_mem_cons] using hnames
      · simpa only [List.map_append, List.map_cons] using hdistinct
      · simp only [List.forall_mem_append, List.forall_mem_cons]
        exact ⟨hbefore, ih ht, hafter⟩

end Relisted

end LockAudit.FileTree
