import LockAudit.Proofs.Payload.Canonical

/-!
# `LockAudit.Proofs.Payload.Acceptance` — what is accepted, and what is kept of it

Which audit requests a payload can be built from is said here without any reading: by the entries that stand
in a request (`Json.at?`), those among them that a policy retains, and what must be right about one entry.

* `Retains` — an entry stands at a path, and neither it nor an entry above it is excluded.
* `retains_iff_visited` — these are the entries that reading comes to (`Visited`).
* `node_of_visited`, `exists_visited` — where reading succeeds, what it comes to is what is written.
* `exists_firstMalformed` — where it fails, it has come to a malformed entry, and to none before it.
* `build_accepts_well_formed` — all of this for payloads, with the path in the error's text and what becomes of
  each member.
-/

namespace LockAudit.Payload

variable {skip : Bool} {path above : List String} {key : String} {j c entry written : Json} {n : Node} {f : Fault}
  {ms es : List (String × Json)} {ns : List (String × Node)}

/-! ## What is retained -/

/-- An entry stands at a path, and none that is met on the way there, itself included, is ruled out. -/
def Stays (out : List String → Json → Prop) (j : Json) (path : List String) (entry : Json) : Prop :=
  j.at? path = some entry ∧
    ∀ above upper, above ≠ [] → above <+: path → j.at? above = some upper → ¬ out above upper

theorem stays_nil_iff {out : List String → Json → Prop} : Stays out j [] entry ↔ j = entry := by
  constructor
  · rintro ⟨h, -⟩
    exact Option.some.inj h
  · rintro rfl
    exact ⟨rfl, fun above upper hne hprefix => absurd (List.prefix_nil.mp hprefix) hne⟩

/-- On the way to a path its first key is met, and then what is met on the way from there. -/
theorem stays_cons_iff {out : List String → Json → Prop} : Stays out j (key :: path) entry ↔
    ∃ c, Pairs.get? key j.entries = some c ∧ ¬ out [key] c ∧ Stays (fun p => out (key :: p)) c path entry := by
  constructor
  · rintro ⟨hat, hkept⟩
    obtain ⟨c, hc, hat⟩ := Json.at?_cons_iff.mp hat
    refine ⟨c, hc, ?_, hat, ?_⟩
    · have hhere : j.at? [key] = some c := Json.at?_cons_iff.mpr ⟨c, hc, rfl⟩
      exact hkept [key] c (List.cons_ne_nil _ _) (List.cons_prefix_cons.mpr ⟨rfl, List.nil_prefix⟩) hhere
    · intro above upper _ hprefix hupper
      exact hkept (key :: above) upper (List.cons_ne_nil _ _) (List.cons_prefix_cons.mpr ⟨rfl, hprefix⟩)
        (Json.at?_cons_iff.mpr ⟨c, hc, hupper⟩)
  · rintro ⟨c, hc, hhere, hat, hkept⟩
    refine ⟨Json.at?_cons_iff.mpr ⟨c, hc, hat⟩, ?_⟩
    intro above upper hne hprefix hupper
    cases above with
    | nil => exact absurd rfl hne
    | cons k rest =>
      obtain ⟨rfl, hrest⟩ := List.cons_prefix_cons.mp hprefix
      obtain ⟨d, hd, hupper⟩ := Json.at?_cons_iff.mp hupper
      obtain rfl : c = d := Option.some.inj (hc.symm.trans hd)
      by_cases hnil : rest = []
      · subst hnil
        obtain rfl : c = upper := Option.some.inj hupper
        exact hhere
      · exact hkept rest upper hnil hrest hupper

/-- Only entries below the value can be ruled out. -/
theorem stays_congr {out out' : List String → Json → Prop} (h : ∀ p e, p ≠ [] → (out p e ↔ out' p e)) :
    Stays out j path entry ↔ Stays out' j path entry := by
  refine and_congr_right fun _ => forall₂_congr fun above upper => ?_
  refine forall_congr' fun hne => ?_
  rw [h above upper hne]

/-- An entry is excluded by a policy: it is marked as a development dependency, or it stands at the top and
    only the manifest's development section declares it. -/
def Excludes (policy : DevPolicy) (m : Manifest) (skipDev : Bool) (path : List String) (entry : Json) : Prop :=
  skipDev = true ∧
    match policy with
    | .flagged => entry.member? "dev" = some (.bool true)
    | .declared => ∃ key, path = [key] ∧ key ∈ m.devDependencies.map (·.1) ∧ key ∉ m.dependencies.map (·.1)

/-- An entry of a request is retained: neither it nor any entry above it is excluded. -/
def Retains (policy : DevPolicy) (m : Manifest) (skipDev : Bool) (request : Json) (path : List String)
    (entry : Json) : Prop :=
  path ≠ [] ∧ Stays (Excludes policy m skipDev) request path entry

/-! ## What is visited -/

/-- Reading some entries comes to the one at a path: none is left out for its mark on the way there. -/
inductive Visited (skip : Bool) : List (String × Json) → List String → Json → Prop
  | here {es : List (String × Json)} {key : String} {c : Json} (found : Pairs.get? key es = some c)
      (kept : (skip && isMarked c) = false) : Visited skip es [key] c
  | deeper {es : List (String × Json)} {key : String} {c : Json} {path : List String} {entry : Json}
      (found : Pairs.get? key es = some c) (kept : (skip && isMarked c) = false)
      (further : Visited skip (Pairs.sort c.entries) path entry) : Visited skip es (key :: path) entry

theorem visited_cons_iff : Visited skip es (key :: path) entry ↔
    ∃ c, Pairs.get? key es = some c ∧ (skip && isMarked c) = false ∧
      ((path = [] ∧ c = entry) ∨ Visited skip (Pairs.sort c.entries) path entry) := by
  constructor
  · intro h
    cases h with
    | here found kept => exact ⟨_, found, kept, .inl ⟨rfl, rfl⟩⟩
    | deeper found kept further => exact ⟨_, found, kept, .inr further⟩
  · rintro ⟨c, found, kept, ⟨rfl, rfl⟩ | further⟩
    · exact .here found kept
    · exact .deeper found kept further

theorem not_visited_nil : ¬ Visited skip es [] entry := by
  intro h
  cases h

/-- Below the top, an entry stays if no mark rules it out. -/
theorem stays_iff_visited : Stays (fun _ e => (skip && isMarked e) = true) c path entry ↔
    (path = [] ∧ c = entry) ∨ Visited skip (Pairs.sort c.entries) path entry := by
  induction path generalizing c with
  | nil =>
    rw [stays_nil_iff]
    simp [not_visited_nil]
  | cons key path ih =>
    rw [stays_cons_iff, visited_cons_iff]
    simp only [reduceCtorEq, false_and, false_or, Pairs.get?_sort, Bool.not_eq_true, ih]

theorem isMarked_iff : isMarked entry = true ↔ entry.member? "dev" = some (.bool true) := by
  unfold isMarked
  cases entry.member? "dev" with
  | none => simp
  | some v => cases v <;> simp [Json.bool?]

theorem isDevOnly_iff {m : Manifest} : isDevOnly m key = true ↔
    key ∈ m.devDependencies.map (·.1) ∧ key ∉ m.dependencies.map (·.1) := by
  rw [← Bool.not_eq_false, ← Bool.not_eq_true', not_isDevOnly_iff]
  tauto

variable {policy : DevPolicy} {request : Json} {m : Manifest} {skipDev : Bool} {p : Payload}

/-- Of the entries below the top a policy can only exclude those that are marked. -/
theorem excludes_below_iff (hpath : path ≠ []) : Excludes policy m skipDev (key :: path) entry ↔
    (skipDev && policy == .flagged && isMarked entry) = true := by
  unfold Excludes
  cases policy with
  | flagged => simp [isMarked_iff]
  | declared => simp [hpath]

theorem not_excludes_top_iff : ¬ Excludes policy m skipDev [key] entry ↔
    (!(skipDev && policy == .declared && isDevOnly m key)) = true ∧
      (skipDev && policy == .flagged && isMarked entry) = false := by
  unfold Excludes
  cases policy with
  | flagged =>
    rw [← isMarked_iff]
    cases skipDev <;> simp
  | declared =>
    have hkey : (∃ k, [key] = [k] ∧ k ∈ m.devDependencies.map (·.1) ∧ k ∉ m.dependencies.map (·.1)) ↔
        isDevOnly m key = true := by
      rw [isDevOnly_iff]
      constructor
      · rintro ⟨k, hk, hrest⟩
        cases hk
        exact hrest
      · exact fun h => ⟨key, rfl, h⟩
    rw [hkey]
    cases skipDev <;> simp

/-- The entries that are read of a request's top level. -/
def topLevel (policy : DevPolicy) (m : Manifest) (skipDev : Bool) (es : List (String × Json)) :
    List (String × Json) :=
  (Pairs.sort es).filter fun e => !(skipDev && policy == .declared && isDevOnly m e.1)

theorem get?_topLevel_iff : Pairs.get? key (topLevel policy m skipDev es) = some c ↔
    Pairs.get? key es = some c ∧ (!(skipDev && policy == .declared && isDevOnly m key)) = true := by
  have hfilter := Pairs.get?_filter (fun name => !(skipDev && policy == .declared && isDevOnly m name)) key
    (Pairs.sort es)
  rw [topLevel, hfilter, Pairs.get?_sort]
  split
  · next hkeep => simp [hkeep]
  · next hkeep => simp [hkeep]

/-- **What a policy retains is what reading comes to.** -/
theorem retains_iff_visited : Retains policy m skipDev request path entry ↔
    Visited (skipDev && policy == .flagged) (topLevel policy m skipDev request.entries) path entry := by
  cases path with
  | nil => simp [Retains, not_visited_nil]
  | cons key path =>
    have hbelow : ∀ {c}, Stays (fun p => Excludes policy m skipDev (key :: p)) c path entry ↔
        (path = [] ∧ c = entry) ∨
          Visited (skipDev && policy == .flagged) (Pairs.sort c.entries) path entry := by
      intro c
      rw [← stays_iff_visited]
      exact stays_congr fun p e hp => excludes_below_iff hp
    rw [Retains, stays_cons_iff, visited_cons_iff]
    simp only [ne_eq, reduceCtorEq, not_false_eq_true, true_and, not_excludes_top_iff, hbelow, get?_topLevel_iff,
      and_assoc]

/-! ## What is written -/

/-- **What reading comes to is read and written**, where reading succeeds. -/
theorem node_of_visited (hv : Visited skip es path entry) (h : readEach skip above es = .ok ns)
    (hj : j.entries = nodesJson ns) :
    ∃ n, node skip (above ++ path) entry.sorted = .ok n ∧ j.at? path = some (nodeJson n) := by
  induction hv generalizing above ns j with
  | @here es key c found kept =>
    obtain ⟨n, hn, hnode⟩ := get?_readEach h found kept
    refine ⟨n, hnode, Json.at?_cons_iff.mpr ⟨nodeJson n, ?_, rfl⟩⟩
    rw [hj, get?_nodesJson, hn]
    rfl
  | @deeper es key c path entry found kept _ ih =>
    obtain ⟨upper, hupper, hnode⟩ := get?_readEach h found kept
    obtain ⟨n, hn, hat⟩ := ih (children_of_node hnode) (entries_nodeJson upper)
    rw [List.append_assoc] at hn
    refine ⟨n, hn, Json.at?_cons_iff.mpr ⟨nodeJson upper, ?_, hat⟩⟩
    rw [hj, get?_nodesJson, hupper]
    rfl

/-- **What is written, reading has come to.** -/
theorem exists_visited (hes : (es.map (·.1)).Nodup) (hbelow : ∀ e ∈ es, e.2.Distinct)
    (h : readEach skip above es = .ok ns) (hj : j.entries = nodesJson ns) (hpath : path ≠ [])
    (hat : j.at? path = some written) : ∃ entry, Visited skip es path entry := by
  induction path generalizing es above ns j with
  | nil => exact absurd rfl hpath
  | cons key path ih =>
    obtain ⟨top, htop, hat⟩ := Json.at?_cons_iff.mp hat
    rw [hj, get?_nodesJson] at htop
    obtain ⟨n, hn, rfl⟩ := Option.map_eq_some_iff.mp htop
    obtain ⟨c, hc, kept, hnode⟩ := get?_of_readEach hes h hn
    by_cases hrest : path = []
    · subst hrest
      exact ⟨c, .here hc kept⟩
    · obtain ⟨hnames, hdistinct⟩ := (hbelow _ (Pairs.mem_of_get? hc)).entries
      have hdistinct' : ∀ e ∈ Pairs.sort c.entries, e.2.Distinct := fun e he =>
        hdistinct e (Pairs.mem_sort.mp he)
      obtain ⟨entry, hentry⟩ := ih (Pairs.nodup_sort.mpr hnames) hdistinct' (children_of_node hnode)
        (entries_nodeJson n) hrest hat
      exact ⟨entry, .deeper hc kept hentry⟩

/-- What is written of an entry: its version, its integrity if this is a text, what it requires, its mark if
    this is a truth value, and an object of dependencies if it has one. Nothing else is written. -/
structure Copies (entry written : Json) : Prop where
  version : ∃ s, entry.member? "version" = some (.str s) ∧ written.member? "version" = some (.str s)
  integrity : ∀ v, written.member? "integrity" = some v ↔
    entry.member? "integrity" = some v ∧ ∃ s, v = .str s
  requires : Option.Rel (fun v w => v.equal w = true) (entry.member? "requires") (written.member? "requires")
  dev : ∀ v, written.member? "dev" = some v ↔ entry.member? "dev" = some v ∧ ∃ b, v = .bool b
  dependencies : Option.Rel (fun _ w => ∃ ws, w = .obj ws) (entry.member? "dependencies")
    (written.member? "dependencies")
  others : ∀ name, name ∉ ["version", "integrity", "requires", "dev", "dependencies"] →
    written.member? name = none

/-- A member of one kind is written exactly if it is there. -/
theorem map_bind_eq_some_iff {α : Type} {read : Json → Option α} {make : α → Json}
    (h : ∀ v a, read v = some a ↔ v = make a) {o : Option Json} {v : Json} :
    (o.bind read).map make = some v ↔ o = some v ∧ ∃ a, v = make a := by
  simp only [Option.map_eq_some_iff, Option.bind_eq_some_iff, h]
  constructor
  · rintro ⟨a, ⟨w, hw, rfl⟩, rfl⟩
    exact ⟨hw, a, rfl⟩
  · rintro ⟨hv, a, rfl⟩
    exact ⟨a, ⟨_, hv, rfl⟩, rfl⟩

theorem copies_of_node (hentry : entry.Distinct) (h : node skip path entry.sorted = .ok n) :
    Copies entry (nodeJson n) := by
  obtain ⟨version, integrity, requires, dev, dependencies⟩ := n
  have hmembers := hasMembers_nodeJson version integrity requires dev dependencies
  obtain ⟨ms, rfl, ⟨hv, -⟩, rfl, hr, rfl, hd⟩ := node_ok_iff.mp h
  constructor
  case version => exact ⟨version, hv, hmembers.version⟩
  case integrity =>
    intro v
    rw [hmembers.integrity]
    exact map_bind_eq_some_iff fun w s => by cases w <;> simp [Json.str?]
  case requires =>
    rw [hmembers.requires]
    generalize hget : (Json.obj ms).member? "requires" = o
    rw [show Pairs.get? "requires" ms = o from hget] at hr
    cases rel_of_map_eq hr with
    | none => exact .none
    | some hsorted =>
      refine .some (Json.equal_of_sorted_eq (hentry.member? hget) ?_)
      rw [← hsorted, Json.sorted_sorted]
  case dev =>
    intro v
    rw [hmembers.dev]
    exact map_bind_eq_some_iff fun w b => by cases w <;> simp [Json.bool?]
  case dependencies =>
    rw [hmembers.dependencies]
    rcases readBelow_ok_iff.mp hd with ⟨hnone, rfl⟩ | ⟨es, ns, hes, rfl, -⟩
    · rw [Json.member?, hnone]
      exact .none
    · rw [Json.member?, hes]
      exact .some ⟨_, rfl⟩
  case others => exact hmembers.others

/-! ## What is refused -/

/-- What is wrong with an entry by itself, whatever is below it. -/
inductive Malformed (entry : Json) : Prop
  | notObject (h : ∀ ms, entry ≠ .obj ms)
  | version (h : ∀ s, entry.member? "version" = some (.str s) → s = "")
  | requires {v : Json} (h : entry.member? "requires" = some v) (hv : ∀ ms, v ≠ .obj ms)
  | dependencies {v : Json} (h : entry.member? "dependencies" = some v) (hv : ∀ ms, v ≠ .obj ms)

/-- The keys that lead to the entry that a fault is about, if it is about an entry. -/
def Fault.path? : Fault → Option (List String)
  | .notObject => none
  | .noDependencies => none
  | .entryNotObject path => some path
  | .noVersion path => some path
  | .requiresNotObject path => some path
  | .dependenciesNotObject path => some path

/-- A fault names an entry by the keys that lead to it. -/
def Fault.Names (f : Fault) (path : List String) : Prop :=
  ∃ what, f.message = "Dependency '" ++ " > ".intercalate path ++ "' " ++ what

/-- Every fault that is about an entry names it. -/
theorem Fault.names_of_path? (h : f.path? = some path) : f.Names path := by
  cases f with
  | notObject => cases h
  | noDependencies => cases h
  | entryNotObject p =>
    cases h
    exact ⟨"must be an object", by rw [String.append_assoc]; rfl⟩
  | noVersion p =>
    cases h
    exact ⟨"is missing 'version'", by rw [String.append_assoc]; rfl⟩
  | requiresNotObject p =>
    cases h
    exact ⟨"has non-object 'requires'", by rw [String.append_assoc]; rfl⟩
  | dependenciesNotObject p =>
    cases h
    exact ⟨"has non-object 'dependencies'", by rw [String.append_assoc]; rfl⟩

theorem not_malformed_of_node (h : node skip path entry.sorted = .ok n) : ¬ Malformed entry := by
  obtain ⟨version, integrity, requires, dev, dependencies⟩ := n
  obtain ⟨ms, rfl, ⟨hv, hne⟩, -, hr, -, hd⟩ := node_ok_iff.mp h
  intro hmal
  cases hmal with
  | notObject h => exact h ms rfl
  | version h => exact hne (h version hv)
  | @requires v hget hv =>
    rw [show Pairs.get? "requires" ms = some v from hget] at hr
    cases rel_of_map_eq hr with
    | some hsorted =>
      obtain ⟨raw, rfl, -⟩ := exists_of_sorted_eq_obj hsorted
      exact hv raw rfl
  | @dependencies v hget hv =>
    rcases readBelow_ok_iff.mp hd with ⟨hnone, -⟩ | ⟨es, -, hes, -, -⟩
    · rw [show Pairs.get? "dependencies" ms = some v from hget] at hnone
      cases hnone
    · rw [show Pairs.get? "dependencies" ms = some v from hget] at hes
      exact hv es (Option.some.inj hes)

theorem entryVersion_error (h : entryVersion path ms = .error f) : Malformed (.obj ms) ∧ f.Names path := by
  unfold entryVersion at h
  split at h
  · next s hs =>
    split at h
    · next he =>
      rw [← Except.error.inj h]
      refine ⟨.version fun s' hs' => ?_, Fault.names_of_path? rfl⟩
      rw [Json.member?, hs, Option.some.injEq, Json.str.injEq] at hs'
      rw [← hs', he]
    · cases h
  · next hno =>
    rw [← Except.error.inj h]
    exact ⟨.version fun s hs => absurd hs (hno s), Fault.names_of_path? rfl⟩

theorem entryRequires_error (h : entryRequires path ms = .error f) : Malformed (.obj ms) ∧ f.Names path := by
  unfold entryRequires at h
  split at h
  · cases h
  · cases h
  · next v hno hv =>
    rw [← Except.error.inj h]
    exact ⟨.requires hv hno, Fault.names_of_path? rfl⟩

theorem readBelow_error (h : readBelow skip path (Pairs.get? "dependencies" ms) = .error f) :
    (Malformed (.obj ms) ∧ f.Names path) ∨
      ∃ es, Pairs.get? "dependencies" ms = some (.obj es) ∧ readEach skip path (Pairs.sort es) = .error f := by
  unfold readBelow at h
  split at h
  · cases h
  · next es hes =>
    refine .inr ⟨es, hes, ?_⟩
    cases hread : readEach skip path (Pairs.sort es) with
    | ok ns =>
      rw [hread] at h
      cases h
    | error g =>
      rw [hread] at h
      exact congrArg Except.error (Except.error.inj h)
  · next v hno hv =>
    rw [← Except.error.inj h]
    exact .inl ⟨.dependencies hv hno, Fault.names_of_path? rfl⟩

/-- **An entry that cannot be read** is malformed itself, or what is below it cannot be read. -/
theorem node_error (h : node skip path entry.sorted = .error f) :
    (Malformed entry ∧ f.Names path) ∨
      (¬ Malformed entry ∧ readEach skip path (Pairs.sort entry.entries) = .error f) := by
  cases entry with
  | obj ms =>
    rw [node_sorted] at h
    rcases bind_error h with h | ⟨version, hv, h⟩
    · exact .inl (entryVersion_error h)
    rcases bind_error h with h | ⟨requires, hr, h⟩
    · exact .inl (entryRequires_error h)
    rcases bind_error h with h | ⟨dependencies, -, h⟩
    · rcases readBelow_error h with hmal | ⟨es, hes, hread⟩
      · exact .inl hmal
      · rw [Json.entries_of_member? (show (Json.obj ms).member? "dependencies" = some (.obj es) from hes)]
        refine .inr ⟨?_, hread⟩
        -- What is asked of the entry itself has been found by now.
        obtain ⟨hversion, hne⟩ := entryVersion_ok_iff.mp hv
        intro hmal
        cases hmal with
        | notObject h => exact h ms rfl
        | version h => exact hne (h version hversion)
        | @requires v hget hno =>
          obtain ⟨rs, -, hrs⟩ := Option.map_eq_some_iff.mp ((entryRequires_ok_iff.mp hr).symm.trans hget)
          exact hno rs hrs.symm
        | dependencies hget hno => exact hno es (Option.some.inj (hget.symm.trans hes))
    · cases h
  | _ =>
    refine .inl ⟨.notObject fun ms => by simp, ?_⟩
    rw [← Except.error.inj (h : Except.error (.entryNotObject path) = .error f)]
    exact Fault.names_of_path? rfl

/-- The first malformed entry that reading comes to, by the order of paths. -/
structure FirstMalformed (skip : Bool) (es : List (String × Json)) (path : List String) (entry : Json) :
    Prop where
  visited : Visited skip es path entry
  malformed : Malformed entry
  first : ∀ q e, q < path → Visited skip es q e → ¬ Malformed e

theorem not_malformed_of_visited (hv : Visited skip es path entry) (h : readEach skip above es = .ok ns) :
    ¬ Malformed entry := by
  obtain ⟨n, hn, -⟩ := node_of_visited hv h (j := .obj [("dependencies", .obj (nodesJson ns))]) rfl
  exact not_malformed_of_node hn

/-- Where a level cannot be read, reading has come to a first malformed entry, if this is so of the levels
    below it. -/
theorem firstMalformed_of_level (hes : es.Pairwise fun a b => a.1 < b.1)
    (hbelow : ∀ e ∈ es, ∀ above f, readEach skip above (Pairs.sort e.2.entries) = .error f →
      ∃ path entry, FirstMalformed skip (Pairs.sort e.2.entries) path entry ∧ f.Names (above ++ path))
    (h : readEach skip above es = .error f) :
    ∃ path entry, FirstMalformed skip es path entry ∧ f.Names (above ++ path) := by
  obtain ⟨key, c, hfirst⟩ := readEach_error hes h
  -- Entries under smaller keys can be read, with all below them.
  have hbefore : ∀ k rest e, k < key → Visited skip es (k :: rest) e → ¬ Malformed e := by
    intro k rest e hk hv
    obtain ⟨d, hd, kept, hd'⟩ := visited_cons_iff.mp hv
    obtain ⟨n, hn⟩ := hfirst.before k d hk hd kept
    rcases hd' with ⟨-, rfl⟩ | hfurther
    · exact not_malformed_of_node hn
    · exact not_malformed_of_visited hfurther (children_of_node hn)
  rcases node_error hfirst.fault with ⟨hmal, hnames⟩ | ⟨hwell, hread⟩
  · refine ⟨[key], c, ⟨.here hfirst.found hfirst.kept, hmal, ?_⟩, hnames⟩
    intro q e hlt hv
    cases q with
    | nil => exact absurd hv not_visited_nil
    | cons k rest =>
      rcases List.cons_lt_cons_iff.mp hlt with hk | ⟨-, hrest⟩
      · exact hbefore k rest e hk hv
      · exact absurd hrest (List.not_lt_nil _)
  · obtain ⟨path, entry, hmal, hnames⟩ := hbelow _ (Pairs.mem_of_get? hfirst.found) _ _ hread
    rw [List.append_assoc] at hnames
    refine ⟨key :: path, entry, ⟨.deeper hfirst.found hfirst.kept hmal.visited, hmal.malformed, ?_⟩, hnames⟩
    intro q e hlt hv
    cases q with
    | nil => exact absurd hv not_visited_nil
    | cons k rest =>
      rcases List.cons_lt_cons_iff.mp hlt with hk | ⟨rfl, hrest⟩
      · exact hbefore k rest e hk hv
      · -- Under the same key, the order is that of the paths from there on.
        obtain ⟨d, hd, -, hd'⟩ := visited_cons_iff.mp hv
        obtain rfl : c = d := Option.some.inj (hfirst.found.symm.trans hd)
        rcases hd' with ⟨-, rfl⟩ | hfurther
        · exact hwell
        · exact hmal.first rest e hrest hfurther

theorem firstMalformed_below (hj : j.Distinct) (h : readEach skip above (Pairs.sort j.entries) = .error f) :
    ∃ path entry, FirstMalformed skip (Pairs.sort j.entries) path entry ∧ f.Names (above ++ path) := by
  induction j using Json.below_induction generalizing above f with
  | step j ih =>
    obtain ⟨hnames, hdistinct⟩ := hj.entries
    refine firstMalformed_of_level (Pairs.pairwise_lt_sort hnames) ?_ h
    intro e he above f hread
    have he := Pairs.mem_sort.mp he
    exact ih e he (hdistinct e he) hread

/-! ## Payloads -/

/-- A payload is built by reading the top level, if the request has one. -/
theorem build_of_member? (hes : request.member? "dependencies" = some (.obj es)) :
    build policy request m skipDev =
      (readEach (skipDev && policy == .flagged) [] (topLevel policy m skipDev es) >>= fun ns =>
        .ok ⟨filled m.name, filled m.version, registryRanges m skipDev, ns, skipDev⟩) := by
  rw [build_by_levels, topEntries_of_member? hes]
  rfl

theorem pairwise_topLevel (h : (es.map (·.1)).Nodup) :
    (topLevel policy m skipDev es).Pairwise fun a b => a.1 < b.1 :=
  (Pairs.pairwise_lt_sort h).filter _

theorem nodup_topLevel (h : (es.map (·.1)).Nodup) : ((topLevel policy m skipDev es).map (·.1)).Nodup :=
  List.pairwise_map.mpr ((pairwise_topLevel h).imp fun hlt => String.ne_of_lt hlt)

theorem mem_of_mem_topLevel {e : String × Json} (h : e ∈ topLevel policy m skipDev es) : e ∈ es :=
  Pairs.mem_sort.mp (List.mem_filter.mp h).1

/-- Where a payload cannot be built, reading has come to a first malformed entry. -/
theorem exists_firstMalformed (hrequest : request.Distinct)
    (hes : request.member? "dependencies" = some (.obj es))
    (h : build policy request m skipDev = .error f) :
    ∃ path entry, FirstMalformed (skipDev && policy == .flagged) (topLevel policy m skipDev request.entries)
      path entry ∧ f.Names path := by
  obtain ⟨hnames, hdistinct⟩ := hrequest.entries
  rw [build_of_member? hes, ← Json.entries_of_member? hes] at h
  rcases bind_error h with h | ⟨ns, -, h⟩
  · obtain ⟨path, entry, hfirst, hnamed⟩ := firstMalformed_of_level (pairwise_topLevel hnames)
      (fun e he above g hread => firstMalformed_below (hdistinct e (mem_of_mem_topLevel he)) hread) h
    exact ⟨path, entry, hfirst, hnamed⟩
  · cases h

/-- Where a payload is built, all that the policy retains is read. -/
theorem readEach_of_build (h : build policy request m skipDev = .ok p) :
    readEach (skipDev && policy == .flagged) [] (topLevel policy m skipDev request.entries) =
      .ok p.dependencies := by
  obtain ⟨es, ns, hes, hns, rfl⟩ := exists_of_build h
  rw [Json.entries_of_member? hes]
  exact hns

theorem entries_toJson (p : Payload) : p.toJson.entries = nodesJson p.dependencies :=
  Json.entries_of_member? (member?_dependencies_toJson p)

/-- Every path to a retained entry stands in the listing, behind the smaller paths alone. -/
theorem exists_before (hrequest : request.Distinct) (h : Retains policy m skipDev request path entry) :
    ∃ before after, request.sorted.preorder.map (·.1) = before ++ path :: after ∧ ∀ q ∈ before, q < path := by
  obtain ⟨hpath, hat, -⟩ := h
  have hmem : path ∈ request.sorted.preorder.map (·.1) := by
    refine List.mem_map.mpr ⟨(path, entry.sorted), ?_, rfl⟩
    refine (Json.mem_preorder_iff hrequest.sorted).mpr ⟨hpath, ?_⟩
    rw [Json.at?_sorted, hat]
    rfl
  obtain ⟨before, after, hsplit⟩ := List.append_of_mem hmem
  refine ⟨before, after, hsplit, ?_⟩
  have hpairwise := Json.pairwise_preorder hrequest
  rw [hsplit] at hpairwise
  intro q hq
  exact (List.pairwise_append.mp hpairwise).2.2 q hq path List.mem_cons_self

/-- A payload is built unless there is no object of dependencies, or a retained entry is malformed. -/
theorem build_error_iff (hrequest : request.Distinct) : (∃ f, build policy request m skipDev = .error f) ↔
    (∀ es, request.member? "dependencies" ≠ some (.obj es)) ∨
      ∃ path entry, Retains policy m skipDev request path entry ∧ Malformed entry := by
  constructor
  · rintro ⟨f, h⟩
    by_cases hes : ∃ es, request.member? "dependencies" = some (.obj es)
    · obtain ⟨es, hes⟩ := hes
      obtain ⟨path, entry, hfirst, -⟩ := exists_firstMalformed hrequest hes h
      exact .inr ⟨path, entry, retains_iff_visited.mpr hfirst.visited, hfirst.malformed⟩
    · exact .inl fun es heq => hes ⟨es, heq⟩
  · intro h
    cases hbuild : build policy request m skipDev with
    | error f => exact ⟨f, rfl⟩
    | ok p =>
      rcases h with hno | ⟨path, entry, hretains, hmal⟩
      · obtain ⟨es, ns, hes, -, -⟩ := exists_of_build hbuild
        exact absurd hes (hno es)
      · exact absurd hmal (not_malformed_of_visited (retains_iff_visited.mp hretains) (readEach_of_build hbuild))

/-- What is written for a retained entry is the value of the node that was read from it. -/
theorem written_of_retains (hrequest : request.Distinct) (h : build policy request m skipDev = .ok p)
    (hretains : Retains policy m skipDev request path entry) :
    ∃ written, p.toJson.at? path = some written ∧ Copies entry written := by
  obtain ⟨n, hn, hat⟩ := node_of_visited (retains_iff_visited.mp hretains) (readEach_of_build h)
    (entries_toJson p)
  exact ⟨nodeJson n, hat, copies_of_node (hrequest.at? hretains.2.1) hn⟩

/-- What is written is written for a retained entry. -/
theorem retains_of_written (hrequest : request.Distinct) (h : build policy request m skipDev = .ok p)
    (hpath : path ≠ []) (hat : p.toJson.at? path = some written) :
    ∃ entry, Retains policy m skipDev request path entry ∧ Copies entry written := by
  obtain ⟨hnames, hdistinct⟩ := hrequest.entries
  obtain ⟨entry, hvisited⟩ := exists_visited (nodup_topLevel hnames)
    (fun e he => hdistinct e (mem_of_mem_topLevel he)) (readEach_of_build h) (entries_toJson p) hpath hat
  have hretains := retains_iff_visited.mpr hvisited
  obtain ⟨written', hat', hcopies⟩ := written_of_retains hrequest h hretains
  obtain rfl : written = written' := Option.some.inj (hat.symm.trans hat')
  exact ⟨entry, hretains, hcopies⟩

/-- **Exactly the well-formed requests are accepted, and nothing of them is lost.** Building fails, with an
    error about the payload's schema, exactly if the request is not an object, has no object of dependencies,
    or a retained entry is malformed. The error then names the path to the first such entry of the listing with
    keys in order. Otherwise entries are written for the retained ones and no others, each at its path, with the
    members that it has. (Names in one object are distinct in all that is read, by `Json.distinct_of_parse`.) -/
theorem build_accepts_well_formed (policy : DevPolicy) (m : Manifest) (skipDev : Bool)
    (hrequest : request.Distinct) :
    ((∃ f message, build policy request m skipDev = .error f ∧ f.trouble = .of .payloadSchema message) ↔
      (∀ ms, request ≠ .obj ms) ∨ (∀ es, request.member? "dependencies" ≠ some (.obj es)) ∨
        ∃ path entry, Retains policy m skipDev request path entry ∧ Malformed entry) ∧
    (∀ f es, build policy request m skipDev = .error f → request.member? "dependencies" = some (.obj es) →
      ∃ before path after entry what, request.sorted.preorder.map (·.1) = before ++ path :: after ∧
        Retains policy m skipDev request path entry ∧ Malformed entry ∧
        (∀ q ∈ before, ∀ e, Retains policy m skipDev request q e → ¬ Malformed e) ∧
        f.trouble = .of .payloadSchema ("Dependency '" ++ " > ".intercalate path ++ "' " ++ what)) ∧
    ∀ p, build policy request m skipDev = .ok p → ∀ path, path ≠ [] →
      (∀ entry, Retains policy m skipDev request path entry →
        ∃ written, p.toJson.at? path = some written ∧ Copies entry written) ∧
      ∀ written, p.toJson.at? path = some written →
        ∃ entry, Retains policy m skipDev request path entry ∧ Copies entry written := by
  refine ⟨⟨?_, ?_⟩, ?_, ?_⟩
  · rintro ⟨f, -, h, -⟩
    exact .inr ((build_error_iff hrequest).mp ⟨f, h⟩)
  · intro h
    have hno : (∀ ms, request ≠ .obj ms) → ∀ es, request.member? "dependencies" ≠ some (.obj es) := by
      intro hno es
      cases request with
      | obj ms => exact absurd rfl (hno ms)
      | _ => simp [Json.member?]
    obtain ⟨f, hf⟩ := (build_error_iff hrequest).mpr (h.elim (fun h => .inl (hno h)) id)
    exact ⟨f, f.message, hf, rfl⟩
  · intro f es h hes
    obtain ⟨path, entry, hfirst, what, hwhat⟩ := exists_firstMalformed hrequest hes h
    have hretains := retains_iff_visited.mpr hfirst.visited
    obtain ⟨before, after, hsplit, hbefore⟩ := exists_before hrequest hretains
    refine ⟨before, path, after, entry, what, hsplit, hretains, hfirst.malformed, ?_, ?_⟩
    · intro q hq e he
      exact hfirst.first q e (hbefore q hq) (retains_iff_visited.mp he)
    · rw [Fault.trouble, hwhat]
  · intro p h path hpath
    exact ⟨fun entry => written_of_retains hrequest h, fun written => retains_of_written hrequest h hpath⟩

/-- A request with an entry that is not an object, which the sample manifest declares for development only. -/
def faultyRequest : Json :=
  .obj [("dependencies", .obj [("a", .obj [("version", .str "1.0.0")]), ("c", .null)])]

/-- The policy that goes by marks refuses this request, as nothing marks the entry. The one that goes by the
    manifest accepts it, and writes the other entry. -/
theorem build_accepts_well_formed_sample :
    faultyRequest.Distinct ∧
      (∃ f message, build .flagged faultyRequest sampleManifest true = .error f ∧
        f.trouble = .of .payloadSchema message) ∧
      ∃ p written, build .declared faultyRequest sampleManifest true = .ok p ∧
        p.toJson.at? ["a"] = some written ∧ Copies (.obj [("version", .str "1.0.0")]) written := by
  have hdistinct : faultyRequest.Distinct := by
    have hversion : Json.Distinct (.obj [("version", .str "1.0.0")]) := by
      refine .obj (by simp) ?_
      simp [Json.Distinct.str]
    have hentries : Json.Distinct (.obj [("a", .obj [("version", .str "1.0.0")]), ("c", .null)]) := by
      refine .obj (by simp) ?_
      simp [hversion, Json.Distinct.null]
    refine .obj (by simp) ?_
    simpa using hentries
  have hretains : Retains .flagged sampleManifest true faultyRequest ["c"] .null := by
    refine ⟨List.cons_ne_nil _ _, stays_cons_iff.mpr ⟨.null, rfl, ?_, stays_nil_iff.mpr rfl⟩⟩
    simp [Excludes, Json.member?]
  have hkept : Retains .declared sampleManifest true faultyRequest ["a"]
      (.obj [("version", .str "1.0.0")]) := by
    refine ⟨List.cons_ne_nil _ _, stays_cons_iff.mpr ⟨_, rfl, ?_, stays_nil_iff.mpr rfl⟩⟩
    simp [Excludes, sampleManifest]
  have hsorted : faultyRequest.sorted = faultyRequest := by
    simp only [faultyRequest, Json.sorted, Json.sortedMembers, Pairs.sort]
    repeat rw [List.mergeSort_of_pairwise (by decide +kernel)]
  have hbuild : build .declared faultyRequest sampleManifest true =
      .ok ⟨none, none, registryRanges sampleManifest true, [("a", .mk "1.0.0" none none none none)], true⟩ := by
    refine build_ok_iff.mpr
      ⟨[("a", .obj [("version", .str "1.0.0")]), ("c", .null)], _, ?_, rfl, rfl⟩
    rw [hsorted]
    rfl
  have hnull : Malformed .null := .notObject fun ms => by simp
  obtain ⟨hflagged, -, -⟩ := build_accepts_well_formed .flagged sampleManifest true hdistinct
  obtain ⟨-, -, hdeclared⟩ := build_accepts_well_formed .declared sampleManifest true hdistinct
  obtain ⟨written, hat, hcopies⟩ := (hdeclared _ hbuild ["a"] (List.cons_ne_nil _ _)).1 _ hkept
  exact ⟨hdistinct, hflagged.mpr (.inr (.inr ⟨_, _, hretains, hnull⟩)), _, written, hbuild, hat, hcopies⟩

end LockAudit.Payload
