import LockAudit.Mapping

/-!
# `LockAudit.Proofs.Mapping` — what a mapping attaches

A mapping goes through advisories one by one. Each of them either *settles*, with an entry of its own or
without one, or *ends* the mapping (`Settles`, `Ends`; `attach_cons` is the step). So a mapping either
settles all advisories, or it settles those before the one that ends it and stops there (`attach_cases`).

* `mem_attached`, `attached_of_matches` — an unbroken mapping attaches what matches and nothing else.
* `attached_of_ended` — a mapping that is ended has attached what the advisories before had given.
* `breaksOff_iff` — that is something exactly if the mapping `BreaksOff`: an advisory fails after another
  one has matched.
-/

namespace LockAudit.Mapping

variable {source : String} {ix : VersionIndex}

/-! ## One advisory -/

/-- An advisory matches: one of the versions of its package lies in its range, and those before it could
    be decided. -/
def Matches (ix : VersionIndex) (a : Advisory) : Prop := ∃ v, matchingVersion ix a = .ok (some v)

theorem firstIn_some {range v : String} {vs : List String} (h : firstIn range vs = .ok (some v)) :
    v ∈ vs ∧ Range.satisfies v (some range) = .ok true := by
  induction vs with
  | nil => cases h
  | cons w vs ih =>
    rw [firstIn] at h
    cases hw : Range.satisfies w (some range) with
    | error e =>
      rw [hw] at h
      cases h
    | ok b =>
      rw [hw] at h
      cases b with
      | true =>
        have hv : w = v := Option.some.inj (Except.ok.inj h)
        rw [← hv]
        exact ⟨List.mem_cons_self, hw⟩
      | false =>
        obtain ⟨hmem, hsat⟩ := ih h
        exact ⟨List.mem_cons_of_mem w hmem, hsat⟩

theorem firstIn_none {range : String} {vs : List String} (h : firstIn range vs = .ok none) :
    ∀ v ∈ vs, Range.satisfies v (some range) ≠ .ok true := by
  induction vs with
  | nil => exact fun v hv => absurd hv List.not_mem_nil
  | cons w vs ih =>
    rw [firstIn] at h
    cases hw : Range.satisfies w (some range) with
    | error e =>
      rw [hw] at h
      cases h
    | ok b =>
      rw [hw] at h
      cases b with
      | true => cases h
      | false =>
        intro v hv
        rcases List.mem_cons.mp hv with rfl | hv
        · rw [hw]
          intro heq
          cases heq
        · exact ih h v hv

/-- What an entry says about where it comes from. -/
theorem evidence_ok {a : Advisory} {v : String} {e : Evidence} (h : evidence source a v = .ok e) :
    e.moduleName = a.moduleName ∧ e.resolvedVersion = v ∧
      e.vulnerableVersions = a.vulnerableVersions ∧
      Pairs.get? "advisory_id" e.metadata = some (.str a.id) := by
  unfold evidence at h
  split at h
  · cases h
  · rw [← Except.ok.inj h]
    exact ⟨rfl, rfl, rfl, rfl⟩

theorem evidence_error_iff {a : Advisory} {v : String} {m : Mishap} :
    evidence source a v = .error m ↔ a.cvssScore = .error m := by
  unfold evidence
  cases a.cvssScore with
  | error n => simp
  | ok score => simp

/-! ## The step -/

/-- The identifier and package of an advisory, of which one entry is made. -/
def subject (a : Advisory) : String × String := (a.id, a.moduleName)

/-- An advisory settles with some entries, at most one: what is `seen` afterwards includes it if it
    matches. -/
inductive Settles (source : String) (ix : VersionIndex) :
    List (String × String) → Advisory → List Evidence → List (String × String) → Prop
  | off {seen a} (h : matchingVersion ix a = .ok none) : Settles source ix seen a [] seen
  | again {seen a v} (h : matchingVersion ix a = .ok (some v)) (hs : subject a ∈ seen) :
      Settles source ix seen a [] seen
  | entry {seen a v e} (h : matchingVersion ix a = .ok (some v)) (hs : subject a ∉ seen)
      (he : evidence source a v = .ok e) : Settles source ix seen a [e] (subject a :: seen)

/-- An advisory ends a mapping: its range cannot be decided, or it needs an entry and its score is beyond
    all values. -/
inductive Ends (ix : VersionIndex) : List (String × String) → Advisory → Mishap → Prop
  | range {seen a e} (h : matchingVersion ix a = .error e) : Ends ix seen a (.numeral e)
  | score {seen a m} (h : Matches ix a) (hs : subject a ∉ seen) (hm : a.cvssScore = .error m) :
      Ends ix seen a m

/-- **Every advisory settles or ends the mapping.** -/
theorem settles_or_ends (source : String) (ix : VersionIndex) (seen : List (String × String))
    (a : Advisory) :
    (∃ es after, Settles source ix seen a es after) ∨ ∃ m, Ends ix seen a m := by
  cases hm : matchingVersion ix a with
  | error e => exact .inr ⟨_, .range hm⟩
  | ok found =>
    cases found with
    | none => exact .inl ⟨_, _, .off hm⟩
    | some v =>
      by_cases hs : subject a ∈ seen
      · exact .inl ⟨_, _, .again hm hs⟩
      · cases he : evidence source a v with
        | error m => exact .inr ⟨m, .score ⟨v, hm⟩ hs (evidence_error_iff.mp he)⟩
        | ok e => exact .inl ⟨_, _, .entry hm hs he⟩

theorem attach_of_settles {seen after : List (String × String)} {a : Advisory} {es : List Evidence}
    (h : Settles source ix seen a es after) (r : List Advisory) :
    attach source ix seen (a :: r) =
      ⟨es ++ (attach source ix after r).attached, (attach source ix after r).ended⟩ := by
  rw [attach_cons]
  cases h with
  | off hm =>
    rw [hm]
    rfl
  | again hm hs =>
    rw [hm]
    exact if_pos (List.contains_iff_mem.mpr hs)
  | entry hm hs he =>
    rw [hm]
    refine (if_neg (mt List.contains_iff_mem.mp hs)).trans ?_
    rw [he]
    rfl

theorem attach_of_ends {seen : List (String × String)} {a : Advisory} {m : Mishap}
    (h : Ends ix seen a m) (r : List Advisory) : attach source ix seen (a :: r) = ⟨[], some m⟩ := by
  rw [attach_cons]
  cases h with
  | range hm => rw [hm]
  | score hmatch hs hscore =>
    obtain ⟨v, hm⟩ := hmatch
    rw [hm]
    refine (if_neg (mt List.contains_iff_mem.mp hs)).trans ?_
    rw [evidence_error_iff.mpr hscore]

/-! ## Whole mappings -/

/-- Advisories that all settle, one after the other. -/
inductive SettleAll (source : String) (ix : VersionIndex) :
    List (String × String) → List Advisory → List Evidence → List (String × String) → Prop
  | nil {seen} : SettleAll source ix seen [] [] seen
  | cons {seen a es between r fs after} (h : Settles source ix seen a es between)
      (hr : SettleAll source ix between r fs after) :
      SettleAll source ix seen (a :: r) (es ++ fs) after

theorem attach_of_settleAll {seen after : List (String × String)} {as : List Advisory}
    {es : List Evidence} (h : SettleAll source ix seen as es after) (r : List Advisory) :
    attach source ix seen (as ++ r) =
      ⟨es ++ (attach source ix after r).attached, (attach source ix after r).ended⟩ := by
  induction h with
  | nil => rfl
  | cons hsettles _ ih => rw [List.cons_append, attach_of_settles hsettles, ih, List.append_assoc]

/-- **A mapping settles all advisories, or those before the one that ends it.** -/
theorem settleAll_or_ends (source : String) (ix : VersionIndex) (seen : List (String × String))
    (as : List Advisory) :
    (∃ es after, SettleAll source ix seen as es after) ∨
      ∃ before a rest es between m, as = before ++ a :: rest ∧
        SettleAll source ix seen before es between ∧ Ends ix between a m := by
  induction as generalizing seen with
  | nil => exact .inl ⟨[], seen, .nil⟩
  | cons a r ih =>
    rcases settles_or_ends source ix seen a with ⟨es, between, hsettles⟩ | ⟨m, hends⟩
    · rcases ih between with ⟨fs, after, hall⟩ | ⟨before, b, rest, fs, last, m, rfl, hall, hends⟩
      · exact .inl ⟨es ++ fs, after, .cons hsettles hall⟩
      · exact .inr ⟨a :: before, b, rest, es ++ fs, last, m, rfl, .cons hsettles hall, hends⟩
    · exact .inr ⟨[], a, r, [], seen, m, rfl, .nil, hends⟩

section
variable {seen after : List (String × String)} {as : List Advisory} {es : List Evidence}

/-- Every entry comes from an advisory that matches. -/
theorem SettleAll.mem (h : SettleAll source ix seen as es after) {e : Evidence} (he : e ∈ es) :
    ∃ a ∈ as, ∃ v ∈ ix.versions a.moduleName,
      Range.satisfies v (some a.vulnerableVersions) = .ok true ∧ evidence source a v = .ok e := by
  induction h with
  | nil => cases he
  | cons hsettles _ ih =>
    rcases List.mem_append.mp he with he | he
    · cases hsettles with
      | off hm => cases he
      | again hm hs => cases he
      | entry hm hs hev =>
        rw [List.mem_singleton] at he
        obtain ⟨hmem, hsat⟩ := firstIn_some hm
        exact ⟨_, List.mem_cons_self, _, hmem, hsat, he ▸ hev⟩
    · obtain ⟨a, ha, hrest⟩ := ih he
      exact ⟨a, List.mem_cons_of_mem _ ha, hrest⟩

/-- What is seen afterwards was seen before or matches. -/
theorem SettleAll.mem_after (h : SettleAll source ix seen as es after) {k : String × String} :
    k ∈ after ↔ k ∈ seen ∨ ∃ a ∈ as, Matches ix a ∧ subject a = k := by
  induction h with
  | nil => simp
  | cons hsettles _ ih =>
    rw [ih]
    cases hsettles with
    | off hm => simp [Matches, hm]
    | again hm hs =>
      -- It matches and adds nothing, but its subject is there already.
      constructor
      · rintro (hk | ⟨a, ha, hrest⟩)
        · exact .inl hk
        · exact .inr ⟨a, List.mem_cons_of_mem _ ha, hrest⟩
      · rintro (hk | ⟨a, ha, hmatch, rfl⟩)
        · exact .inl hk
        · rcases List.mem_cons.mp ha with rfl | ha
          · exact .inl hs
          · exact .inr ⟨a, ha, hmatch, rfl⟩
    | entry hm hs he =>
      constructor
      · rintro (hk | ⟨a, ha, hrest⟩)
        · rcases List.mem_cons.mp hk with rfl | hk
          · exact .inr ⟨_, List.mem_cons_self, ⟨_, hm⟩, rfl⟩
          · exact .inl hk
        · exact .inr ⟨a, List.mem_cons_of_mem _ ha, hrest⟩
      · rintro (hk | ⟨a, ha, hmatch, rfl⟩)
        · exact .inl (List.mem_cons_of_mem _ hk)
        · rcases List.mem_cons.mp ha with rfl | ha
          · exact .inl List.mem_cons_self
          · exact .inr ⟨a, ha, hmatch, rfl⟩

/-- Whatever is seen in the course of a mapping has an entry. -/
theorem SettleAll.entry_of_mem_after (h : SettleAll source ix seen as es after)
    {k : String × String} (hk : k ∈ after) :
    k ∈ seen ∨ ∃ e ∈ es, Pairs.get? "advisory_id" e.metadata = some (.str k.1) ∧
      e.moduleName = k.2 := by
  induction h with
  | nil => exact .inl hk
  | cons hsettles _ ih =>
    rcases ih hk with hb | ⟨e, he, hrest⟩
    · cases hsettles with
      | off hm => exact .inl hb
      | again hm hs => exact .inl hb
      | entry hm hs hev =>
        rcases List.mem_cons.mp hb with rfl | hb
        · obtain ⟨hname, -, -, hid⟩ := evidence_ok hev
          exact .inr ⟨_, List.mem_append_left _ List.mem_cons_self, hid, hname⟩
        · exact .inl hb
    · exact .inr ⟨e, List.mem_append_right _ he, hrest⟩

end

/-! ## All advisories -/

theorem apply_of_settleAll {as : List Advisory} {es : List Evidence}
    {after : List (String × String)} (h : SettleAll source ix [] as es after) :
    apply source ix as = ⟨es, none⟩ := by
  have heq := attach_of_settleAll h []
  rw [List.append_nil] at heq
  rw [apply, heq]
  show Attachment.mk (es ++ []) none = _
  rw [List.append_nil]

theorem apply_of_ends {before : List Advisory} {es : List Evidence}
    {between : List (String × String)} (h : SettleAll source ix [] before es between) {a : Advisory}
    {m : Mishap} (hends : Ends ix between a m) (r : List Advisory) :
    apply source ix (before ++ a :: r) = ⟨es, some m⟩ := by
  rw [apply, attach_of_settleAll h, attach_of_ends hends]
  show Attachment.mk (es ++ []) (some m) = _
  rw [List.append_nil]

/-- A mapping that nothing ends has settled all advisories. -/
theorem settleAll_of_not_ended {as : List Advisory} (h : (apply source ix as).ended = none) :
    ∃ after, SettleAll source ix [] as (apply source ix as).attached after := by
  rcases settleAll_or_ends source ix [] as with ⟨es, after, hall⟩ |
    ⟨before, a, r, es, between, m, rfl, hall, hends⟩
  · rw [apply_of_settleAll hall]
    exact ⟨after, hall⟩
  · rw [apply_of_ends hall hends] at h
    cases h

/-- **Nothing else is attached.** Every entry comes from an advisory and a version that lies in its
    range. -/
theorem mem_attached {as : List Advisory} (h : (apply source ix as).ended = none) {e : Evidence}
    (he : e ∈ (apply source ix as).attached) :
    ∃ a ∈ as, ∃ v ∈ ix.versions a.moduleName,
      Range.satisfies v (some a.vulnerableVersions) = .ok true ∧ evidence source a v = .ok e := by
  obtain ⟨after, hall⟩ := settleAll_of_not_ended h
  exact hall.mem he

/-- In a mapping that is not ended, every range could be decided up to the first match. -/
theorem SettleAll.matches_of_satisfies {seen after : List (String × String)} {as : List Advisory}
    {es : List Evidence} (h : SettleAll source ix seen as es after) {a : Advisory} (ha : a ∈ as)
    {v : String} (hv : v ∈ ix.versions a.moduleName)
    (hsat : Range.satisfies v (some a.vulnerableVersions) = .ok true) : Matches ix a := by
  induction h with
  | nil => cases ha
  | cons hsettles _ ih =>
    rcases List.mem_cons.mp ha with rfl | ha
    · cases hsettles with
      | off hm => exact absurd hsat (firstIn_none hm v hv)
      | again hm hs => exact ⟨_, hm⟩
      | entry hm hs he => exact ⟨_, hm⟩
    · exact ih ha

/-- **All that matches is attached.** -/
theorem attached_of_matches {as : List Advisory} (h : (apply source ix as).ended = none)
    {a : Advisory} (ha : a ∈ as) {v : String} (hv : v ∈ ix.versions a.moduleName)
    (hsat : Range.satisfies v (some a.vulnerableVersions) = .ok true) :
    ∃ e ∈ (apply source ix as).attached,
      Pairs.get? "advisory_id" e.metadata = some (.str a.id) ∧ e.moduleName = a.moduleName := by
  obtain ⟨after, hall⟩ := settleAll_of_not_ended h
  have hmatch := hall.matches_of_satisfies ha hv hsat
  have hmem : subject a ∈ after := hall.mem_after.mpr (.inr ⟨a, ha, hmatch, rfl⟩)
  rcases hall.entry_of_mem_after hmem with hnil | hentry
  · cases hnil
  · exact hentry

/-! ## Mappings that are ended -/

/-- Settled advisories have given entries exactly if one of them matches. -/
theorem SettleAll.ne_nil_iff {as : List Advisory} {es : List Evidence}
    {after : List (String × String)} (h : SettleAll source ix [] as es after) :
    es ≠ [] ↔ ∃ a ∈ as, Matches ix a := by
  constructor
  · intro hne
    obtain ⟨e, he⟩ := List.exists_mem_of_ne_nil es hne
    obtain ⟨a, ha, v, hv, hsat, -⟩ := h.mem he
    exact ⟨a, ha, h.matches_of_satisfies ha hv hsat⟩
  · rintro ⟨a, ha, hmatch⟩
    have hmem : subject a ∈ after := h.mem_after.mpr (.inr ⟨a, ha, hmatch, rfl⟩)
    rcases h.entry_of_mem_after hmem with hnil | ⟨e, he, -⟩
    · cases hnil
    · exact List.ne_nil_of_mem he

/-- An advisory cannot be mapped behind others: its range cannot be decided, or it matches, none of the
    others has made its entry, and its score is beyond all values. -/
def Fails (ix : VersionIndex) (before : List Advisory) (a : Advisory) : Prop :=
  (∃ e, matchingVersion ix a = .error e) ∨
    (Matches ix a ∧ (∀ b ∈ before, Matches ix b → subject b ≠ subject a) ∧
      ∃ m, a.cvssScore = .error m)

/-- A mapping breaks off: after advisories that can be mapped, of which one matches, comes one that
    cannot. -/
def BreaksOff (source : String) (ix : VersionIndex) (as : List Advisory) : Prop :=
  ∃ before a after, as = before ++ a :: after ∧ (apply source ix before).ended = none ∧
    (∃ b ∈ before, Matches ix b) ∧ Fails ix before a

theorem fails_iff {before : List Advisory} {es : List Evidence} {between : List (String × String)}
    (h : SettleAll source ix [] before es between) {a : Advisory} :
    Fails ix before a ↔ ∃ m, Ends ix between a m := by
  have hseen : subject a ∉ between ↔ ∀ b ∈ before, Matches ix b → subject b ≠ subject a := by
    rw [h.mem_after]
    simp
  constructor
  · rintro (⟨e, he⟩ | ⟨hmatch, hnew, m, hm⟩)
    · exact ⟨_, .range he⟩
    · exact ⟨m, .score hmatch (hseen.mpr hnew) hm⟩
  · rintro ⟨m, hends⟩
    cases hends with
    | range he => exact .inl ⟨_, he⟩
    | score hmatch hs hm => exact .inr ⟨hmatch, hseen.mp hs, m, hm⟩

/-- What a mapping that is ended has attached is what those before had given. -/
theorem attached_of_ended {as : List Advisory} {m : Mishap} (h : (apply source ix as).ended = some m) :
    ∃ before a after, as = before ++ a :: after ∧ (apply source ix before).ended = none ∧
      Fails ix before a ∧ (apply source ix as).attached = (apply source ix before).attached := by
  rcases settleAll_or_ends source ix [] as with ⟨es, after, hall⟩ |
    ⟨before, a, r, es, between, n, rfl, hall, hends⟩
  · rw [apply_of_settleAll hall] at h
    cases h
  · refine ⟨before, a, r, rfl, ?_, (fails_iff hall).mpr ⟨n, hends⟩, ?_⟩
    · rw [apply_of_settleAll hall]
    · rw [apply_of_ends hall hends, apply_of_settleAll hall]

/-- **When entries stay behind.** A mapping that is ended has attached something exactly if it breaks
    off. -/
theorem breaksOff_iff {as : List Advisory} :
    BreaksOff source ix as ↔
      (apply source ix as).ended ≠ none ∧ (apply source ix as).attached ≠ [] := by
  constructor
  · rintro ⟨before, a, after, rfl, hnone, hmatch, hfails⟩
    obtain ⟨between, hall⟩ := settleAll_of_not_ended hnone
    obtain ⟨m, hends⟩ := (fails_iff hall).mp hfails
    rw [apply_of_ends hall hends]
    exact ⟨Option.some_ne_none m, hall.ne_nil_iff.mpr hmatch⟩
  · rintro ⟨hended, hne⟩
    obtain ⟨m, hm⟩ := Option.ne_none_iff_exists'.mp hended
    obtain ⟨before, a, after, rfl, hnone, hfails, hattached⟩ := attached_of_ended hm
    obtain ⟨between, hall⟩ := settleAll_of_not_ended hnone
    rw [hattached] at hne
    exact ⟨before, a, after, rfl, hnone, hall.ne_nil_iff.mp hne, hfails⟩

end LockAudit.Mapping
