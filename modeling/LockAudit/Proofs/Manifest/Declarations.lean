import LockAudit.Proofs.Payload.Reordering

/-!
# `LockAudit.Proofs.Manifest.Declarations` — what a manifest's value declares

A manifest is read section by section, and each section range by range. Said of the value itself, without
the reading:

* `Json.membersAt` — what a section lists, and nothing where there is no object.
* `Manifest.Malformed` — the values that are refused, and `ofJson_error_iff`, that no others are.
* `Manifest.Declares` — a section gives a package a range. `get?_readSection` says that what is read under a
  name is what stands there, so `dependencies_iff` and `devDependencies_iff` turn a manifest back into its
  value.
-/

namespace LockAudit

/-- The members of the object under a key; none if there is no object. -/
def Json.membersAt (key : String) (data : Json) : List (String × Json) :=
  match data.member? key with
  | some (.obj members) => members
  | _ => []

theorem Json.membersAt_of_member? {data : Json} {key : String} {members : List (String × Json)}
    (h : data.member? key = some (.obj members)) : data.membersAt key = members := by
  rw [membersAt, h]

namespace Manifest

/-! ## The values that are refused -/

/-- The keys of the sections. -/
def sectionKeys : List String := ["dependencies", "devDependencies"]

/-- A value that makes no section: something other than an object that counts as set, or an object in
    which a range is not a text. -/
inductive BadSection : Json → Prop
  | notObject {v : Json} (hset : v.isSet = true) (h : ∀ members, v ≠ .obj members) : BadSection v
  | notText {members : List (String × Json)} {name : String} {v : Json} (hv : (name, v) ∈ members)
      (h : ∀ range, v ≠ .str range) : BadSection (.obj members)

/-- A value that declares nothing because it is no manifest. -/
inductive Malformed (data : Json) : Prop
  | notObject (h : ∀ members, data ≠ .obj members)
  | badSection {key : String} {v : Json} (hkey : key ∈ sectionKeys) (hv : data.member? key = some v)
      (h : BadSection v)

variable {key name range : String} {ms : List (String × Json)} {rs : List (String × String)} {v data : Json}
  {m : Manifest}

/-- The ranges of a section are refused at the first that is not a text. -/
theorem ranges_error_iff :
    (∃ f, ranges key ms = .error f) ↔ ∃ name v, (name, v) ∈ ms ∧ ∀ range, v ≠ .str range := by
  induction ms with
  | nil => simp [ranges]
  | cons p ms ih =>
    obtain ⟨name, v⟩ := p
    cases v with
    | str range =>
      have hrest : (∃ f, ranges key ((name, .str range) :: ms) = .error f) ↔ ∃ f, ranges key ms = .error f := by
        rw [ranges]
        cases ranges key ms with
        | ok rs => simp [bind, Except.bind, pure, Except.pure]
        | error f => simp [bind, Except.bind]
      rw [hrest, ih]
      constructor
      · rintro ⟨n, w, hmem, hw⟩
        exact ⟨n, w, List.mem_cons_of_mem _ hmem, hw⟩
      · rintro ⟨n, w, hmem, hw⟩
        rcases List.mem_cons.mp hmem with heq | hmem
        · exact absurd (Prod.mk.inj heq).2 (hw range)
        · exact ⟨n, w, hmem, hw⟩
    | _ => exact ⟨fun _ => ⟨name, _, List.mem_cons_self, fun _ => by simp⟩, fun _ => ⟨_, rfl⟩⟩

/-- An object is read by its members, also if there are none. -/
theorem readSection_obj (key : String) (ms : List (String × Json)) :
    readSection key (some (.obj ms)) = ranges key ms := by
  cases ms <;> rfl

theorem readSection_of_not_obj (h : ∀ members, v ≠ .obj members) :
    readSection key (some v) = if v.isSet then .error (.sectionNotObject key) else .ok [] := by
  cases v with
  | obj members => exact absurd rfl (h members)
  | _ => rfl

theorem readSection_error_iff (key : String) (v : Option Json) :
    (∃ f, readSection key v = .error f) ↔ ∃ w, v = some w ∧ BadSection w := by
  cases v with
  | none => simp [readSection]
  | some w =>
    simp only [Option.some.injEq, exists_eq_left']
    by_cases hobj : ∃ ms, w = .obj ms
    · obtain ⟨ms, rfl⟩ := hobj
      rw [readSection_obj, ranges_error_iff]
      constructor
      · rintro ⟨name, v, hv, h⟩
        exact .notText hv h
      · intro h
        cases h with
        | notObject _ h => exact absurd rfl (h ms)
        | notText hv h => exact ⟨_, _, hv, h⟩
    · have hobj : ∀ ms, w ≠ .obj ms := fun ms h => hobj ⟨ms, h⟩
      rw [readSection_of_not_obj hobj]
      constructor
      · rintro ⟨f, h⟩
        split at h
        · next hset => exact .notObject hset hobj
        · cases h
      · intro h
        cases h with
        | notObject hset _ => exact ⟨_, if_pos hset⟩
        | notText _ _ => exact absurd rfl (hobj _)

/-- A manifest is read from an object, its sections one after the other. -/
theorem ofJson_ok_iff : ofJson (.obj ms) = .ok m ↔
    readSection "dependencies" (Pairs.get? "dependencies" ms) = .ok m.dependencies ∧
    readSection "devDependencies" (Pairs.get? "devDependencies" ms) = .ok m.devDependencies ∧
    m.name = (Pairs.get? "name" ms).bind Json.str? ∧ m.version = (Pairs.get? "version" ms).bind Json.str? := by
  constructor
  · intro h
    unfold ofJson at h
    obtain ⟨dependencies, hd, h⟩ := exists_of_bind_ok h
    obtain ⟨devDependencies, hdd, h⟩ := exists_of_bind_ok h
    rw [← Except.ok.inj h]
    exact ⟨hd, hdd, rfl, rfl⟩
  · rintro ⟨hd, hdd, hname, hversion⟩
    unfold ofJson
    simp only [hd, hdd, ← hname, ← hversion]
    rfl

/-- **The refused values** are those that are no object, or have a section that is none. -/
theorem ofJson_error_iff (data : Json) : (∃ f, ofJson data = .error f) ↔ Malformed data := by
  cases data with
  | obj ms =>
    constructor
    · rintro ⟨f, h⟩
      have hbad : ∀ key ∈ sectionKeys, (∃ f, readSection key (Pairs.get? key ms) = .error f) →
          Malformed (.obj ms) := by
        intro key hkey hf
        obtain ⟨v, hv, hbad⟩ := (readSection_error_iff key _).mp hf
        exact .badSection hkey hv hbad
      unfold ofJson at h
      rcases bind_error h with h | ⟨_, _, h⟩
      · exact hbad "dependencies" (by simp [sectionKeys]) ⟨f, h⟩
      rcases bind_error h with h | ⟨_, _, h⟩
      · exact hbad "devDependencies" (by simp [sectionKeys]) ⟨f, h⟩
      · cases h
    · intro h
      cases hread : ofJson (.obj ms) with
      | error f => exact ⟨f, rfl⟩
      | ok m =>
        obtain ⟨hd, hdd, -, -⟩ := ofJson_ok_iff.mp hread
        cases h with
        | notObject h => exact absurd rfl (h ms)
        | @badSection key v hkey hv hbad =>
          -- A bad section would have been an error where the manifest has that section.
          obtain ⟨f, hf⟩ := (readSection_error_iff key _).mpr ⟨v, hv, hbad⟩
          simp only [sectionKeys, List.mem_cons, List.not_mem_nil, or_false] at hkey
          rcases hkey with rfl | rfl
          · cases hd.symm.trans hf
          · cases hdd.symm.trans hf
  | _ => exact ⟨fun _ => .notObject fun _ => by simp, fun _ => ⟨_, rfl⟩⟩

/-! ## What is declared -/

/-- A section of a value gives a package a range. -/
def Declares (data : Json) (key name range : String) : Prop :=
  Pairs.get? name (data.membersAt key) = some (.str range)

/-- The ranges of a section stand under the names of its members. -/
theorem get?_ranges (h : ranges key ms = .ok rs) (name : String) :
    Pairs.get? name ms = (Pairs.get? name rs).map Json.str := by
  induction ms generalizing rs with
  | nil =>
    rw [ranges] at h
    rw [← Except.ok.inj h]
    rfl
  | cons p ms ih =>
    obtain ⟨k, v⟩ := p
    cases v with
    | str range =>
      rw [ranges] at h
      obtain ⟨rest, hrest, h⟩ := exists_of_bind_ok h
      rw [← (Except.ok.inj h : (k, range) :: rest = rs)]
      by_cases hk : k = name
      · simp [Pairs.get?, hk]
      · simp [Pairs.get?, hk, ih hrest]
    | _ =>
      unfold ranges at h
      cases h

/-- What is read from a section is what stands there. -/
theorem get?_readSection (h : readSection key (data.member? key) = .ok rs) (name : String) :
    Pairs.get? name (data.membersAt key) = (Pairs.get? name rs).map Json.str := by
  have hnone : rs = [] → data.membersAt key = [] →
      Pairs.get? name (data.membersAt key) = (Pairs.get? name rs).map Json.str := by
    intro hrs hmembers
    rw [hrs, hmembers]
    rfl
  cases hv : data.member? key with
  | none =>
    rw [hv] at h
    exact hnone (Except.ok.inj h).symm (by rw [Json.membersAt, hv])
  | some v =>
    rw [hv] at h
    by_cases hobj : ∃ ms, v = .obj ms
    · obtain ⟨ms, rfl⟩ := hobj
      rw [readSection_obj] at h
      rw [Json.membersAt_of_member? hv]
      exact get?_ranges h name
    · have hobj : ∀ ms, v ≠ .obj ms := fun ms h => hobj ⟨ms, h⟩
      rw [readSection_of_not_obj hobj] at h
      split at h
      · cases h
      · refine hnone (Except.ok.inj h).symm ?_
        unfold Json.membersAt
        rw [hv]
        split
        · next ms heq => exact absurd (Option.some.inj heq) (hobj ms)
        · rfl

theorem exists_members_of_ofJson (h : ofJson data = .ok m) : ∃ ms, data = .obj ms := by
  cases data with
  | obj ms => exact ⟨ms, rfl⟩
  | _ => simp [ofJson] at h

/-- The main section of a manifest is that of its value. -/
theorem get?_dependencies (h : ofJson data = .ok m) (name : String) :
    Pairs.get? name (data.membersAt "dependencies") = (Pairs.get? name m.dependencies).map Json.str := by
  obtain ⟨ms, rfl⟩ := exists_members_of_ofJson h
  have hread : readSection "dependencies" ((Json.obj ms).member? "dependencies") = .ok m.dependencies :=
    (ofJson_ok_iff.mp h).1
  exact get?_readSection hread name

/-- So is the section for development. -/
theorem get?_devDependencies (h : ofJson data = .ok m) (name : String) :
    Pairs.get? name (data.membersAt "devDependencies") = (Pairs.get? name m.devDependencies).map Json.str := by
  obtain ⟨ms, rfl⟩ := exists_members_of_ofJson h
  have hread : readSection "devDependencies" ((Json.obj ms).member? "devDependencies") =
    .ok m.devDependencies := (ofJson_ok_iff.mp h).2.1
  exact get?_readSection hread name

theorem dependencies_iff (h : ofJson data = .ok m) :
    Declares data "dependencies" name range ↔ Pairs.get? name m.dependencies = some range := by
  simp [Declares, get?_dependencies h]

theorem devDependencies_iff (h : ofJson data = .ok m) :
    Declares data "devDependencies" name range ↔ Pairs.get? name m.devDependencies = some range := by
  simp [Declares, get?_devDependencies h]

end Manifest

end LockAudit
