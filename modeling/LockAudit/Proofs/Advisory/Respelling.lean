import Mathlib.Logic.Relation
import LockAudit.AdvisoryService
import LockAudit.Proofs.Advisory.Entries

/-!
# `LockAudit.Proofs.Advisory.Respelling` — one list of advisories, spelled in many ways

A response may hold its entries in three containers, and an entry may spell what it says in several ways:
`Respelled` is one change of an entry from one way to another. A change touches the value of one field, so
each of them is seen to matter to no advisory by looking at that field alone; every other field finds what
it found before.

* `says_replace`, `says_insert`, `says_rename` — what a change to one value does to all fields.
* `describes_iff_of_respelled` — a respelled entry describes the same advisory.
* `listOfJson_spellings` — the containers and the spellings of a response do not matter.
-/

namespace LockAudit.Advisory

open Relation

variable {a : Advisory} {f g : Field} {k k' : String} {v w : Json} {vs ws : List Json} {as : List Advisory}
  {before after : List (String × Json)}

/-- The keys that have a second spelling, with that spelling. -/
def secondSpellings : List (String × String) :=
  [("module_name", "name"), ("vulnerable_versions", "range")]

/-- The keys of lists of texts. -/
def listKeys : List String := ["cves", "cwe"]

/-- One change to the spelling of an entry. -/
inductive Respelled : Json → Json → Prop
  /-- An integer identifier becomes its numeral. -/
  | numeral (before after : List (String × Json)) {n : Int} (h : Numeral.writable n.natAbs = true) :
      Respelled (.obj (before ++ ("id", .num (.int n)) :: after))
        (.obj (before ++ ("id", .str (String.ofList (LockAudit.intText n))) :: after))
  /-- A key becomes its second spelling. -/
  | renamed (before after : List (String × Json)) {k k' : String} (h : (k, k') ∈ secondSpellings)
      (hk : k ∉ (before ++ after).map (·.1)) (hk' : k' ∉ (before ++ after).map (·.1)) (v : Json) :
      Respelled (.obj (before ++ (k, v) :: after)) (.obj (before ++ (k', v) :: after))
  /-- A text alone becomes the list of it. -/
  | single (before after : List (String × Json)) {k : String} (h : k ∈ listKeys) (s : String) :
      Respelled (.obj (before ++ (k, .str s) :: after)) (.obj (before ++ (k, .arr [.str s]) :: after))
  /-- Null becomes the empty list. -/
  | null (before after : List (String × Json)) {k : String} (h : k ∈ listKeys) :
      Respelled (.obj (before ++ (k, .null) :: after)) (.obj (before ++ (k, .arr []) :: after))
  /-- The empty list is put where there was nothing. -/
  | absent (before after : List (String × Json)) {k : String} (h : k ∈ listKeys)
      (hk : k ∉ (before ++ after).map (·.1)) :
      Respelled (.obj (before ++ after)) (.obj (before ++ (k, .arr []) :: after))
  /-- A key that belongs to no field is put in, with any value. -/
  | extra (before after : List (String × Json)) {k : String} (h : ∀ f : Field, k ∉ f.keys) (v : Json) :
      Respelled (.obj (before ++ after)) (.obj (before ++ (k, v) :: after))
  /-- Members with distinct names change their order. -/
  | reordered {ms ms' : List (String × Json)} (h : ms.Perm ms') (hnames : (ms.map (·.1)).Nodup) :
      Respelled (.obj ms) (.obj ms')

/-! ## One value changes -/

/-- A key belongs to one field. -/
theorem eq_of_mem_keys (hf : k ∈ f.keys) (hg : k ∈ g.keys) : f = g := by
  cases f <;> simp only [Field.keys, List.mem_cons, List.not_mem_nil, or_false] at hf
  case moduleName =>
    rcases hf with rfl | rfl <;> cases g <;> first | rfl | exact absurd hg (by decide)
  case vulnerableVersions =>
    rcases hf with rfl | rfl <;> cases g <;> first | rfl | exact absurd hg (by decide)
  all_goals
    subst hf
    cases g <;> first | rfl | exact absurd hg (by decide)

/-- What a field finds depends on its keys only. -/
theorem value?_congr {ms ms' : List (String × Json)}
    (h : ∀ k ∈ f.keys, Pairs.get? k ms = Pairs.get? k ms') : f.value? ms = f.value? ms' := by
  unfold Field.value?
  generalize f.keys = ks at h ⊢
  induction ks with
  | nil => rfl
  | cons k ks ih =>
    rw [List.findSome?_cons, List.findSome?_cons, h k List.mem_cons_self,
      ih fun j hj => h j (List.mem_cons_of_mem k hj)]

/-- A member under a key of another field is not found. -/
theorem value?_insert_of_not_mem (h : k ∉ f.keys) (before after : List (String × Json)) (v : Json) :
    f.value? (before ++ (k, v) :: after) = f.value? (before ++ after) := by
  refine value?_congr fun j hj => Pairs.get?_insert_of_ne ?_ before after v
  rintro rfl
  exact h hj

/-- The only member under a key of the field is found. -/
theorem value?_insert_self (hk : k ∈ f.keys) (h : ∀ j ∈ f.keys, j ∉ (before ++ after).map (·.1))
    (v : Json) : f.value? (before ++ (k, v) :: after) = some v := by
  unfold Field.value?
  generalize f.keys = js at hk h ⊢
  induction js with
  | nil => cases hk
  | cons j js ih =>
    have hj := Pairs.get?_eq_none_iff.mpr (h j List.mem_cons_self)
    rw [List.findSome?_cons]
    by_cases hjk : j = k
    · subst hjk
      rw [Pairs.get?_append, Option.or_eq_none_iff] at hj
      rw [Pairs.get?_insert_self, hj.1]
      rfl
    · rw [Pairs.get?_insert_of_ne (Ne.symm hjk), hj]
      exact ih (List.mem_of_ne_of_mem (Ne.symm hjk) hk) fun i hi => h i (List.mem_cons_of_mem j hi)

/-- Another value that says the same, under the only key of a field. -/
theorem says_replace (hf : f.keys = [k]) (h : f.Says a (some v) ↔ f.Says a (some w)) (g : Field) :
    g.Says a (g.value? (before ++ (k, v) :: after)) ↔
      g.Says a (g.value? (before ++ (k, w) :: after)) := by
  by_cases hg : k ∈ g.keys
  · cases eq_of_mem_keys (hf ▸ List.mem_singleton_self k) hg
    rw [value?_singleton hf, value?_singleton hf, Pairs.get?_insert_self, Pairs.get?_insert_self]
    cases Pairs.get? k before with
    | none => exact h
    | some _ => exact Iff.rfl
  · rw [value?_insert_of_not_mem hg, value?_insert_of_not_mem hg]

/-- A value that says the same as nothing, under the only key of a field. -/
theorem says_insert (hf : f.keys = [k]) (hk : k ∉ (before ++ after).map (·.1))
    (h : f.Says a none ↔ f.Says a (some w)) (g : Field) :
    g.Says a (g.value? (before ++ after)) ↔ g.Says a (g.value? (before ++ (k, w) :: after)) := by
  by_cases hg : k ∈ g.keys
  · have hmem : k ∈ f.keys := hf ▸ List.mem_singleton_self k
    cases eq_of_mem_keys hmem hg
    have hall : ∀ j ∈ f.keys, j ∉ (before ++ after).map (·.1) := by
      rw [hf]
      exact List.forall_mem_singleton.mpr hk
    rw [value?_insert_self hmem hall, value?_singleton hf, Pairs.get?_eq_none_iff.mpr hk]
    exact h
  · rw [value?_insert_of_not_mem hg]

/-- The same value under another key of its field. -/
theorem says_rename (hk : k ∈ f.keys) (hk' : k' ∈ f.keys)
    (h : ∀ j ∈ f.keys, j ∉ (before ++ after).map (·.1)) (v : Json) (g : Field) :
    g.Says a (g.value? (before ++ (k, v) :: after)) ↔
      g.Says a (g.value? (before ++ (k', v) :: after)) := by
  by_cases hg : k ∈ g.keys
  · cases eq_of_mem_keys hk hg
    rw [value?_insert_self hk h, value?_insert_self hk' h]
  · have hg' : k' ∉ g.keys := fun hg' => hg (eq_of_mem_keys hk' hg' ▸ hk)
    rw [value?_insert_of_not_mem hg, value?_insert_of_not_mem hg']

/-! ## Respelled entries -/

/-- The only key of a list of texts, with what it may say. -/
theorem listKeys_field (h : k ∈ listKeys) : ∃ f : Field, f.keys = [k] ∧
    ∀ a, ∃ ts, ∀ o, f.Says a o ↔ SaysTexts o ts := by
  simp only [listKeys, List.mem_cons, List.not_mem_nil, or_false] at h
  rcases h with rfl | rfl
  · exact ⟨.cves, rfl, fun a => ⟨a.cves, fun _ => Iff.rfl⟩⟩
  · exact ⟨.cwe, rfl, fun a => ⟨a.cwe, fun _ => Iff.rfl⟩⟩

theorem secondSpellings_field (h : (k, k') ∈ secondSpellings) : ∃ f : Field, f.keys = [k, k'] := by
  simp only [secondSpellings, List.mem_cons, List.not_mem_nil, or_false, Prod.mk.injEq] at h
  rcases h with ⟨rfl, rfl⟩ | ⟨rfl, rfl⟩
  · exact ⟨.moduleName, rfl⟩
  · exact ⟨.vulnerableVersions, rfl⟩

theorem saysIdentifier_numeral {n : Int} {s : String} (h : Numeral.writable n.natAbs = true) :
    SaysIdentifier (some (.num (.int n))) s ↔
      SaysIdentifier (some (.str (String.ofList (LockAudit.intText n)))) s := by
  rw [← identifier_ok_iff, ← identifier_ok_iff, identifier, if_pos h]
  rfl

theorem saysTexts_single {s : String} {ts : List String} :
    SaysTexts (some (.str s)) ts ↔ SaysTexts (some (.arr [.str s])) ts := by
  rw [← listed_ok_iff, ← listed_ok_iff]
  rfl

theorem saysTexts_null {ts : List String} :
    SaysTexts (some .null) ts ↔ SaysTexts (some (.arr [])) ts := by
  rw [← listed_ok_iff, ← listed_ok_iff]
  rfl

theorem saysTexts_none {ts : List String} : SaysTexts none ts ↔ SaysTexts (some (.arr [])) ts := by
  rw [← saysTexts_null]
  simp [SaysTexts, IsAbsent]

theorem describes_obj_iff {ms : List (String × Json)} :
    Describes (.obj ms) a ↔ ∀ f : Field, f.Says a (f.value? ms) := by
  constructor
  · rintro ⟨_, hms, h⟩
    cases hms
    exact h
  · exact fun h => ⟨ms, rfl, h⟩

/-- **One change of spelling** leaves what an entry describes as it is. -/
theorem Respelled.describes_iff (h : Respelled v w) : Describes v a ↔ Describes w a := by
  cases h with
  | numeral before after h =>
    rw [describes_obj_iff, describes_obj_iff]
    exact forall_congr' (says_replace (f := .id) rfl (saysIdentifier_numeral h))
  | renamed before after h hk hk' v =>
    obtain ⟨f, hf⟩ := secondSpellings_field h
    rw [describes_obj_iff, describes_obj_iff]
    refine forall_congr' (says_rename (f := f) (by simp [hf]) (by simp [hf]) ?_ v)
    rw [hf]
    exact List.forall_mem_cons.mpr ⟨hk, List.forall_mem_singleton.mpr hk'⟩
  | single before after h s =>
    obtain ⟨f, hf, hfield⟩ := listKeys_field h
    obtain ⟨ts, hfield⟩ := hfield a
    rw [describes_obj_iff, describes_obj_iff]
    exact forall_congr' (says_replace hf (by rw [hfield, hfield, saysTexts_single]))
  | null before after h =>
    obtain ⟨f, hf, hfield⟩ := listKeys_field h
    obtain ⟨ts, hfield⟩ := hfield a
    rw [describes_obj_iff, describes_obj_iff]
    exact forall_congr' (says_replace hf (by rw [hfield, hfield, saysTexts_null]))
  | absent before after h hk =>
    obtain ⟨f, hf, hfield⟩ := listKeys_field h
    obtain ⟨ts, hfield⟩ := hfield a
    rw [describes_obj_iff, describes_obj_iff]
    exact forall_congr' (says_insert hf hk (by rw [hfield, hfield, saysTexts_none]))
  | extra before after h v =>
    rw [describes_obj_iff, describes_obj_iff]
    exact forall_congr' fun g => by rw [value?_insert_of_not_mem (h g)]
  | reordered h hnames =>
    rw [describes_obj_iff, describes_obj_iff]
    exact forall_congr' fun g => by rw [value?_congr fun k _ => Pairs.get?_of_perm h hnames k]

/-- **Any changes of spelling**, in either direction, leave what an entry describes as it is. -/
theorem describes_iff_of_respelled (h : EqvGen Respelled v w) : Describes v a ↔ Describes w a := by
  induction h with
  | rel _ _ h => exact h.describes_iff
  | refl => exact Iff.rfl
  | symm _ _ _ ih => exact ih.symm
  | trans _ _ _ _ _ ih ih' => exact ih.trans ih'

theorem forall₂_describes_of_respelled (h : List.Forall₂ (EqvGen Respelled) vs ws)
    (has : List.Forall₂ Describes vs as) : List.Forall₂ Describes ws as := by
  induction h generalizing as with
  | nil => exact has
  | cons hvw _ ih =>
    cases has with
    | cons hv has => exact .cons ((describes_iff_of_respelled hvw).mp hv) (ih has)

/-! ## Responses -/

/-- **The containers and the spellings of a response do not matter.** Entries under the key of an object,
    as an array or as the values of an object under whatever keys, are read as the bare array of them is;
    the array is read one for one, or refused for one of its entries; and respelling the entries of an array
    that is read changes nothing. -/
theorem listOfJson_spellings (wording : Wording) (es : List Json) :
    (∀ ms, Pairs.get? "advisories" ms = some (.arr es) → listOfJson (.obj ms) = listOfJson (.arr es)) ∧
    (∀ ms (ks : List String), ks.length = es.length →
      Pairs.get? "advisories" ms = some (.obj (ks.zip es)) →
      listOfJson (.obj ms) = listOfJson (.arr es)) ∧
    (∀ as, listOfJson (.arr es) = .ok as ↔ List.Forall₂ Describes es as) ∧
    ((∃ f, listOfJson (.arr es) = .error f ∧
        (AdvisoryService.Fault.response f).trouble wording = .of .responseSchema (f.message wording)) ↔
      ∃ e ∈ es, ¬ IsEntry e) ∧
    (∀ es' as, List.Forall₂ (EqvGen Respelled) es es' → listOfJson (.arr es) = .ok as →
      listOfJson (.arr es') = .ok as) := by
  have harray : ∀ vs, listOfJson (.arr vs) = readEntries vs := fun vs => listOfJson_of_holds (.array vs)
  refine ⟨fun ms h => ?_, fun ms ks hlen h => ?_, fun as => ?_, ?_, fun es' as hspell has => ?_⟩
  · rw [harray, listOfJson_of_holds (.under h)]
  · rw [harray, listOfJson_of_holds (.values h), List.map_snd_zip (Nat.le_of_eq hlen.symm)]
  · rw [harray, readEntries_ok_iff]
  · rw [harray, ← readEntries_error_iff]
    exact exists_congr fun f => and_iff_left rfl
  · rw [harray, readEntries_ok_iff] at has ⊢
    exact forall₂_describes_of_respelled hspell has

/-- One entry: its integer identifier becomes a text, its one weakness a list, and its range stands under
    the other key. -/
theorem listOfJson_spellings_sample :
    let entry (idValue : Json) (rangeKey : String) (cweValue : Json) : Json :=
      .obj [("id", idValue), ("module_name", .str "left-pad"), (rangeKey, .str "<1.3.0"),
        ("severity", .str "low"), ("cwe", cweValue)]
    let es : List Json := [entry (.num (.int 7)) "vulnerable_versions" (.str "CWE-1")]
    let es' : List Json := [entry (.str "7") "range" (.arr [.str "CWE-1"])]
    let advisory : Advisory :=
      ⟨"7", "left-pad", "<1.3.0", "low", none, none, none, none, none, none, [], ["CWE-1"], none⟩
    listOfJson (.obj [("muted", .arr []), ("advisories", .arr es)]) = listOfJson (.arr es) ∧
      listOfJson (.obj [("advisories", .obj (["1179"].zip es)), ("muted", .arr [])]) =
        listOfJson (.arr es) ∧
      listOfJson (.arr es') = .ok [advisory] := by
  intro entry es es' advisory
  obtain ⟨harray, hobject, -, -, hspell⟩ := listOfJson_spellings (fun _ => "") es
  refine ⟨harray _ rfl, hobject _ ["1179"] rfl rfl, hspell es' [advisory] (.cons ?_ .nil) rfl⟩
  have hid : Respelled (entry (.num (.int 7)) "vulnerable_versions" (.str "CWE-1"))
      (entry (.str "7") "vulnerable_versions" (.str "CWE-1")) := .numeral [] _ (by decide)
  have hrange : Respelled (entry (.str "7") "vulnerable_versions" (.str "CWE-1"))
      (entry (.str "7") "range" (.str "CWE-1")) :=
    .renamed [("id", .str "7"), ("module_name", .str "left-pad")] _ (by decide) (by decide) (by decide) _
  have hcwe : Respelled (entry (.str "7") "range" (.str "CWE-1"))
      (entry (.str "7") "range" (.arr [.str "CWE-1"])) :=
    .single [("id", .str "7"), ("module_name", .str "left-pad"), ("range", .str "<1.3.0"),
      ("severity", .str "low")] [] (by decide) "CWE-1"
  exact (EqvGen.rel _ _ hid).trans _ _ _ ((EqvGen.rel _ _ hrange).trans _ _ _ (.rel _ _ hcwe))

end LockAudit.Advisory
