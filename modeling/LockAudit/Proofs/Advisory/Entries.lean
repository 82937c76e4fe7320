import Mathlib.Data.List.Forall2
import LockAudit.Advisory
import LockAudit.Proofs.Json.Pairs

/-!
# `LockAudit.Proofs.Advisory.Entries` — what an entry says

An entry is read field by field, and every field has its own idea of what it may hold. This module says
what that is, in terms of the entry and of the advisory and not of the reader: a `Field` finds its value
under the first of its keys (`Field.value?`), the value says something about the advisory (`Field.Says`),
and an entry `Describes` an advisory if all fields do.

* `ofJson_ok_iff` — an entry is read as an advisory exactly if it describes it.
* `entries?_ok_iff` — the three containers in which a response may hold its entries (`Holds`).
* `readEntries_ok_iff`, `readEntries_error_iff` — entries are read one for one and in their order, and all
  or none.
* `listOfJson_ok_iff` — so a response is read.
-/

namespace LockAudit.Advisory

open Schema

variable {v : Json} {o : Option Json} {a : Advisory} {as : List Advisory} {vs : List Json}
  {ms : List (String × Json)}

/-! ## Fields -/

/-- The fields of an advisory. -/
inductive Field
  | id
  | moduleName
  | vulnerableVersions
  | severity
  | patchedVersions
  | title
  | overview
  | recommendation
  | url
  | githubAdvisoryId
  | cves
  | cwe
  | cvss
  deriving DecidableEq

/-- The keys that an entry may have for a field. Where it has several, the first one counts. -/
def Field.keys : Field → List String
  | .id => ["id"]
  | .moduleName => ["module_name", "name"]
  | .vulnerableVersions => ["vulnerable_versions", "range"]
  | .severity => ["severity"]
  | .patchedVersions => ["patched_versions"]
  | .title => ["title"]
  | .overview => ["overview"]
  | .recommendation => ["recommendation"]
  | .url => ["url"]
  | .githubAdvisoryId => ["github_advisory_id"]
  | .cves => ["cves"]
  | .cwe => ["cwe"]
  | .cvss => ["cvss"]

/-- What an entry has for a field. -/
def Field.value? (f : Field) (ms : List (String × Json)) : Option Json :=
  f.keys.findSome? fun k => Pairs.get? k ms

/-- Nothing, or null. -/
def IsAbsent (o : Option Json) : Prop := o = none ∨ o = some .null

/-- An identifier is a text, or an integer whose numeral can be written. -/
def SaysIdentifier (o : Option Json) (s : String) : Prop :=
  o = some (.str s) ∨
    ∃ n : Int, o = some (.num (.int n)) ∧ Numeral.writable n.natAbs = true ∧
      s = String.ofList (LockAudit.intText n)

/-- A text that need not be there. -/
def SaysText (o : Option Json) (t : Option String) : Prop :=
  IsAbsent o ∧ t = none ∨ ∃ s, o = some (.str s) ∧ t = some s

/-- Some texts: as a list, or one text alone, or none at all. -/
def SaysTexts (o : Option Json) (ts : List String) : Prop :=
  IsAbsent o ∧ ts = [] ∨ (∃ s, o = some (.str s) ∧ ts = [s]) ∨ o = some (.arr (ts.map .str))

/-- An object that need not be there. -/
def SaysMembers (o : Option Json) (t : Option (List (String × Json))) : Prop :=
  IsAbsent o ∧ t = none ∨ ∃ members, o = some (.obj members) ∧ t = some members

/-- What the value of a field says about an advisory. -/
def Field.Says (a : Advisory) (o : Option Json) : Field → Prop
  | .id => SaysIdentifier o a.id
  | .moduleName => o = some (.str a.moduleName)
  | .vulnerableVersions => o = some (.str a.vulnerableVersions)
  | .severity => o = some (.str a.severity)
  | .patchedVersions => SaysText o a.patchedVersions
  | .title => SaysText o a.title
  | .overview => SaysText o a.overview
  | .recommendation => SaysText o a.recommendation
  | .url => SaysText o a.url
  | .githubAdvisoryId => SaysText o a.githubAdvisoryId
  | .cves => SaysTexts o a.cves
  | .cwe => SaysTexts o a.cwe
  | .cvss => SaysMembers o a.cvss

/-- An entry describes an advisory: it is an object, and each of its fields says what the advisory has. -/
def Describes (v : Json) (a : Advisory) : Prop :=
  ∃ ms, v = .obj ms ∧ ∀ f : Field, f.Says a (f.value? ms)

/-- An entry that describes some advisory. -/
def IsEntry (v : Json) : Prop := ∃ a, Describes v a

/-! ## Reading values -/

theorem text_ok_iff {s : String} : text v = .ok s ↔ v = .str s := by
  cases v with
  | str t => simp [text]
  | _ => simp [text, fail]

theorem identifier_ok_iff {s : String} : identifier v = .ok s ↔ SaysIdentifier (some v) s := by
  unfold identifier SaysIdentifier
  split
  · next n =>
    split
    · next h =>
      rw [Except.ok.injEq]
      constructor
      · rintro rfl
        exact .inr ⟨n, rfl, h, rfl⟩
      · rintro (hstr | ⟨m, hm, -, rfl⟩)
        · cases hstr
        · cases hm
          rfl
    · next h =>
      refine ⟨nofun, ?_⟩
      rintro (hstr | ⟨m, hm, hwritable, -⟩)
      · cases hstr
      · cases hm
        exact absurd hwritable h
  · next hint =>
    rw [text_ok_iff]
    constructor
    · rintro rfl
      exact .inl rfl
    · rintro (h | ⟨n, h, -, -⟩)
      · exact Option.some.inj h
      · exact absurd (Option.some.inj h) (hint n)

theorem textOrNull_ok_iff {t : Option String} : textOrNull v = .ok t ↔ SaysText (some v) t := by
  cases v with
  | null => simp [textOrNull, SaysText, IsAbsent, eq_comm]
  | str s => simp [textOrNull, SaysText, IsAbsent, eq_comm]
  | _ => simp [textOrNull, SaysText, IsAbsent, fail]

theorem textItems_ok_iff {n : Nat} {ts : List String} :
    textItems n vs = .ok ts ↔ vs = ts.map .str := by
  induction vs generalizing n ts with
  | nil => cases ts <;> simp [textItems]
  | cons v vs ih =>
    rw [textItems, Checked.both_eq_ok_iff]
    constructor
    · rintro ⟨s, ts, hs, hts, rfl⟩
      rw [List.map_cons, text_ok_iff.mp (Checked.of_under hs), ih.mp hts]
    · intro h
      cases ts with
      | nil => cases h
      | cons s ts =>
        rw [List.map_cons, List.cons.injEq] at h
        exact ⟨s, ts, by rw [h.1]; rfl, ih.mpr h.2, rfl⟩

theorem listed_ok_iff {ts : List String} : listed v = .ok ts ↔ SaysTexts (some v) ts := by
  cases v with
  | null => simp [listed, SaysTexts, IsAbsent, eq_comm]
  | str s => simp [listed, SaysTexts, IsAbsent, eq_comm]
  | arr items => simp [listed, texts, textItems_ok_iff, SaysTexts, IsAbsent]
  | _ => simp [listed, texts, SaysTexts, IsAbsent, fail]

theorem membersOrNull_ok_iff {t : Option (List (String × Json))} :
    membersOrNull v = .ok t ↔ SaysMembers (some v) t := by
  cases v with
  | null => simp [membersOrNull, SaysMembers, IsAbsent, eq_comm]
  | obj ms => simp [membersOrNull, SaysMembers, IsAbsent, eq_comm]
  | _ => simp [membersOrNull, SaysMembers, IsAbsent, fail]

/-! ## Reading fields -/

section

variable {α : Type} {x default : α} {key first : String} {others : List String} {read : Json → Checked α}

theorem under_ok_iff {step : Step} {c : Checked α} : c.under step = .ok x ↔ c = .ok x := by
  cases c with
  | ok y => rfl
  | error es => simp [Checked.under]

theorem spelled?_map (ms : List (String × Json)) (ks : List String) :
    (spelled? ms ks).map (·.2) = ks.findSome? fun k => Pairs.get? k ms := by
  induction ks with
  | nil => rfl
  | cons k ks ih =>
    rw [spelled?, List.findSome?_cons]
    cases Pairs.get? k ms with
    | some v => rfl
    | none => exact ih

/-- A field that must be there is read where it is. -/
theorem required_ok_iff : required ms first others read = .ok x ↔
    ∃ v, (first :: others).findSome? (fun k => Pairs.get? k ms) = some v ∧ read v = .ok x := by
  rw [← spelled?_map, required]
  cases spelled? ms (first :: others) with
  | none => simp [fail]
  | some p => simp [under_ok_iff]

/-- A field that need not be there is read where it is, and its default is what nothing says. -/
theorem optional_ok_iff {P : Option Json → α → Prop} (hread : ∀ v x, read v = .ok x ↔ P (some v) x)
    (hnone : ∀ x, default = x ↔ P none x) :
    optional ms key default read = .ok x ↔ P (Pairs.get? key ms) x := by
  rw [optional]
  cases Pairs.get? key ms with
  | none => rw [Except.ok.injEq, hnone]
  | some v => rw [under_ok_iff, hread]

end

/-- A text that must be there is under one of its keys. -/
theorem requiredText_iff {first s : String} {others : List String} :
    required ms first others text = .ok s ↔
      (first :: others).findSome? (fun k => Pairs.get? k ms) = some (.str s) := by
  simp [required_ok_iff, text_ok_iff]

theorem optionalText_iff {key : String} {t : Option String} :
    optional ms key none textOrNull = .ok t ↔ SaysText (Pairs.get? key ms) t :=
  optional_ok_iff (fun _ _ => textOrNull_ok_iff) fun _ => by simp [SaysText, IsAbsent, eq_comm]

theorem optionalTexts_iff {key : String} {ts : List String} :
    optional ms key [] listed = .ok ts ↔ SaysTexts (Pairs.get? key ms) ts :=
  optional_ok_iff (fun _ _ => listed_ok_iff) fun _ => by simp [SaysTexts, IsAbsent, eq_comm]

theorem optionalMembers_iff {key : String} {t : Option (List (String × Json))} :
    optional ms key none membersOrNull = .ok t ↔ SaysMembers (Pairs.get? key ms) t :=
  optional_ok_iff (fun _ _ => membersOrNull_ok_iff) fun _ => by simp [SaysMembers, IsAbsent, eq_comm]

theorem requiredIdentifier_iff {key s : String} :
    required ms key [] identifier = .ok s ↔ SaysIdentifier (Pairs.get? key ms) s := by
  rw [required_ok_iff, List.findSome?_singleton]
  cases Pairs.get? key ms with
  | none => simp [SaysIdentifier]
  | some v => simp [identifier_ok_iff]

/-- A field with one key has the value of that key. -/
theorem value?_singleton {f : Field} {k : String} (h : f.keys = [k]) (ms : List (String × Json)) :
    f.value? ms = Pairs.get? k ms := by
  rw [Field.value?, h, List.findSome?_singleton]

/-! ## Reading entries -/

/-- The fields of an object are read each for itself. -/
theorem ofJson_obj_iff : ofJson (.obj ms) = .ok a ↔
    required ms "id" [] identifier = .ok a.id ∧
    required ms "module_name" ["name"] text = .ok a.moduleName ∧
    required ms "vulnerable_versions" ["range"] text = .ok a.vulnerableVersions ∧
    required ms "severity" [] text = .ok a.severity ∧
    optional ms "patched_versions" none textOrNull = .ok a.patchedVersions ∧
    optional ms "title" none textOrNull = .ok a.title ∧
    optional ms "overview" none textOrNull = .ok a.overview ∧
    optional ms "recommendation" none textOrNull = .ok a.recommendation ∧
    optional ms "url" none textOrNull = .ok a.url ∧
    optional ms "github_advisory_id" none textOrNull = .ok a.githubAdvisoryId ∧
    optional ms "cves" [] listed = .ok a.cves ∧
    optional ms "cwe" [] listed = .ok a.cwe ∧
    optional ms "cvss" none membersOrNull = .ok a.cvss := by
  simp only [ofJson, Checked.apply, Checked.both_eq_ok_iff]
  constructor
  · -- The fields in the order of the record, the last one first.
    rintro ⟨_, cvss, ⟨_, cwe, ⟨_, cves, ⟨_, ghsa, ⟨_, url, ⟨_, recommendation, ⟨_, overview, ⟨_, title,
      ⟨_, patched, ⟨_, severity, ⟨_, range, ⟨_, name, ⟨_, id, hmk, hid, rfl⟩, hname, rfl⟩, hrange, rfl⟩,
      hseverity, rfl⟩, hpatched, rfl⟩, htitle, rfl⟩, hoverview, rfl⟩, hrecommendation, rfl⟩, hurl, rfl⟩,
      hghsa, rfl⟩, hcves, rfl⟩, hcwe, rfl⟩, hcvss, rfl⟩
    rw [Checked.of, Except.ok.injEq] at hmk
    subst hmk
    exact ⟨hid, hname, hrange, hseverity, hpatched, htitle, hoverview, hrecommendation, hurl, hghsa, hcves,
      hcwe, hcvss⟩
  · rintro ⟨hid, hname, hrange, hseverity, hpatched, htitle, hoverview, hrecommendation, hurl, hghsa, hcves,
      hcwe, hcvss⟩
    exact ⟨_, _, ⟨_, _, ⟨_, _, ⟨_, _, ⟨_, _, ⟨_, _, ⟨_, _, ⟨_, _, ⟨_, _, ⟨_, _, ⟨_, _, ⟨_, _,
      ⟨_, _, rfl, hid, rfl⟩, hname, rfl⟩, hrange, rfl⟩, hseverity, rfl⟩, hpatched, rfl⟩, htitle, rfl⟩,
      hoverview, rfl⟩, hrecommendation, rfl⟩, hurl, rfl⟩, hghsa, rfl⟩, hcves, rfl⟩, hcwe, rfl⟩, hcvss, rfl⟩

/-- **An entry is read as the advisory that it describes**, and not at all if it describes none. -/
theorem ofJson_ok_iff : ofJson v = .ok a ↔ Describes v a := by
  cases v with
  | obj ms =>
    rw [ofJson_obj_iff]
    simp only [requiredIdentifier_iff, requiredText_iff, optionalText_iff, optionalTexts_iff,
      optionalMembers_iff]
    constructor
    · rintro ⟨hid, hname, hrange, hseverity, hpatched, htitle, hoverview, hrecommendation, hurl, hghsa,
        hcves, hcwe, hcvss⟩
      refine ⟨ms, rfl, fun f => ?_⟩
      cases f with
      | id => rwa [value?_singleton rfl]
      | moduleName => exact hname
      | vulnerableVersions => exact hrange
      | severity => exact hseverity
      | patchedVersions => rwa [value?_singleton rfl]
      | title => rwa [value?_singleton rfl]
      | overview => rwa [value?_singleton rfl]
      | recommendation => rwa [value?_singleton rfl]
      | url => rwa [value?_singleton rfl]
      | githubAdvisoryId => rwa [value?_singleton rfl]
      | cves => rwa [value?_singleton rfl]
      | cwe => rwa [value?_singleton rfl]
      | cvss => rwa [value?_singleton rfl]
    · rintro ⟨_, hms, h⟩
      cases hms
      have hsingle : ∀ (f : Field) {k : String}, f.keys = [k] → f.Says a (Pairs.get? k ms) := by
        intro f k hk
        rw [← value?_singleton hk]
        exact h f
      exact ⟨hsingle .id rfl, h .moduleName, h .vulnerableVersions, h .severity,
        hsingle .patchedVersions rfl, hsingle .title rfl, hsingle .overview rfl,
        hsingle .recommendation rfl, hsingle .url rfl, hsingle .githubAdvisoryId rfl,
        hsingle .cves rfl, hsingle .cwe rfl, hsingle .cvss rfl⟩
  | _ =>
    refine ⟨nofun, ?_⟩
    rintro ⟨_, hms, -⟩
    cases hms

/-- **Entries are read one for one**, in their order. -/
theorem readEntries_ok_iff : readEntries vs = .ok as ↔ List.Forall₂ Describes vs as := by
  induction vs generalizing as with
  | nil => simp [readEntries, eq_comm]
  | cons v vs ih =>
    rw [readEntries, List.forall₂_cons_left_iff]
    simp only [← ofJson_ok_iff, ← ih]
    cases ofJson v with
    | error issues => simp
    | ok a =>
      cases readEntries vs with
      | error f => simp
      | ok bs => simp [eq_comm]

theorem forall₂_of_isEntry (h : ∀ v ∈ vs, IsEntry v) : ∃ as, List.Forall₂ Describes vs as := by
  induction vs with
  | nil => exact ⟨[], .nil⟩
  | cons v vs ih =>
    obtain ⟨a, ha⟩ := h v List.mem_cons_self
    obtain ⟨as, has⟩ := ih fun w hw => h w (List.mem_cons_of_mem v hw)
    exact ⟨a :: as, .cons ha has⟩

theorem isEntry_of_forall₂ (h : List.Forall₂ Describes vs as) : ∀ v ∈ vs, IsEntry v := by
  induction h with
  | nil => simp
  | @cons v a vs as hv _ ih => exact List.forall_mem_cons.mpr ⟨⟨a, hv⟩, ih⟩

/-- **Entries are refused for one of them.** -/
theorem readEntries_error_iff : (∃ f, readEntries vs = .error f) ↔ ∃ v ∈ vs, ¬ IsEntry v := by
  constructor
  · rintro ⟨f, hf⟩
    by_contra hall
    push Not at hall
    obtain ⟨as, has⟩ := forall₂_of_isEntry hall
    rw [readEntries_ok_iff.mpr has] at hf
    cases hf
  · rintro ⟨v, hv, hno⟩
    cases hread : readEntries vs with
    | error f => exact ⟨f, rfl⟩
    | ok as => exact absurd (isEntry_of_forall₂ (readEntries_ok_iff.mp hread) v hv) hno

/-! ## Reading responses -/

/-- Where a response holds its entries: it is an array of them, or an object that has them under one key,
    as an array or as the values of an object. -/
inductive Holds : Json → List Json → Prop
  | array (vs : List Json) : Holds (.arr vs) vs
  | under {ms : List (String × Json)} {vs : List Json} (h : Pairs.get? "advisories" ms = some (.arr vs)) :
      Holds (.obj ms) vs
  | values {ms inner : List (String × Json)} (h : Pairs.get? "advisories" ms = some (.obj inner)) :
      Holds (.obj ms) (inner.map (·.2))

theorem entries?_ok_iff : entries? v = .ok vs ↔ Holds v vs := by
  constructor
  · intro h
    unfold entries? at h
    split at h
    · cases h
      exact .array _
    · split at h
      · next hget =>
        cases h
        exact .values hget
      · next hget =>
        cases h
        exact .under hget
      · cases h
      · cases h
    · cases h
  · intro h
    cases h with
    | array => rfl
    | under h => simp only [entries?, h]
    | values h => simp only [entries?, h]

/-- A response holds one row of entries at most. -/
theorem Holds.unique {ws : List Json} (h : Holds v vs) (h' : Holds v ws) : vs = ws :=
  Except.ok.inj ((entries?_ok_iff.mpr h).symm.trans (entries?_ok_iff.mpr h'))

theorem listOfJson_of_holds (h : Holds v vs) : listOfJson v = readEntries vs := by
  simp only [listOfJson, entries?_ok_iff.mpr h]

/-- **A response is read as the advisories that its entries describe.** -/
theorem listOfJson_ok_iff :
    listOfJson v = .ok as ↔ ∃ vs, Holds v vs ∧ List.Forall₂ Describes vs as := by
  constructor
  · intro h
    cases hvs : entries? v with
    | error f =>
      simp only [listOfJson, hvs] at h
      cases h
    | ok vs =>
      have hholds := entries?_ok_iff.mp hvs
      rw [listOfJson_of_holds hholds] at h
      exact ⟨vs, hholds, readEntries_ok_iff.mp h⟩
  · rintro ⟨vs, hholds, has⟩
    rw [listOfJson_of_holds hholds, readEntries_ok_iff.mpr has]

end LockAudit.Advisory
