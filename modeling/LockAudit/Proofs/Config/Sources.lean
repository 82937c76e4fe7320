import LockAudit.CommandLine.Command
import LockAudit.Config.Environment
import LockAudit.Config.File
import LockAudit.Proofs.Json.Pairs
import LockAudit.Proofs.Steps

/-!
# `LockAudit.Proofs.Config.Sources` — what each source says about a setting

A setting has its value from one of several sources: the command line, the environment, a file. A source is
a predicate here, which holds of the value that the source says the setting has; it may hold of none. What
a source takes for a word of its own differs: a blank text says something on the command line, and nothing
in the environment.

* `Topmost` — the value that the first source that says anything says, or else a base.
* `Environment.Says` — a variable has a text that it recognises; `truth?_iff`, `text?_iff`, `severity?_iff`.
* `Named` — a file names a setting; `topmost_setting`.
* `Layer` — the members that the file layer names. There are none of them if no file could be used.
-/

namespace LockAudit.Config

open LockAudit.Text Schema

/-! ## Sources, one above the other -/

/-- `Topmost base sources x`: the first of the sources that says anything says `x`, or `x` is the base and
    none does. -/
inductive Topmost {α : Type} (base : α) : List (α → Prop) → α → Prop
  | base : Topmost base [] base
  | top {p : α → Prop} {ps : List (α → Prop)} {x : α} (h : p x) : Topmost base (p :: ps) x
  | silent {p : α → Prop} {ps : List (α → Prop)} {x : α} (h : ∀ y, ¬ p y) (hx : Topmost base ps x) :
      Topmost base (p :: ps) x

/-- A source does not say two things. -/
def Definite {α : Type} (p : α → Prop) : Prop := ∀ x y, p x → p y → x = y

/-- A source of a setting that may be absent, of which it says that it is there. -/
def Present {α : Type} (p : α → Prop) (o : Option α) : Prop := ∃ x, o = some x ∧ p x

section

variable {α : Type} {base x y : α} {p : α → Prop} {ps : List (α → Prop)} {o : Option α}

theorem definite_false : Definite fun _ : α => False := fun _ _ h => h.elim

/-- What a function says, if anything, is one thing. -/
theorem definite_of_iff (ho : ∀ x, o = some x ↔ p x) : Definite p :=
  fun x y hx hy => Option.some.inj (((ho x).mpr hx).symm.trans ((ho y).mpr hy))

theorem Definite.present (hp : Definite p) : Definite (Present p) := by
  rintro _ _ ⟨x, rfl, hx⟩ ⟨y, rfl, hy⟩
  rw [hp x y hx hy]

/-- **There is one such value**, if no source says two things. -/
theorem Topmost.unique (hps : ∀ p ∈ ps, Definite p) (hx : Topmost base ps x)
    (hy : Topmost base ps y) : x = y := by
  induction hx with
  | base =>
    cases hy
    rfl
  | top hx =>
    cases hy with
    | top hy => exact hps _ List.mem_cons_self _ _ hx hy
    | silent h _ => exact absurd hx (h _)
  | silent h _ ih =>
    cases hy with
    | top hy => exact absurd hy (h _)
    | silent _ hy => exact ih (fun p hp => hps p (List.mem_cons_of_mem _ hp)) hy

/-- What holds of the base and of all that sources say holds of the topmost value. -/
theorem Topmost.elim {P : α → Prop} (hbase : P base) (hps : ∀ p ∈ ps, ∀ x, p x → P x)
    (h : Topmost base ps x) : P x := by
  induction h with
  | base => exact hbase
  | top h => exact hps _ List.mem_cons_self _ h
  | silent _ _ ih => exact ih fun p hp => hps p (List.mem_cons_of_mem _ hp)

/-- A source above others, as a value that goes before theirs if it is there. -/
theorem Topmost.getD (ho : ∀ x, o = some x ↔ p x) (h : Topmost base ps y) :
    Topmost base (p :: ps) (o.getD y) := by
  cases o with
  | none => exact .silent (fun x hx => nomatch (ho x).mpr hx) h
  | some x => exact .top ((ho x).mp rfl)

/-- A source above others of a setting that may be absent. -/
theorem Topmost.orElse {base y : Option α} {ps : List (Option α → Prop)} (ho : ∀ x, o = some x ↔ p x)
    (h : Topmost base ps y) : Topmost base (Present p :: ps) (o.orElse fun _ => y) := by
  cases o with
  | none => exact .silent (fun _ ⟨x, _, hx⟩ => nomatch (ho x).mpr hx) h
  | some x => exact .top ⟨x, rfl, (ho x).mp rfl⟩

/-- A switch that can only turn a field off. -/
theorem Topmost.switch {base b : Bool} {ps : List (Bool → Prop)} (h : Topmost base ps b)
    (off : Bool) :
    Topmost base ((fun x => off = true ∧ x = false) :: ps) (b && !off) := by
  cases off with
  | true => exact .top ⟨rfl, Bool.and_false b⟩
  | false => exact .silent (fun _ hx => Bool.false_ne_true hx.1) ((Bool.and_true b).symm ▸ h)

end

/-! ## The environment -/

/-- The words for a truth value in the environment. -/
def words : Bool → List String
  | true => ["true", "1", "yes", "on"]
  | false => ["false", "0", "no", "off"]

/-- A text is a word for a truth value, in any case and with blanks around it. -/
def IsTruth (raw : String) (b : Bool) : Prop := lower (trimString raw) ∈ words b

/-- A text without the blanks around it, if anything is left. -/
def IsText (raw s : String) : Prop := trimString raw = s ∧ s ≠ ""

/-- A text is the name of a level, in any case and with blanks around it. -/
def IsLevel (raw : String) (l : Severity) : Prop := lower (trimString raw) = l.name

namespace Environment

/-- A variable is set to a text that is read as a value. -/
def Says {α : Type} (env : Environment) (name : String) (read : String → α → Prop) (x : α) : Prop :=
  ∃ raw, Pairs.get? name env = some raw ∧ read raw x

/-- The environment in which a variable is not set. -/
def without (env : Environment) (name : String) : Environment := env.filter fun p => p.1 ≠ name

variable {α : Type} {env : Environment} {name : String} {read : String → α → Prop} {x : α}

theorem get?_without_self (env : Environment) (name : String) :
    Pairs.get? name (env.without name) = none := by
  rw [Pairs.get?_eq_head?, without, List.filter_filter]
  simp

theorem get?_without_of_ne {other : String} (h : other ≠ name) (env : Environment) :
    Pairs.get? other (env.without name) = Pairs.get? other env := by
  rw [Pairs.get?_eq_head?, Pairs.get?_eq_head?, without, List.filter_filter]
  congr 3
  funext p
  simp only [Bool.and_eq_left_iff_imp, decide_eq_true_eq]
  rintro rfl
  exact h

/-- A variable that tells nothing may as well not be set. -/
theorem says_without_iff {other : String}
    (h : ∀ raw, Pairs.get? name env = some raw → other = name → ∀ x, ¬ read raw x) :
    (env.without name).Says other read x ↔ env.Says other read x := by
  by_cases hname : other = name
  · subst hname
    constructor
    · rintro ⟨raw, hraw, -⟩
      rw [get?_without_self] at hraw
      cases hraw
    · rintro ⟨raw, hraw, hx⟩
      exact absurd hx (h raw hraw rfl x)
  · unfold Says
    rw [get?_without_of_ne hname]

/-- What an environment says that has one variable. -/
theorem says_singleton_iff {other raw : String} :
    Says [(name, raw)] other read x ↔ name = other ∧ read raw x := by
  unfold Says
  simp only [Pairs.get?, Option.ite_none_right_eq_some, Option.some.injEq, and_assoc]
  constructor
  · rintro ⟨r, hname, rfl, hx⟩
    exact ⟨hname, hx⟩
  · rintro ⟨hname, hx⟩
    exact ⟨raw, hname, rfl, hx⟩

theorem truth?_iff {b : Bool} : env.truth? name = some b ↔ env.Says name IsTruth b := by
  unfold truth? Says
  rw [Option.bind_eq_some_iff]
  refine exists_congr fun raw => and_congr_right fun _ => ?_
  simp only [IsTruth, List.contains_eq_mem, decide_eq_true_eq]
  -- No word stands for both truth values, so it does not matter which list is searched first.
  cases b with
  | true =>
    split
    · next h => simpa [words] using h
    · next h => split <;> simpa [words] using h
  | false =>
    split
    · next h =>
      simp only [List.mem_cons, List.not_mem_nil, or_false] at h
      rcases h with h | h | h | h <;> simp [h, words]
    · split
      · next h => simpa [words] using h
      · next h => simpa [words] using h

theorem text?_iff {s : String} : env.text? name = some s ↔ env.Says name IsText s := by
  unfold text? Says
  rw [Option.bind_eq_some_iff]
  refine exists_congr fun raw => and_congr_right fun _ => ?_
  dsimp only
  split
  · next h => exact ⟨nofun, fun ⟨hs, hne⟩ => absurd (hs.symm.trans h) hne⟩
  · next h => exact ⟨fun hs => ⟨Option.some.inj hs, Option.some.inj hs ▸ h⟩, fun ⟨hs, _⟩ => hs ▸ rfl⟩

end Environment

theorem severityOfName?_iff {s : String} {l : Severity} : severityOfName? s = some l ↔ s = l.name := by
  constructor
  · intro h
    unfold severityOfName? at h
    have hname := List.find?_some h
    exact (of_decide_eq_true hname).symm
  · rintro rfl
    cases l <;> decide

theorem Environment.severity?_iff {env : Environment} {name : String} {l : Severity} :
    env.severity? name = some l ↔ env.Says name IsLevel l := by
  unfold severity?
  simp only [Option.bind_eq_some_iff, text?_iff, severityOfName?_iff]
  constructor
  · rintro ⟨s, ⟨raw, hraw, rfl, -⟩, hl⟩
    exact ⟨raw, hraw, hl⟩
  · rintro ⟨raw, hraw, hl⟩
    refine ⟨trimString raw, ⟨raw, hraw, rfl, fun hempty => ?_⟩, hl⟩
    rw [IsLevel, hempty] at hl
    cases l <;> exact absurd hl (by decide)

/-! ## The command line -/

/-- A text that is given and is not empty. -/
def Given (o : Option String) (s : String) : Prop := o = some s ∧ s ≠ ""

/-- A worker count that is given and is not zero; one below it counts as one. -/
def GivenCount (o : Option Int) (n : Nat) : Prop := ∃ k, o = some k ∧ k ≠ 0 ∧ (n : Int) = max 1 k

theorem given?_iff {o : Option String} {s : String} : CommandLine.given? o = some s ↔ Given o s := by
  simp [CommandLine.given?, Given]

theorem workers?_iff {o : Option Int} {n : Nat} : CommandLine.workers? o = some n ↔ GivenCount o n := by
  unfold CommandLine.workers? GivenCount
  simp only [Option.map_eq_some_iff, Option.filter_eq_some_iff, decide_eq_true_eq, and_assoc]
  refine exists_congr fun k => and_congr_right fun _ => and_congr_right fun _ => ?_
  omega

/-! ## Files -/

variable {α : Type} {ms : List (String × Json)} {key : String} {base x : α} {read : Json → Checked α}

/-- Members name a setting and give it a value that can be read. -/
def Named (ms : List (String × Json)) (key : String) (read : Json → Checked α) (x : α) : Prop :=
  ∃ v, Pairs.get? key ms = some v ∧ read v = .ok x

/-- The members of a section. -/
def sectionIn (ms : List (String × Json)) (key : String) : List (String × Json) :=
  match Pairs.get? key ms with
  | some (.obj r) => r
  | _ => []

theorem definite_named : Definite (Named ms key read) := by
  rintro x y ⟨v, hv, hx⟩ ⟨w, hw, hy⟩
  rw [hv] at hw
  cases hw
  exact Except.ok.inj (hx.symm.trans hy)

theorem topmost_setting (h : setting ms key base read = .ok x) : Topmost base [Named ms key read] x := by
  unfold setting at h
  split at h
  · next v hv => exact .top ⟨v, hv, Checked.of_under h⟩
  · next hnone =>
    cases h
    exact .silent (fun _ ⟨_, hv, _⟩ => nomatch hnone.symm.trans hv) .base

/-- A section is read from its members, of which there are none if it is not named. -/
theorem section_setting {read : List (String × Json) → Checked α} (hbase : read [] = .ok base)
    (h : setting ms key base (sectionOf read) = .ok x) : read (sectionIn ms key) = .ok x := by
  unfold setting at h
  unfold sectionIn
  split at h
  · next v hv =>
    rw [hv]
    have h := Checked.of_under h
    unfold sectionOf at h
    split at h
    · exact h
    · cases h
  · next hnone =>
    rw [hnone]
    exact hbase.trans h

theorem one_le_of_workers {v : Json} {n : Nat} (h : workers v = .ok n) : 1 ≤ n := by
  unfold workers at h
  split at h
  · split at h
    · cases h
      omega
    · cases h
  · cases h

/-! ## The file layer -/

/-- The members that a document names, if it is one for a configuration. -/
inductive Document : Yaml.Value → List (String × Json) → Prop
  | unset {v : Yaml.Value} (h : v.isSet = false) : Document v []
  | map {entries : List (Yaml.Value × Yaml.Value)} (h : ∀ e ∈ entries, isName e.1 = true) :
      Document (.map entries) ((namedEntries entries).map fun e => (e.1, member e.2))

/-- The members that the file layer names: those of the file that was read, and none if there is no file
    or the one that is there cannot be used. -/
inductive Layer (files : FileTree) : Loading → List (String × Json) → Prop
  | absent : Layer files .absent []
  | rejected : Layer files .rejected []
  | read {p : Path} {bytes : List UInt8} {s : List Char} {v : Yaml.Value} {ms : List (String × Json)}
      {c : Config} (hbytes : files.readFile p = .ok bytes) (htext : decodeUtf8 bytes = .ok s)
      (hvalue : (Yaml.parse (newlines s)).toOption = some v) (hdocument : Document v ms)
      (hread : ofMembers ms = .ok c) : Layer files (.read c) ms

theorem ofMembers_nil : ofMembers [] = .ok .standard := rfl

theorem exists_document {v : Yaml.Value} {c : Config} (h : ofValue? v = some c) :
    ∃ ms, Document v ms ∧ ofMembers ms = .ok c := by
  unfold ofValue? at h
  split at h
  · next hunset =>
    cases h
    exact ⟨[], .unset (by simpa using hunset), ofMembers_nil⟩
  · split at h
    · split at h
      · next hnames => exact ⟨_, .map (List.all_eq_true.mp hnames), eq_ok_of_toOption h⟩
      · cases h
    · cases h

variable {files : FileTree} {here folder p : Path} {named : Option Path} {loading : Loading}

theorem exists_layer_of_loadFile (h : loadFile files here p = .ok loading) :
    ∃ ms, Layer files loading ms := by
  obtain ⟨there, -, h⟩ := exists_of_bind_ok h
  split at h
  · cases h
    exact ⟨[], .absent⟩
  split at h
  · cases h
    exact ⟨[], .rejected⟩
  · next bytes hbytes =>
    split at h
    · next c hc =>
      cases h
      unfold ofBytes? at hc
      split at hc
      · cases hc
      · next s htext =>
        obtain ⟨v, hvalue, hv⟩ := Option.bind_eq_some_iff.mp hc
        obtain ⟨ms, hdocument, hread⟩ := exists_document hv
        exact ⟨ms, .read hbytes htext hvalue hdocument hread⟩
    · cases h
      exact ⟨[], .rejected⟩

theorem exists_layer (h : load files here folder named = .ok loading) : ∃ ms, Layer files loading ms := by
  unfold load at h
  split at h
  · exact exists_layer_of_loadFile h
  · obtain ⟨found, -, h⟩ := exists_of_bind_ok h
    split at h
    · exact exists_layer_of_loadFile h
    · cases h
      exact ⟨[], .absent⟩

/-- **The file layer is a configuration**: the one that its members are read as. -/
theorem Layer.read_config (h : Layer files loading ms) : ofMembers ms = .ok loading.config := by
  cases h with
  | absent => exact ofMembers_nil
  | rejected => exact ofMembers_nil
  | read _ _ _ _ hread => exact hread

end LockAudit.Config
