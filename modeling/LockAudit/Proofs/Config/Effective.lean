import LockAudit.CommandLine.Command
import LockAudit.Proofs.Config.Sources
import LockAudit.Proofs.Text.Decoding

/-!
# `LockAudit.Proofs.Config.Effective` — the configuration that a command has

A command has its configuration from four layers: the command line, the environment, a file, and the
defaults. Each of them is written here as a `Source`, which says for every field what it has for a value.
A layer is put over others by one function of the library, and one lemma for each says so of all fields at
once.

* `Effective` — every field has the value that the topmost source says, or its default.
* `effective_file`, `effective_environment`, `effective_override` — the three steps.
* `Effective.unique` — there is one such configuration, as no source says two things of a field.
* `configOf_effective` — a command has it; and it is valid, whatever the layers are.
-/

namespace LockAudit.Config

open LockAudit.Text Schema
open CommandLine (Arguments)

/-! ## Fields -/

/-- The fields of a configuration. -/
inductive Field
  | version
  | parallel
  | maxWorkers
  | enabled
  | command
  | skipDev
  | policy
  | url
  | requestTimeout
  | processTimeout
  | userAgent
  | jsonOutput
  | failOnFindings
  | failOnSeverity

/-- What is in a field. -/
abbrev Field.Value : Field → Type
  | .version | .command | .url | .userAgent => String
  | .parallel | .enabled | .skipDev | .failOnFindings => Bool
  | .maxWorkers => Nat
  | .policy => DevPolicy
  | .requestTimeout | .processTimeout => Binary64
  | .jsonOutput => Option String
  | .failOnSeverity => Severity

/-- The value of a field. -/
def get (c : Config) : (k : Field) → k.Value
  | .version => c.version
  | .parallel => c.parallel
  | .maxWorkers => c.maxWorkers
  | .enabled => c.analyzer.enabled
  | .command => c.analyzer.command
  | .skipDev => c.analyzer.skipDev
  | .policy => c.analyzer.policy
  | .url => c.analyzer.url
  | .requestTimeout => c.analyzer.requestTimeout
  | .processTimeout => c.analyzer.processTimeout
  | .userAgent => c.analyzer.userAgent
  | .jsonOutput => c.reporting.jsonOutput
  | .failOnFindings => c.reporting.failOnFindings
  | .failOnSeverity => c.reporting.failOnSeverity

/-- The fields are all that a configuration has. -/
theorem eq_of_get {c d : Config} (h : ∀ k, c.get k = d.get k) : c = d := by
  obtain ⟨version, parallel, workers, ⟨enabled, command, skipDev, policy, url, request, process, agent⟩,
    ⟨output, findings, severity⟩⟩ := c
  cases h .version
  cases h .parallel
  cases h .maxWorkers
  cases h .enabled
  cases h .command
  cases h .skipDev
  cases h .policy
  cases h .url
  cases h .requestTimeout
  cases h .processTimeout
  cases h .userAgent
  cases h .jsonOutput
  cases h .failOnFindings
  cases h .failOnSeverity
  rfl

/-! ## Layers -/

/-- What a layer says of every field. -/
abbrev Source := (k : Field) → k.Value → Prop

namespace Source

/-- What a file says whose document has these members. -/
def file (ms : List (String × Json)) : Source
  | .version => Named ms "version" text
  | .parallel => Named ms "parallel" truth
  | .maxWorkers => Named ms "max_workers" workers
  | .enabled => Named (sectionIn ms "yarn_audit") "enabled" truth
  | .command => Named (sectionIn ms "yarn_audit") "yarn_path" text
  | .skipDev => Named (sectionIn ms "yarn_audit") "skip_dev_dependencies" truth
  | .policy => Named (sectionIn ms "yarn_audit") "dev_dependency_policy" (choice DevPolicy.ofName?)
  | .url => Named (sectionIn ms "yarn_audit") "audit_url" text
  | .requestTimeout => Named (sectionIn ms "yarn_audit") "request_timeout" decimal
  | .processTimeout => Named (sectionIn ms "yarn_audit") "process_timeout" decimal
  | .userAgent => Named (sectionIn ms "yarn_audit") "user_agent" text
  | .jsonOutput => Named (sectionIn ms "reporting") "json_output" textOrNull
  | .failOnFindings => Named (sectionIn ms "reporting") "fail_on_findings" truth
  | .failOnSeverity => Named (sectionIn ms "reporting") "fail_on_severity" (choice severityOfName?)

/-- What the environment says, which has six variables for fields. -/
def environment (env : Environment) : Source
  | .enabled => env.Says "YARN_AUDIT_ENABLED" IsTruth
  | .skipDev => env.Says "YARN_AUDIT_SKIP_DEV" IsTruth
  | .url => env.Says "YARN_AUDIT_URL" IsText
  | .command => env.Says "YARN_AUDIT_YARN_PATH" IsText
  | .failOnSeverity => env.Says "YARN_AUDIT_FAIL_ON_SEVERITY" IsLevel
  | .jsonOutput => Present (env.Says "YARN_AUDIT_JSON_OUTPUT" IsText)
  | _ => fun _ => False

/-- What a command line says. Of two fields it can only say that they are off. -/
def line (a : Arguments) : Source
  | .parallel => fun b => a.sequential = true ∧ b = false
  | .maxWorkers => GivenCount a.workers
  | .skipDev => fun b => a.skipDev = some b
  | .policy => fun p => a.devPolicy = some p
  | .command => Given a.command
  | .url => Given a.url
  | .failOnSeverity => fun l => a.severity = some l
  | .jsonOutput => Present (Given a.jsonOutput)
  | .failOnFindings => fun b => a.noFail = true ∧ b = false
  | _ => fun _ => False

/-- A source says at most one thing of a field. -/
def IsDefinite (source : Source) : Prop := ∀ k, Definite (source k)

end Source

/-- Every field has the value that the topmost source says, or its default if none says anything. -/
def Effective (sources : List Source) (c : Config) : Prop :=
  ∀ k, Topmost (standard.get k) (sources.map fun source => source k) (c.get k)

/-- The layers of a command. -/
def layers (a : Arguments) (env : Environment) (ms : List (String × Json)) : List Source :=
  [.line a, .environment env, .file ms]

variable {c d file : Config} {sources : List Source} {ms : List (String × Json)} {env : Environment}
  {a : Arguments}

/-- **No two configurations are effective**, if no source says two things of a field. -/
theorem Effective.unique (hsources : ∀ source ∈ sources, source.IsDefinite) (hc : Effective sources c)
    (hd : Effective sources d) : c = d := by
  refine eq_of_get fun k => (hc k).unique ?_ (hd k)
  exact List.forall_mem_map.mpr fun source h => hsources source h k

theorem isDefinite_file (ms : List (String × Json)) : (Source.file ms).IsDefinite := by
  intro k
  cases k <;> exact definite_named

theorem isDefinite_environment (env : Environment) : (Source.environment env).IsDefinite := by
  intro k
  cases k with
  | enabled => exact definite_of_iff fun _ => Environment.truth?_iff
  | skipDev => exact definite_of_iff fun _ => Environment.truth?_iff
  | url => exact definite_of_iff fun _ => Environment.text?_iff
  | command => exact definite_of_iff fun _ => Environment.text?_iff
  | failOnSeverity => exact definite_of_iff fun _ => Environment.severity?_iff
  | jsonOutput => exact (definite_of_iff fun _ => Environment.text?_iff).present
  | _ => exact definite_false

theorem isDefinite_line (a : Arguments) : (Source.line a).IsDefinite := by
  intro k
  cases k with
  | parallel => exact fun _ _ hx hy => hx.2.trans hy.2.symm
  | failOnFindings => exact fun _ _ hx hy => hx.2.trans hy.2.symm
  | maxWorkers => exact definite_of_iff fun _ => workers?_iff
  | skipDev => exact definite_of_iff fun _ => Iff.rfl
  | policy => exact definite_of_iff fun _ => Iff.rfl
  | failOnSeverity => exact definite_of_iff fun _ => Iff.rfl
  | command => exact definite_of_iff fun _ => given?_iff
  | url => exact definite_of_iff fun _ => given?_iff
  | jsonOutput => exact (definite_of_iff fun _ => given?_iff).present
  | _ => exact definite_false

/-! ## One layer over others -/

/-- A source that says nothing of a field leaves it as it is. -/
theorem Effective.of_silent {source : Source} {k : Field} (hsource : ∀ x, ¬ source k x)
    (h : Effective sources c) (hget : d.get k = c.get k) :
    Topmost (standard.get k) ((source :: sources).map fun source => source k) (d.get k) :=
  .silent hsource (hget ▸ h k)

theorem analyzer_ofMembers_nil : AnalyzerConfig.ofMembers [] = .ok .standard := rfl

theorem reporting_ofMembers_nil : ReportingConfig.ofMembers [] = .ok .standard := rfl

/-- **A file over the defaults.** -/
theorem effective_file (h : ofMembers ms = .ok c) : Effective [.file ms] c := by
  -- A record is read setting by setting, so it comes apart from its last setting on.
  simp only [ofMembers, Checked.apply, Checked.both_eq_ok_iff, Checked.of, Except.ok.injEq] at h
  obtain ⟨_, reporting, ⟨_, analyzer, ⟨_, workers, ⟨_, parallel, ⟨_, version, rfl, hversion, rfl⟩,
    hparallel, rfl⟩, hworkers, rfl⟩, hanalyzer, rfl⟩, hreporting, rfl⟩ := h
  have hanalyzer := section_setting analyzer_ofMembers_nil hanalyzer
  have hreporting := section_setting reporting_ofMembers_nil hreporting
  simp only [AnalyzerConfig.ofMembers, Checked.apply, Checked.both_eq_ok_iff, Checked.of,
    Except.ok.injEq] at hanalyzer
  simp only [ReportingConfig.ofMembers, Checked.apply, Checked.both_eq_ok_iff, Checked.of,
    Except.ok.injEq] at hreporting
  obtain ⟨_, agent, ⟨_, process, ⟨_, request, ⟨_, url, ⟨_, policy, ⟨_, skipDev, ⟨_, command, ⟨_, enabled,
    rfl, henabled, rfl⟩, hcommand, rfl⟩, hskip, rfl⟩, hpolicy, rfl⟩, hurl, rfl⟩, hrequest, rfl⟩,
    hprocess, rfl⟩, hagent, rfl⟩ := hanalyzer
  obtain ⟨_, severity, ⟨_, findings, ⟨_, output, rfl, houtput, rfl⟩, hfindings, rfl⟩, hseverity, rfl⟩ :=
    hreporting
  intro k
  cases k with
  | version => exact topmost_setting hversion
  | parallel => exact topmost_setting hparallel
  | maxWorkers => exact topmost_setting hworkers
  | enabled => exact topmost_setting henabled
  | command => exact topmost_setting hcommand
  | skipDev => exact topmost_setting hskip
  | policy => exact topmost_setting hpolicy
  | url => exact topmost_setting hurl
  | requestTimeout => exact topmost_setting hrequest
  | processTimeout => exact topmost_setting hprocess
  | userAgent => exact topmost_setting hagent
  | jsonOutput => exact topmost_setting houtput
  | failOnFindings => exact topmost_setting hfindings
  | failOnSeverity => exact topmost_setting hseverity

/-- **The environment over other layers.** -/
theorem effective_environment (h : Effective sources c) (env : Environment) :
    Effective (.environment env :: sources) (c.withEnvironment env) := by
  intro k
  cases k with
  | enabled => exact (h .enabled).getD fun _ => Environment.truth?_iff
  | skipDev => exact (h .skipDev).getD fun _ => Environment.truth?_iff
  | url => exact (h .url).getD fun _ => Environment.text?_iff
  | command => exact (h .command).getD fun _ => Environment.text?_iff
  | failOnSeverity => exact (h .failOnSeverity).getD fun _ => Environment.severity?_iff
  | jsonOutput => exact (h .jsonOutput).orElse fun _ => Environment.text?_iff
  | _ => exact h.of_silent (fun _ => id) rfl

/-- **The command line over other layers.** -/
theorem effective_override (h : Effective sources c) (a : Arguments) :
    Effective (.line a :: sources) (CommandLine.override c a) := by
  intro k
  cases k with
  | parallel => exact (h .parallel).switch a.sequential
  | failOnFindings => exact (h .failOnFindings).switch a.noFail
  | maxWorkers => exact (h .maxWorkers).getD fun _ => workers?_iff
  | skipDev => exact (h .skipDev).getD fun _ => Iff.rfl
  | policy => exact (h .policy).getD fun _ => Iff.rfl
  | failOnSeverity => exact (h .failOnSeverity).getD fun _ => Iff.rfl
  | command => exact (h .command).getD fun _ => given?_iff
  | url => exact (h .url).getD fun _ => given?_iff
  | jsonOutput => exact (h .jsonOutput).orElse fun _ => given?_iff
  | _ => exact h.of_silent (fun _ => id) rfl

/-! ## Valid configurations -/

/-- What a configuration must have: at least one worker, one of the five levels and one of the two
    policies. -/
structure IsValid (c : Config) : Prop where
  workers : 1 ≤ c.maxWorkers
  severity : c.reporting.failOnSeverity.name ∈ ["critical", "high", "medium", "low", "info"]
  policy : c.analyzer.policy.name ∈ ["flagged", "declared"]

theorem Effective.isValid (h : Effective (layers a env ms) c) : c.IsValid := by
  constructor
  · refine (h .maxWorkers).elim (P := fun n => 1 ≤ n) (by decide) ?_
    simp only [layers, List.map_cons, List.map_nil, List.forall_mem_cons]
    refine ⟨?_, fun _ => False.elim, ?_, nofun⟩
    · rintro n ⟨k, -, -, hn⟩
      omega
    · rintro n ⟨v, -, hn⟩
      exact one_le_of_workers hn
  · cases c.reporting.failOnSeverity <;> decide
  · cases c.analyzer.policy <;> decide

/-! ## Variables that change nothing -/

/-- A variable of this name with this text says something of a field. -/
def Recognised (name raw : String) : Prop := ∃ k x, Source.environment [(name, raw)] k x

/-- A blank text is not recognised by any variable. -/
theorem not_recognised_of_blank {name raw : String} (h : trimString raw = "") : ¬ Recognised name raw := by
  have htruth : ∀ b, ¬ IsTruth raw b := by
    simp only [IsTruth, h]
    decide
  have htext : ∀ s, ¬ IsText raw s := fun s hs => hs.2 (hs.1.symm.trans h)
  have hlevel : ∀ l, ¬ IsLevel raw l := by
    intro l
    rw [IsLevel, h]
    cases l <;> decide
  rintro ⟨k, x, hx⟩
  cases k with
  | enabled => exact htruth x (Environment.says_singleton_iff.mp hx).2
  | skipDev => exact htruth x (Environment.says_singleton_iff.mp hx).2
  | url => exact htext x (Environment.says_singleton_iff.mp hx).2
  | command => exact htext x (Environment.says_singleton_iff.mp hx).2
  | failOnSeverity => exact hlevel x (Environment.says_singleton_iff.mp hx).2
  | jsonOutput =>
    obtain ⟨y, -, hy⟩ := hx
    exact htext y (Environment.says_singleton_iff.mp hy).2
  | _ => exact hx

/-- An environment says the same without a variable whose text is not recognised. -/
theorem environment_without {name : String}
    (h : ∀ raw, Pairs.get? name env = some raw → ¬ Recognised name raw) :
    Source.environment (env.without name) = Source.environment env := by
  have hsame : ∀ {α : Type} {other : String} {read : String → α → Prop}
      (_ : ∀ raw x, read raw x → Recognised other raw) (x : α),
      (env.without name).Says other read x ↔ env.Says other read x := by
    intro α other read hread x
    refine Environment.says_without_iff fun raw hraw hname y hy => h raw hraw ?_
    exact hname ▸ hread raw y hy
  funext k x
  cases k with
  | enabled => exact propext (hsame (fun raw x hx => ⟨.enabled, x, raw, rfl, hx⟩) x)
  | skipDev => exact propext (hsame (fun raw x hx => ⟨.skipDev, x, raw, rfl, hx⟩) x)
  | url => exact propext (hsame (fun raw x hx => ⟨.url, x, raw, rfl, hx⟩) x)
  | command => exact propext (hsame (fun raw x hx => ⟨.command, x, raw, rfl, hx⟩) x)
  | failOnSeverity => exact propext (hsame (fun raw x hx => ⟨.failOnSeverity, x, raw, rfl, hx⟩) x)
  | jsonOutput =>
    refine propext (exists_congr fun y => and_congr_right fun _ => ?_)
    exact hsame (fun raw y hy => ⟨.jsonOutput, some y, y, rfl, raw, rfl, hy⟩) y
  | _ => rfl

/-! ## Commands -/

/-- The configuration of a command keeps what no layer above the file may change, and the switches of the
    command line only turn fields off. -/
structure Keeps (file : Config) (a : Arguments) (c : Config) : Prop where
  version : c.version = file.version
  requestTimeout : c.analyzer.requestTimeout = file.analyzer.requestTimeout
  processTimeout : c.analyzer.processTimeout = file.analyzer.processTimeout
  userAgent : c.analyzer.userAgent = file.analyzer.userAgent
  parallel : c.parallel = true ↔ file.parallel = true ∧ a.sequential = false
  failOnFindings : c.reporting.failOnFindings = true ↔
    file.reporting.failOnFindings = true ∧ a.noFail = false

theorem keeps_override (file : Config) (env : Environment) (a : Arguments) :
    Keeps file a (CommandLine.override (file.withEnvironment env) a) where
  version := rfl
  requestTimeout := rfl
  processTimeout := rfl
  userAgent := rfl
  parallel := by simp [CommandLine.override, withEnvironment]
  failOnFindings := by simp [CommandLine.override, withEnvironment]

/-- The configuration that is made of the layers is the one that is effective. -/
theorem effective_iff (h : ofMembers ms = .ok file) :
    Effective (layers a env ms) c ↔ c = CommandLine.override (file.withEnvironment env) a := by
  have heffective := effective_override (effective_environment (effective_file h) env) a
  constructor
  · intro hc
    refine hc.unique ?_ heffective
    simp only [layers, List.forall_mem_cons]
    exact ⟨isDefinite_line a, isDefinite_environment env, isDefinite_file ms, nofun⟩
  · rintro rfl
    exact heffective

/-- **A command has the one effective configuration of its layers, and it is valid.** It keeps the fields
    of the file layer that only a file may set, and turns its switches off at most. A variable whose text
    is blank or is not recognised may as well not be set. -/
theorem configOf_effective {s : Command.Setting} {loading : Loading}
    (h : load s.files s.here (Command.folderOf a s.here)
      ((CommandLine.given? a.config).map Path.ofString) = .ok loading) :
    ∃ c ms, Command.configOf a s = .ok c ∧ Layer s.files loading ms ∧
      (∀ d, Effective (layers a s.environment ms) d ↔ d = c) ∧ c.IsValid ∧ Keeps loading.config a c ∧
      ∀ name, (∀ raw, Pairs.get? name s.environment = some raw →
          trimString raw = "" ∨ ¬ Recognised name raw) →
        Command.configOf a { s with environment := s.environment.without name } = .ok c := by
  obtain ⟨ms, hlayer⟩ := exists_layer h
  -- The file layer is the same in every environment.
  have hconfig : ∀ env, Command.configOf a { s with environment := env } =
      .ok (CommandLine.override (loading.config.withEnvironment env) a) := by
    intro env
    simp only [Command.configOf, h]
    rfl
  have hiff : ∀ env c, Effective (layers a env ms) c ↔
      c = CommandLine.override (loading.config.withEnvironment env) a :=
    fun _ _ => effective_iff hlayer.read_config
  refine ⟨_, ms, hconfig s.environment, hlayer, hiff s.environment, ?_, keeps_override .., ?_⟩
  · exact Effective.isValid ((hiff s.environment _).mpr rfl)
  · -- Both environments are the same source, and there is one effective configuration for it.
    intro name hname
    have hsame := environment_without fun raw hraw => (hname raw hraw).elim not_recognised_of_blank id
    rw [hconfig, Except.ok.injEq]
    refine (hiff s.environment _).mp ?_
    rw [layers, ← hsame]
    exact (hiff _ _).mpr rfl

/-! ## A sample command -/

/-- A document that sets four fields. -/
def sampleDocument : String :=
  "max_workers: 2\nyarn_audit:\n  audit_url: https://file\n  yarn_path: berry\nreporting:\n" ++
    "  fail_on_severity: low\n"

/-- A folder with that document, and an environment with three variables. -/
def sampleSetting : Command.Setting where
  files := .folder [("w", .folder [(".yarn-audit.yml", .file (asciiBytes sampleDocument.toList) false)])]
  here := ⟨"/", ["w"]⟩
  environment := [("YARN_AUDIT_URL", " https://env "), ("YARN_AUDIT_FAIL_ON_SEVERITY", " HIGH "),
    ("YARN_AUDIT_SKIP_DEV", "maybe")]
  host := ⟨fun files _ => (.ok ⟨0, "", ""⟩, files), fun _ => .response 200 [], fun _ => ""⟩

/-- A command line with an empty text, and a worker count below zero. -/
def sampleLine : List String := ["--yarn", "", "--workers", "-3", "--sequential"]

/-- What that command line asks for. -/
def sampleArguments : Arguments :=
  { Arguments.empty with command := some "", workers := some (-3), sequential := true }

/-- The variable of the sample that should be a truth value is not recognised. -/
theorem not_recognised_maybe : ¬ Recognised "YARN_AUDIT_SKIP_DEV" "maybe" := by
  have hword : ∀ b, ¬ IsTruth "maybe" b := by
    unfold IsTruth
    decide
  rintro ⟨k, x, hx⟩
  cases k with
  | skipDev => exact hword x (Environment.says_singleton_iff.mp hx).2
  | enabled | url | command | failOnSeverity =>
    exact absurd (Environment.says_singleton_iff.mp hx).1 (by decide)
  | jsonOutput =>
    obtain ⟨y, -, hy⟩ := hx
    exact absurd (Environment.says_singleton_iff.mp hy).1 (by decide)
  | _ => exact hx

/-- The sample's values come from the command line, the file, and the environment. -/
theorem configOf_effective_sample : ∃ c, CommandLine.parse sampleLine = .ok sampleArguments ∧
    Command.configOf sampleArguments sampleSetting = .ok c ∧ c.IsValid ∧
    (c.maxWorkers, c.parallel) = (1, false) ∧ c.analyzer.command = "berry" ∧
    (c.analyzer.url, c.reporting.failOnSeverity) = ("https://env", .high) ∧
    Command.configOf sampleArguments { sampleSetting with
      environment := sampleSetting.environment.without "YARN_AUDIT_SKIP_DEV" } = .ok c := by
  have hline : (CommandLine.parse sampleLine).toOption = some sampleArguments := by decide +kernel
  obtain ⟨loading, hread, -⟩ := Option.map_eq_some_iff.mp (show (load sampleSetting.files
    sampleSetting.here ⟨"/", ["w"]⟩ none).toOption.map (·.config.maxWorkers) = some 2 by decide +kernel)
  have hload : load sampleSetting.files sampleSetting.here (Command.folderOf sampleArguments ⟨"/", ["w"]⟩)
      none = .ok loading := eq_ok_of_toOption hread
  obtain ⟨c, ms, hc, -, -, hvalid, -, hwithout⟩ := configOf_effective hload
  have hfields : (Command.configOf sampleArguments sampleSetting).toOption.map (fun c =>
      ((c.maxWorkers, c.parallel), c.analyzer.command, c.analyzer.url, c.reporting.failOnSeverity)) =
      some ((1, false), "berry", "https://env", .high) := by decide +kernel
  rw [hc] at hfields
  simp only [Except.toOption, Option.map_some, Option.some.injEq, Prod.mk.injEq] at hfields
  obtain ⟨⟨hworkers, hparallel⟩, hcommand, hurl, hseverity⟩ := hfields
  refine ⟨c, eq_ok_of_toOption hline, hc, hvalid, by rw [hworkers, hparallel], hcommand,
    by rw [hurl, hseverity], ?_⟩
  refine hwithout "YARN_AUDIT_SKIP_DEV" fun raw hraw => .inr ?_
  cases hraw
  exact not_recognised_maybe

end LockAudit.Config
