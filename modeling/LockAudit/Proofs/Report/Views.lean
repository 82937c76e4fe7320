import LockAudit.Proofs.Sorting
import LockAudit.Proofs.Version.Release
import LockAudit.Scan

/-!
# `LockAudit.Proofs.Report.Views` — all that is shown counts the same evidence

The results of a scan are shown five times: in the table of lockfiles, in the table of levels, as panels, in
the report for other programs, and by the exit code. Each view is read back here as its reader has it, from
the cells of a table, the texts of the panels or the members of a value, and compared with the evidence in
the results.

* `Console.Item.total?` — what the numerals in a column of a table add up to. `total?_lockfileTable` and
  `total?_severityTable` say that both tables come to the number of all evidence.
* `panel_tells`, `panel_findings` — each panel has its number and tells of its evidence (`Tells`); the panels
  are numbered in a row, the most severe first, and equal levels keep their order (`stable_ranked`).
* `vulnerabilities_toJson`, `summary_toJson` — the report lists all evidence, and its summary counts it.
* `shouldFail_iff` — a scan fails by what the table of levels shows.
* `conclude_of_shows`, `conclude_of_refused` — what a scan comes to on a terminal that shows the views, and
  on one that refuses a text in them.
* `views_agree` — all of them together.
-/

namespace LockAudit

/-! ## What a reader has -/

/-- What numbers add up to. -/
def total (ns : List Nat) : Nat := ns.foldr (· + ·) 0

/-- The number that a cell shows, if it holds a row of digits. -/
def Console.number? (cell : String) : Option Nat :=
  if cell.toList ≠ [] ∧ cell.toList.all Text.isAsciiDigit = true then some (Numeral.value cell.toList)
  else none

namespace Console.Item

/-- The rows of a table. -/
def rows : Item → List (List String)
  | .table _ _ rows => rows
  | _ => []

/-- The cells under a heading of a table. -/
def column (heading : String) : Item → List String
  | .table _ columns rows => rows.filterMap fun row => Pairs.get? heading ((columns.map (·.1)).zip row)
  | _ => []

/-- What the numerals under a heading add up to, if all cells there are numerals. -/
def total? (heading : String) (i : Item) : Option Nat :=
  ((i.column heading).mapM number?).map total

/-- Whether an item is a panel. -/
def isPanel : Item → Bool
  | .panel _ _ _ => true
  | _ => false

end Console.Item

/-- The elements of a value that is an array. -/
def Json.elements : Json → List Json
  | .arr vs => vs
  | _ => []

/-- The value under a key of another value that is under a key. -/
def Json.member₂? (outer inner : String) (v : Json) : Option Json :=
  (v.member? outer).bind (·.member? inner)

namespace Report

open Analysis

/-- The elements of the arrays of vulnerabilities in the results of a report. -/
def vulnerabilitiesIn (report : Json) : List Json :=
  ((report.member? "results").getD .null).elements.flatMap fun r =>
    ((r.member? "vulnerabilities").getD .null).elements

/-- All evidence with its lockfile, in the order of the results. -/
def located (rs : List Result) : List (Lockfile × Evidence) :=
  rs.flatMap fun r => r.evidence.map fun e => (r.lockfile, e)

variable (c : ReportingConfig) (rs : List Result)

theorem length_located : (located rs).length = (evidenceOf rs).length := by
  induction rs with
  | nil => rfl
  | cons r rs ih =>
    unfold located evidenceOf at *
    rw [List.flatMap_cons, List.flatMap_cons, List.length_append, List.length_append, ih, List.length_map]

/-! ## The tables -/

theorem number?_repr (n : Nat) : Console.number? (Nat.repr n) = some n := by
  have hdigits : (Nat.repr n).toList = Numeral.digits n := Nat.toList_repr
  have hall : (Numeral.digits n).all Text.isAsciiDigit = true :=
    List.all_eq_true.mpr fun _ hc => Numeral.isAsciiDigit_of_mem_digits hc
  rw [Console.number?, hdigits, if_pos ⟨Numeral.digits_ne_nil n, hall⟩, Numeral.value_digits]

theorem mapM_number?_repr (ns : List Nat) : (ns.map Nat.repr).mapM Console.number? = some ns := by
  induction ns with
  | nil => rfl
  | cons n ns ih => simp [ih, number?_repr]

/-- The cells under a heading, in a table with a row for each entry. -/
theorem column_table {α : Type} {heading : String} {columns : List (String × Console.Side)}
    {row : α → List String} {cell : α → String}
    (h : ∀ x, Pairs.get? heading ((columns.map (·.1)).zip (row x)) = some (cell x)) (title : String)
    (xs : List α) : (Console.Item.table title columns (xs.map row)).column heading = xs.map cell := by
  unfold Console.Item.column
  induction xs with
  | nil => rfl
  | cons x xs ih =>
    simp only [List.map_cons, List.filterMap_cons, h] at ih ⊢
    rw [ih]

/-- The table of lockfiles has a count for each result. -/
theorem column_lockfileTable :
    (lockfileTable rs).column "Vulnerabilities" = (rs.map fun r => r.evidence.length).map Nat.repr := by
  rw [List.map_map]
  apply column_table
  intro r
  simp [Pairs.get?]

/-- The table of levels has a count for each level that occurs. -/
theorem column_severityTable : (severityTable rs).column "Count" =
    ((Severity.levels.filter fun l => 0 < countAt l rs).map fun l => countAt l rs).map Nat.repr := by
  rw [List.map_map]
  apply column_table
  intro l
  simp [Pairs.get?]

/-- The counts of lockfiles add up to all evidence. -/
theorem total_lengths : total (rs.map fun r => r.evidence.length) = (evidenceOf rs).length := by
  induction rs with
  | nil => rfl
  | cons r rs ih =>
    show r.evidence.length + total (rs.map fun r => r.evidence.length) = _
    rw [ih]
    unfold evidenceOf
    rw [List.flatMap_cons, List.length_append]

/-- Levels that do not occur add nothing. -/
theorem total_filter_pos {α : Type} (f : α → Nat) (xs : List α) :
    total ((xs.filter fun x => 0 < f x).map f) = total (xs.map f) := by
  induction xs with
  | nil => rfl
  | cons x xs ih =>
    show _ = f x + total (xs.map f)
    by_cases hx : 0 < f x
    · rw [List.filter_cons_of_pos (by simpa using hx), ← ih]
      rfl
    · rw [List.filter_cons_of_neg (by simpa using hx), ih]
      omega

/-- Every piece of evidence has one of the levels. -/
theorem total_countP_levels (es : List Evidence) :
    total (Severity.levels.map fun l => es.countP fun e => e.severity == l) = es.length := by
  induction es with
  | nil => rfl
  | cons e es ih =>
    simp only [total, Severity.levels, List.map_cons, List.map_nil, List.foldr_cons, List.foldr_nil,
      List.countP_cons, List.length_cons] at ih ⊢
    -- One of the five counts is greater by one, whichever the level is.
    cases e.severity <;> simp <;> omega

theorem total?_lockfileTable :
    (lockfileTable rs).total? "Vulnerabilities" = some (evidenceOf rs).length := by
  rw [Console.Item.total?, column_lockfileTable, mapM_number?_repr, Option.map_some, total_lengths]

theorem total?_severityTable : (severityTable rs).total? "Count" = some (evidenceOf rs).length := by
  rw [Console.Item.total?, column_severityTable, mapM_number?_repr, Option.map_some, total_filter_pos]
  exact congrArg some (total_countP_levels (evidenceOf rs))

/-! ## The panels -/

theorem panels_eq_mapIdx (n : Nat) (xs : List (Lockfile × Evidence)) :
    panels n xs = xs.mapIdx fun i x => panel (n + i) x.1 x.2 := by
  induction xs generalizing n with
  | nil => rfl
  | cons x xs ih =>
    obtain ⟨l, e⟩ := x
    rw [panels, List.mapIdx_cons, ih]
    simp only [Nat.add_zero, Nat.add_assoc n 1, Nat.add_comm 1]

/-- How a panel marks a level. -/
def mark : Severity → String
  | .critical => "[red][CRITICAL][/red]"
  | .high => "[orange1][HIGH][/orange1]"
  | .medium => "[yellow][MEDIUM][/yellow]"
  | .low => "[blue][LOW][/blue]"
  | .info => "[dim][INFO][/dim]"

/-- The title and the lines of a panel tell of a piece of evidence, under a number. -/
structure Tells (n : Nat) (l : Lockfile) (e : Evidence) (title : String) (lines : List String) : Prop where
  /-- The title has the number, the package with its version and the name, without control characters. -/
  title : title.toList = ("#" ++ Nat.repr n ++ " " ++ e.moduleName ++ "@" ++ e.resolvedVersion ++ " "
    ++ e.name).toList.filter fun c => c ∉ ['\x07', '\x08', '\x0b', '\x0c', '\r']
  /-- First come the level and the title of the evidence, the lockfile, and the versions that are hit. -/
  opening : ∃ heading, lines.take 3 = [mark e.severity ++ " " ++ heading,
      "[dim]📁 " ++ l.displayName ++ "[/dim]", "[dim]Vulnerable: " ++ e.vulnerableVersions ++ "[/dim]"] ∧
    heading = (e.title.filter (· ≠ "")).getD "Vulnerability"
  patched : ∀ s, e.patchedVersions = some s → s ≠ "" → "[green]💡 Patched: " ++ s ++ "[/green]" ∈ lines
  identifiers : e.identifiers ≠ [] →
    "[dim]IDs: " ++ ", ".intercalate (e.identifiers.take 5) ++ "[/dim]" ∈ lines
  url : ∀ s, e.url = some s → s ≠ "" → "[dim]" ++ s ++ "[/dim]" ∈ lines

theorem mark_eq (level : Severity) :
    Console.styled (color level) ("[" ++ capitals level ++ "]") = mark level := by
  cases level <;> decide +kernel

theorem titleOf_eq (e : Evidence) : titleOf e = (e.title.filter (· ≠ "")).getD "Vulnerability" := by
  unfold titleOf
  cases e.title with
  | none => rfl
  | some s => by_cases hs : s = "" <;> simp [hs, Option.filter]

theorem toList_title (s : String) : (Console.title s).toList =
    s.toList.filter fun c => c ∉ ['\x07', '\x08', '\x0b', '\x0c', '\r'] := by
  have hkept : ∀ c, (!Console.isDropped c) = decide (c ∉ ['\x07', '\x08', '\x0b', '\x0c', '\r']) := by
    intro c
    simp only [Console.isDropped, List.mem_cons, List.not_mem_nil, or_false, Bool.decide_or, decide_not,
      Bool.or_assoc, Bool.beq_eq_decide_eq]
  rw [Console.title, String.toList_ofList, funext hkept]

theorem styled_eq (style s : String) :
    Console.styled style s = "[" ++ style ++ "]" ++ s ++ ("[/" ++ style ++ "]") := by
  simp only [Console.styled, ← String.append_assoc]

theorem styled_append (style s t : String) :
    Console.styled style (s ++ t) = "[" ++ style ++ "]" ++ s ++ t ++ ("[/" ++ style ++ "]") := by
  simp only [Console.styled, ← String.append_assoc]

theorem lineOf_some {s : String} (hs : s ≠ "") (line : String → String) : lineOf (some s) line = [line s] :=
  if_neg hs

/-- A panel tells of its evidence. -/
theorem panel_tells (n : Nat) (l : Lockfile) (e : Evidence) : ∃ title lines border,
    panel n l e = .panel title ("\n".intercalate lines) border ∧ Tells n l e title lines := by
  refine ⟨_, panelLines l e, _, rfl, ?_, ⟨titleOf e, ?_, titleOf_eq e⟩, ?_, ?_, ?_⟩
  -- The marks and the words of a line are fixed, so what stands before and behind the evidence is a literal.
  · rw [toList_title, Evidence.package]
    simp only [String.append_assoc]
  · have hplace : Console.styled "dim" ("📁 " ++ l.displayName) = "[dim]📁 " ++ l.displayName ++ "[/dim]" :=
      styled_append "dim" "📁 " l.displayName
    have hhit : Console.styled "dim" ("Vulnerable: " ++ e.vulnerableVersions) =
        "[dim]Vulnerable: " ++ e.vulnerableVersions ++ "[/dim]" :=
      styled_append "dim" "Vulnerable: " e.vulnerableVersions
    rw [← mark_eq, ← hplace, ← hhit]
    rfl
  · intro s hs hne
    have hline : Console.styled "green" ("💡 Patched: " ++ s) = "[green]💡 Patched: " ++ s ++ "[/green]" :=
      styled_append "green" "💡 Patched: " s
    rw [← hline]
    simp [panelLines, hs, lineOf_some hne]
  · intro hne
    have hline (s : String) : Console.styled "dim" ("IDs: " ++ s) = "[dim]IDs: " ++ s ++ "[/dim]" :=
      styled_append "dim" "IDs: " s
    rw [← hline]
    simp [panelLines, hne, shownIdentifiers]
  · intro s hs hne
    have hline : Console.styled "dim" s = "[dim]" ++ s ++ "[/dim]" := styled_eq "dim" s
    rw [← hline]
    simp [panelLines, hs, lineOf_some hne]

/-- What is shown of the findings is a line and the panels, numbered from one on. -/
theorem panels_findings : (findings rs).filter Console.Item.isPanel =
    (ranked rs).mapIdx fun i x => panel (i + 1) x.1 x.2 := by
  have hpanels : ∀ n xs, (panels n xs).filter Console.Item.isPanel = panels n xs := by
    intro n xs
    apply List.filter_eq_self.mpr
    intro i hi
    rw [panels_eq_mapIdx] at hi
    obtain ⟨k, hk, rfl⟩ := List.mem_mapIdx.mp hi
    rfl
  unfold findings
  split
  · next h => rw [h]; rfl
  · next h =>
    rw [List.filter_cons_of_neg (by simp [Console.Item.isPanel]), hpanels, panels_eq_mapIdx]
    simp only [Nat.add_comm 1]

/-- Each panel has its number, and tells of the evidence in its place. -/
theorem panel_findings {i : Nat} {x : Lockfile × Evidence} (hx : (ranked rs)[i]? = some x) :
    ∃ title lines border,
      ((findings rs).filter Console.Item.isPanel)[i]? = some (.panel title ("\n".intercalate lines) border) ∧
        Tells (i + 1) x.1 x.2 title lines := by
  obtain ⟨title, lines, border, hpanel, htells⟩ := panel_tells (i + 1) x.1 x.2
  refine ⟨title, lines, border, ?_, htells⟩
  rw [panels_findings, List.getElem?_mapIdx, hx, Option.map_some, hpanel]

theorem perm_ranked : (ranked rs).Perm (located rs) := List.mergeSort_perm _ _

/-- The most severe come first. -/
theorem pairwise_ranked :
    (ranked rs).Pairwise fun a b => b.2.severity.rank ≤ a.2.severity.rank := by
  have h := Sorting.pairwise_byKey (fun x : Lockfile × Evidence => x.2.severity.place) (located rs)
  exact h.imp (Severity.place_le_iff _ _).mp

/-- Equal levels keep their order. -/
theorem stable_ranked (level : Severity) :
    (ranked rs).filter (fun x => x.2.severity == level) =
      (located rs).filter fun x => x.2.severity == level := by
  have hplace : ∀ x : Lockfile × Evidence, (x.2.severity == level) = true →
      x.2.severity.place = level.place := by
    intro x hx
    rw [eq_of_beq hx]
  exact Sorting.filter_byKey _ _ hplace (located rs)

/-! ## The report -/

theorem member?_results : (toJson rs).member? "results" = some (.arr (rs.map resultJson)) := by
  simp [toJson, Json.member?, Pairs.get?]

/-- The report lists the values of all evidence. -/
theorem vulnerabilities_toJson :
    vulnerabilitiesIn (toJson rs) = (evidenceOf rs).map evidenceJson := by
  unfold vulnerabilitiesIn evidenceOf
  rw [member?_results, Option.getD_some, Json.elements, List.flatMap_map, List.map_flatMap]
  rfl

/-- The summary of the report counts results by their status, but for those that were skipped. -/
theorem summary_toJson :
    (toJson rs).member₂? "summary" "vulnerabilities" = some (count (evidenceOf rs).length) ∧
    (toJson rs).member₂? "summary" "lockfiles" = some (count rs.length) ∧
    (toJson rs).member₂? "summary" "analyzed" = some (count (countOf .analyzed rs)) ∧
    (toJson rs).member₂? "summary" "failed" = some (count (countOf .failed rs)) ∧
    (toJson rs).member₂? "summary" "disabled" = some (count (countOf .disabled rs)) := by
  simp [Json.member₂?, toJson, Json.member?, Pairs.get?]

/-- Every result has one of the four statuses. -/
theorem length_eq_counts : rs.length =
    countOf .analyzed rs + countOf .failed rs + countOf .disabled rs + countOf .skipped rs := by
  induction rs with
  | nil => rfl
  | cons r rs ih =>
    simp only [countOf, List.countP_cons, List.length_cons] at ih ⊢
    cases r.status <;> simp <;> omega

/-! ## The verdict -/

/-- How the table of levels shows a level. -/
def label (level : Severity) : String := Console.styled (color level) (capitals level)

theorem label_injective {l l' : Severity} (h : label l = label l') : l = l' := by
  cases l <;> cases l' <;> first | rfl | exact absurd h (by decide +kernel)

/-- The table has a row for a level exactly if there is evidence at it. -/
theorem shows_iff (level : Severity) :
    (∃ shown, [label level, shown] ∈ (severityTable rs).rows) ↔ ∃ e ∈ evidenceOf rs, e.severity = level := by
  have hcount : 0 < countAt level rs ↔ ∃ e ∈ evidenceOf rs, e.severity = level := by
    rw [countAt, List.countP_pos_iff]
    simp only [beq_iff_eq]
  rw [← hcount]
  constructor
  · rintro ⟨shown, hrow⟩
    obtain ⟨l, hl, heq⟩ := List.mem_map.mp hrow
    obtain ⟨hlabel, -⟩ := List.cons.inj heq
    rw [← label_injective hlabel]
    simpa using (List.mem_filter.mp hl).2
  · intro hpos
    refine ⟨_, List.mem_map.mpr ⟨level, List.mem_filter.mpr ⟨level.mem_levels, ?_⟩, rfl⟩⟩
    simpa using hpos

/-- A scan fails by what the table of levels shows. -/
theorem shouldFail_iff : shouldFail c rs = true ↔ c.failOnFindings = true ∧
    ∃ level shown, [label level, shown] ∈ (severityTable rs).rows ∧ level.atLeast c.failOnSeverity = true := by
  unfold shouldFail
  rw [Bool.and_eq_true, List.any_eq_true]
  apply and_congr_right
  intro _
  constructor
  · rintro ⟨e, he, hlevel⟩
    obtain ⟨shown, hrow⟩ := (shows_iff rs e.severity).mpr ⟨e, he, rfl⟩
    exact ⟨e.severity, shown, hrow, hlevel⟩
  · rintro ⟨level, shown, hrow, hlevel⟩
    obtain ⟨e, he, rfl⟩ := (shows_iff rs level).mp ⟨shown, hrow⟩
    exact ⟨e, he, hlevel⟩

/-- What is shown about a report that was saved names its path. -/
theorem note_subset {path : Option String} {here : Path} {files files' : FileTree}
    {note : List Console.Item} (h : Scan.saveReport path here rs files = .ok (note, files')) :
    note ⊆ (path.map Scan.savedNote).toList := by
  unfold Scan.saveReport at h
  cases path with
  | none =>
    cases h
    exact List.nil_subset _
  | some path =>
    simp only at h
    split at h
    · cases h
      exact List.nil_subset _
    · split at h
      · cases h
      · split at h
        · cases h
          exact List.Subset.refl _
        · cases h

/-- **On a terminal that shows the views**, they are all shown, and the scan ends with an error in saving its
    report or with the verdict on its results. -/
theorem conclude_of_shows {d : Console.Display} (hshown : d.Shows (Scan.lastItems c rs)) (here : Path)
    (w : Scan.World) (shown : List Console.Item) :
    (∃ more, (Scan.conclude d c here w shown rs).shown = shown ++ (summary rs ++ findings rs) ++ more) ∧
    ((∃ m, Scan.saveReport c.jsonOutput here rs w.files = .error m ∧
        (Scan.conclude d c here w shown rs).verdict = .error (.mishap m)) ∨
      ∃ saved, Scan.saveReport c.jsonOutput here rs w.files = .ok saved ∧
        (Scan.conclude d c here w shown rs).verdict = .ok (Scan.judge c rs)) := by
  have hviews : d.Shows (summary rs ++ findings rs) := by
    intro i hi
    apply hshown i
    exact List.mem_append_left _ (List.mem_append_left _ hi)
  unfold Scan.conclude Scan.showing
  rw [Console.Display.print_of_shows hviews]
  cases hsaved : Scan.saveReport c.jsonOutput here rs w.files with
  | error m => exact ⟨⟨[], (List.append_nil _).symm⟩, .inl ⟨m, rfl, rfl⟩⟩
  | ok saved =>
    obtain ⟨note, files⟩ := saved
    -- The views are followed by what is said of the report, if it was saved, and by the verdict.
    have hrest : d.Shows (note ++ [(Scan.judge c rs).closing]) := by
      intro i hi
      apply hshown i
      rcases List.mem_append.mp hi with hi | hi
      · exact List.mem_append_left _ (List.mem_append_right _ (note_subset rs hsaved hi))
      · exact List.mem_append_right _ hi
    simp only [Console.Display.print_of_shows hrest]
    exact ⟨⟨_, rfl⟩, .inr ⟨_, rfl, rfl⟩⟩

/-- **On a terminal that refuses a text in the views**, the scan ends there. Nothing is saved. -/
theorem conclude_of_refused {d : Console.Display} {items rest : List Console.Item} {i : Console.Item}
    {m : Mishap} (hviews : summary rs ++ findings rs = items ++ i :: rest) (hshown : d.Shows items)
    (hi : d.fault? i = some m) (here : Path) (w : Scan.World) (shown : List Console.Item) :
    Scan.conclude d c here w shown rs = Scan.ended w (shown ++ items) (.error (.mishap m)) := by
  unfold Scan.conclude Scan.showing
  rw [hviews, Console.Display.print_of_refused hshown hi]

/-- **All views of the results agree.** The number of vulnerabilities in the report's summary, the entries that
    the report lists, the counts in the table of levels, those in the table of lockfiles, and the panels are
    the same in number. The panels are numbered from one on and tell of the evidence with the most severe first,
    while equal levels keep the order of results and evidence. The summary's lockfiles are those analyzed,
    failed, disabled and skipped. A scan fails exactly if findings are to make it fail and the table of levels
    shows one at or above the configured level.

    A terminal that shows the views shows them all, and once the report is saved, this decides the exit code.
    The first text in them that a terminal refuses ends the scan instead, before a report is saved. -/
theorem views_agree (c : ReportingConfig) (rs : List Result) :
    ∃ lockfiles levels, summary rs = [lockfiles, .text "", levels] ∧
      (∃ n, (toJson rs).member₂? "summary" "vulnerabilities" = some (count n) ∧
        (vulnerabilitiesIn (toJson rs)).length = n ∧
        levels.total? "Count" = some n ∧
        lockfiles.total? "Vulnerabilities" = some n ∧
        ((findings rs).filter Console.Item.isPanel).length = n) ∧
      (∃ ordered : List (Lockfile × Evidence),
        (∀ i l e, ordered[i]? = some (l, e) → ∃ title lines border,
          ((findings rs).filter Console.Item.isPanel)[i]? =
            some (.panel title ("\n".intercalate lines) border) ∧ Tells (i + 1) l e title lines) ∧
        ordered.Perm (located rs) ∧
        ordered.Pairwise (fun a b => b.2.severity.rank ≤ a.2.severity.rank) ∧
        ∀ level, ordered.filter (fun x => x.2.severity == level) =
          (located rs).filter fun x => x.2.severity == level) ∧
      (∃ analyzed failed disabled,
        (toJson rs).member₂? "summary" "analyzed" = some (count analyzed) ∧
        (toJson rs).member₂? "summary" "failed" = some (count failed) ∧
        (toJson rs).member₂? "summary" "disabled" = some (count disabled) ∧
        (toJson rs).member₂? "summary" "lockfiles" =
          some (count (analyzed + failed + disabled + countOf .skipped rs))) ∧
      (shouldFail c rs = true ↔ c.failOnFindings = true ∧
        ∃ level shown, [label level, shown] ∈ levels.rows ∧ level.atLeast c.failOnSeverity = true) ∧
      ∀ (d : Console.Display) here w shown,
        (d.Shows (Scan.lastItems c rs) →
          (∃ more, (Scan.conclude d c here w shown rs).shown =
            shown ++ (summary rs ++ findings rs) ++ more) ∧
          ((∃ m, Scan.saveReport c.jsonOutput here rs w.files = .error m ∧
              (Scan.conclude d c here w shown rs).verdict = .error (.mishap m)) ∨
            ∃ v, (Scan.conclude d c here w shown rs).verdict = .ok v ∧
              (v.exitCode = 1 ↔ shouldFail c rs = true))) ∧
        ∀ items i m rest, summary rs ++ findings rs = items ++ i :: rest → d.Shows items →
          d.fault? i = some m →
          Scan.conclude d c here w shown rs = Scan.ended w (shown ++ items) (.error (.mishap m)) := by
  obtain ⟨hvulnerabilities, hlockfiles, hanalyzed, hfailed, hdisabled⟩ := summary_toJson rs
  have hlisted : (vulnerabilitiesIn (toJson rs)).length = (evidenceOf rs).length := by
    rw [vulnerabilities_toJson, List.length_map]
  have hpanels : ((findings rs).filter Console.Item.isPanel).length = (evidenceOf rs).length := by
    rw [panels_findings, List.length_mapIdx, (perm_ranked rs).length_eq, length_located]
  refine ⟨lockfileTable rs, severityTable rs, rfl,
    ⟨_, hvulnerabilities, hlisted, total?_severityTable rs, total?_lockfileTable rs, hpanels⟩,
    ⟨ranked rs, ?_, perm_ranked rs, pairwise_ranked rs, stable_ranked rs⟩,
    ⟨_, _, _, hanalyzed, hfailed, hdisabled, ?_⟩, shouldFail_iff c rs, ?_⟩
  · intro i l e hx
    exact panel_findings rs hx
  · rw [hlockfiles, ← length_eq_counts]
  · intro d here w shown
    constructor
    · intro hshown
      obtain ⟨hall, hsaved | ⟨_, -, hverdict⟩⟩ := conclude_of_shows c rs hshown here w shown
      · exact ⟨hall, .inl hsaved⟩
      · exact ⟨hall, .inr ⟨_, hverdict, Scan.exitCode_judge c rs⟩⟩
    · intro items i m rest hviews hitems hi
      exact conclude_of_refused c rs hviews hitems hi here w shown

/-! ## A title with marks -/

/-- Evidence whose title has a mark in it. -/
def sampleEvidence : Evidence :=
  ⟨"GHSA-x", "audit", "lodash", "1.0.0", "<2.0.0", .high, [], none, some "Reads [/etc]", none, none, none, []⟩

def sampleLockfile : Lockfile := ⟨⟨"", ["app", "yarn.lock"]⟩, "app/yarn.lock"⟩

/-- One lockfile with this evidence. -/
def sampleResults : List Result := [{ Result.of sampleLockfile .analyzed with evidence := [sampleEvidence] }]

/-- Findings fail a scan, and no report is saved. -/
def sampleReporting : ReportingConfig := ⟨none, true, .low⟩

/-- What a terminal says of a mark that closes nothing. -/
def sampleFault : Mishap :=
  .foreign "MarkupError" "closing tag '[/etc]' at position 32 doesn't match any open tag"

/-- A terminal that shows no panels. -/
def sampleDisplay : Console.Display := ⟨fun i => if i.isPanel then some sampleFault else none⟩

def sampleWorld : Scan.World := ⟨.enabled, .folder [], .empty⟩

theorem views_agree_sample :
    Console.Display.plain.Shows (Scan.lastItems sampleReporting sampleResults) ∧
    (∃ v, (Scan.conclude .plain sampleReporting ⟨"", []⟩ sampleWorld [] sampleResults).verdict = .ok v ∧
      v.exitCode = 1) ∧
    (∃ title lines border,
      ((findings sampleResults).filter Console.Item.isPanel)[0]? =
        some (.panel title ("\n".intercalate lines) border) ∧
      title.toList = "#1 lodash@1.0.0 GHSA-x".toList ∧
      lines.take 3 = ["[orange1][HIGH][/orange1] Reads [/etc]", "[dim]📁 app/yarn.lock[/dim]",
        "[dim]Vulnerable: <2.0.0[/dim]"]) ∧
    (Scan.conclude sampleDisplay sampleReporting ⟨"", []⟩ sampleWorld [] sampleResults).verdict =
      .error (.mishap sampleFault) := by
  have hshown := Console.Display.shows_plain (Scan.lastItems sampleReporting sampleResults)
  obtain ⟨lockfiles, levels, -, -, ⟨ordered, hpanels, hperm, -⟩, -, -, hend⟩ :=
    views_agree sampleReporting sampleResults
  refine ⟨hshown, ?_, ?_, ?_⟩
  · obtain ⟨-, hsaved⟩ := (hend .plain ⟨"", []⟩ sampleWorld []).1 hshown
    rcases hsaved with ⟨m, hm, -⟩ | ⟨v, hverdict, hcode⟩
    · cases hm
    · exact ⟨v, hverdict, hcode.mpr rfl⟩
  · have hordered : ordered = [(sampleLockfile, sampleEvidence)] := List.perm_singleton.mp hperm
    subst hordered
    obtain ⟨title, lines, border, hpanel, htells⟩ := hpanels 0 _ _ rfl
    obtain ⟨heading, hopening, rfl⟩ := htells.opening
    exact ⟨title, lines, border, hpanel, htells.title.trans (by decide), hopening⟩
  · have hranked : ranked sampleResults = [(sampleLockfile, sampleEvidence)] :=
      List.perm_singleton.mp (perm_ranked sampleResults)
    have hviews : summary sampleResults ++ findings sampleResults =
        [lockfileTable sampleResults, .text "", severityTable sampleResults,
          .text "\n[bold]📋 Detailed Findings[/bold]\n"] ++ [panel 1 sampleLockfile sampleEvidence] := by
      unfold findings
      rw [hranked]
      rfl
    have hitems : sampleDisplay.Shows [lockfileTable sampleResults, .text "", severityTable sampleResults,
        .text "\n[bold]📋 Detailed Findings[/bold]\n"] := by
      intro i hi
      simp only [List.mem_cons, List.not_mem_nil, or_false] at hi
      rcases hi with rfl | rfl | rfl | rfl <;> rfl
    rw [(hend sampleDisplay ⟨"", []⟩ sampleWorld []).2 _ _ sampleFault [] hviews hitems rfl]
    rfl

end Report

end LockAudit
