import LockAudit.Proofs.Extraction
import LockAudit.Proofs.Json.Reading
import LockAudit.Proofs.Session.Stages
import LockAudit.Proofs.Text.Decoding

/-!
# `LockAudit.Proofs.Session.Malformed` — what malformed input comes to

An analysis reads two inputs that others wrote: the output of the package manager and the manifest. An input
that is not as it should be fails the lockfile with a kind of its own, and there is one exception. A number
that is too long is refused, and a refusal is no error of the audit: it passes every step that tells errors
apart, and the failure has the kind `unexpected`.

* `AuditRequest.answers_iff`, `Manifest.answers_iff` — what is read ends in a value or in an error of the
  audit exactly if nothing is refused (`Refuses`).
* `Refuses.hasLongRun` — what is refused has a run of digits that is too long for a numeral.
* `failsAt_extract_iff`, `failsAt_manifest_iff` — an analysis fails unexpectedly at one of the two stages
  exactly if it meets a refusal there.
-/

namespace LockAudit

open LockAudit.Text

/-! ## The request -/

namespace AuditRequest

variable {stdout stderr source : String} {text body : String} {malformed : String → Fault} {v : Json}
  {r : Numeral.Refusal}

/-- An output holds a number that is too long: in the record's line, or in the body that the record
    holds. -/
inductive Refuses (stdout : String) (r : Numeral.Refusal) : Prop
  | line {line : List Char} (hline : requestLine? stdout.toList = some line)
      (h : Json.parse (String.ofList line) = .error (.numeral r))
  | body {line : List Char} {record : Json} {body : String}
      (hline : requestLine? stdout.toList = some line)
      (hrecord : Json.parse (String.ofList line) = .ok record) (hbody : body? record = some body)
      (h : Json.parse body = .error (.numeral r))

/-- An extraction comes to an object, or to one of the two errors that an output may have. -/
def Answers (x : Except Fault Json) : Prop :=
  (∃ members, x = .ok (.obj members)) ∨
    ∃ f, x = .error f ∧ (f.trouble = .of .auditRequestNotFound f.message ∨
      f.trouble = .of .malformedAuditRequest f.message)

theorem not_answers_numeral : ¬ Answers (.error (.numeral r)) := by
  rintro (⟨members, h⟩ | ⟨f, h, htrouble⟩)
  · cases h
  · cases h
    rcases htrouble with h | h
    · cases h
    · cases h

theorem readJson_of_ok (h : Json.parse text = .ok v) : readJson malformed text = .ok v := by
  rw [readJson, h]

theorem readJson_of_numeral (h : Json.parse text = .error (.numeral r)) :
    readJson malformed text = .error (.numeral r) := by
  rw [readJson, h]

theorem readJson_of_malformed {what : Json.Expected} {place : Json.Place}
    (h : Json.parse text = .error (.malformed what place)) :
    readJson malformed text = .error (malformed (Json.ReadError.malformed what place).message) := by
  rw [readJson, h]

/-- A body that is not refused is an object or malformed. -/
theorem answers_request (h : ∀ r, Json.parse body ≠ .error (.numeral r)) : Answers (request body) := by
  unfold request
  cases hp : Json.parse body with
  | ok v =>
    rw [readJson_of_ok hp]
    cases v with
    | obj members => exact .inl ⟨members, rfl⟩
    | _ => exact .inr ⟨_, rfl, .inr rfl⟩
  | error e =>
    cases e with
    | numeral r => exact absurd hp (h r)
    | malformed what place =>
      rw [readJson_of_malformed hp]
      exact .inr ⟨_, rfl, .inr rfl⟩

theorem result_of_refuses (h : Refuses stdout r) :
    (extract stdout stderr source).result = .error (.numeral r) := by
  unfold extract
  cases h with
  | line hline h =>
    rw [hline]
    simp only [readJson_of_numeral h]
  | body hline hrecord hbody h =>
    rw [hline]
    simp only [readJson_of_ok hrecord, hbody]
    rw [request, readJson_of_numeral h]
    rfl

theorem answers_of_not_refuses (h : ∀ r, ¬ Refuses stdout r) :
    Answers (extract stdout stderr source).result := by
  unfold extract
  cases hline : requestLine? stdout.toList with
  | none => exact .inr ⟨_, rfl, .inl rfl⟩
  | some line =>
    cases hp : Json.parse (String.ofList line) with
    | error e =>
      cases e with
      | numeral r => exact absurd (.line hline hp) (h r)
      | malformed what place =>
        simp only [readJson_of_malformed hp]
        exact .inr ⟨_, rfl, .inr rfl⟩
    | ok record =>
      simp only [readJson_of_ok hp]
      cases hbody : body? record with
      | none => exact .inr ⟨_, rfl, .inr rfl⟩
      | some body => exact answers_request fun r hr => h r (.body hline hp hbody hr)

/-- **An extraction answers unless a number is refused.** -/
theorem answers_iff : Answers (extract stdout stderr source).result ↔ ∀ r, ¬ Refuses stdout r := by
  refine ⟨fun h r hr => ?_, answers_of_not_refuses⟩
  rw [result_of_refuses hr] at h
  exact not_answers_numeral h

theorem infix_dropReturns (s : List Char) : dropReturns s <:+: s := by
  have h : (s.reverse.dropWhile (· == '\r')).reverse.reverse <:+ s.reverse := by
    rw [List.reverse_reverse]
    exact List.dropWhile_suffix _
  exact (List.reverse_suffix.mp h).isInfix

/-- What is refused has a run of digits that is too long, in the output or in the body that is taken out
    of it. -/
theorem Refuses.hasLongRun (h : Refuses stdout r) :
    HasLongRun stdout.toList ∨ ∃ line record body, requestLine? stdout.toList = some line ∧
      Json.parse (String.ofList line) = .ok record ∧ body? record = some body ∧
      HasLongRun body.toList := by
  cases h with
  | line hline h =>
    left
    have hrun := Json.hasLongRun_of_parse h
    rw [String.toList_ofList] at hrun
    refine HasLongRun.mono hrun ?_
    unfold requestLine? at hline
    obtain ⟨piece, hfind, rfl⟩ := Option.map_eq_some_iff.mp hline
    have hpiece := infix_of_mem_split (List.mem_of_find?_eq_some hfind)
    exact (infix_dropReturns piece).trans hpiece
  | body hline hrecord hbody h =>
    exact .inr ⟨_, _, _, hline, hrecord, hbody, Json.hasLongRun_of_parse h⟩

end AuditRequest

/-! ## The manifest -/

namespace Manifest

variable {files : FileTree} {path : Path}

/-- A manifest's file is refused: its path has a null character, or its text a number that is too long. -/
inductive Refuses (files : FileTree) (path : Path) : Prop
  | null (h : path.toString.toList.contains '\x00' = true)
  | numeral {text : String} {r : Numeral.Refusal} (htext : readText files path = .ok text)
      (h : Json.parse text = .error (.numeral r))

/-- Reading a manifest comes to declarations or to the error that a manifest may have. -/
def Answers (x : Except ReadFault Manifest) : Prop :=
  (∃ m, x = .ok m) ∨ ∃ f message, x = .error f ∧ f.trouble = .of .manifest message

/-- A text that cannot be read is an error of the manifest unless the path is no path. -/
theorem trouble_of_readText {f : ReadFault} (h : readText files path = .error f) :
    path.toString.toList.contains '\x00' = true ∧ f = .embeddedNull ∨
      ∃ message, f.trouble = .of .manifest message := by
  unfold readText at h
  dsimp only at h
  by_cases hnull : path.toString.toList.contains '\x00' = true
  · rw [if_pos hnull] at h
    exact .inl ⟨hnull, (Except.error.inj h).symm⟩
  · rw [if_neg hnull] at h
    right
    split at h
    · cases h
      exact ⟨_, rfl⟩
    · cases h
      exact ⟨_, rfl⟩
    · split at h
      · cases h
        exact ⟨_, rfl⟩
      · cases h

/-- A text that can be read is parsed, and its declarations are taken out. -/
theorem read_of_text {text : String} (h : readText files path = .ok text) :
    read files path = match Json.parse text with
      | .error (.numeral r) => .error (.numeral r)
      | .error e => .error (.malformed path.toString e.message)
      | .ok v => match ofJson v with
        | .ok m => .ok m
        | .error f => .error (.declaration f) := by
  rw [read, h]
  rfl

/-- A refusal passes as a mishap. -/
theorem read_of_refuses (h : Refuses files path) :
    ∃ f m, read files path = .error f ∧ f.trouble = .mishap m := by
  cases h with
  | null h =>
    have htext : readText files path = .error .embeddedNull := by
      unfold readText
      exact if_pos h
    refine ⟨.embeddedNull, _, ?_, rfl⟩
    rw [read, htext]
    rfl
  | @numeral text r htext h =>
    refine ⟨.numeral r, .numeral r, ?_, rfl⟩
    rw [read_of_text htext, h]

theorem answers_of_not_refuses (h : ¬ Refuses files path) : Answers (read files path) := by
  cases htext : readText files path with
  | error f =>
    rcases trouble_of_readText htext with ⟨hnull, -⟩ | ⟨message, hm⟩
    · exact absurd (.null hnull) h
    · refine .inr ⟨f, message, ?_, hm⟩
      rw [read, htext]
      rfl
  | ok text =>
    rw [read_of_text htext]
    cases hp : Json.parse text with
    | error e =>
      cases e with
      | numeral r => exact absurd (.numeral htext hp) h
      | malformed what place => exact .inr ⟨_, _, rfl, rfl⟩
    | ok v =>
      cases hv : ofJson v with
      | ok m => exact .inl ⟨m, by simp only [hv]⟩
      | error f => exact .inr ⟨.declaration f, f.message, by simp only [hv], rfl⟩

/-- **Reading a manifest answers unless it is refused.** -/
theorem answers_iff : Answers (read files path) ↔ ¬ Refuses files path := by
  refine ⟨fun h hr => ?_, answers_of_not_refuses⟩
  obtain ⟨f, m, hread, hm⟩ := read_of_refuses hr
  rw [hread] at h
  rcases h with ⟨_, h⟩ | ⟨g, message, h, htrouble⟩
  · cases h
  · cases h
    rw [hm] at htrouble
    cases htrouble

end Manifest

/-! ## Analyses -/

namespace Analysis

variable {s : Settings} {host : Host} {files left : FileTree} {state : Lifecycle.State} {l : Lockfile}
  {path : Path} {exit : Program.Exit} {stage : Stage} {kind : ErrorKind} {t : Trouble}

/-- An analysis fails at a stage with a kind. -/
def FailsAt (s : Settings) (host : Host) (files : FileTree) (state : Lifecycle.State) (l : Lockfile)
    (stage : Stage) (kind : ErrorKind) : Prop :=
  ∃ r f, (analyze s host files state l).result = .ok r ∧ r.failure = some f ∧ f.stage = stage ∧
    f.kind = kind

/-- A halt becomes a failure with its stage and kind, unless it passes. -/
theorem judge_failure {r : Result} {f : Failure} {halt : Halt}
    (h : (judge l state halt).result = .ok r) (hf : r.failure = some f) :
    f.stage = halt.stage ∧ f.kind = halt.trouble.kind ∧ halt.trouble.IsError ∧
      halt.trouble.isInterruption = false := by
  obtain ⟨stage, t⟩ := halt
  have herror : t.IsError := by
    cases t with
    | audit e => trivial
    | mishap m => trivial
    | interrupt message => cases h
    | stop name message => cases h
  rw [judge_of_isError herror] at h
  split at h
  · cases h
  · next hi =>
    cases h
    cases hf
    exact ⟨rfl, rfl, herror, Bool.eq_false_iff.mpr hi⟩

/-- **Where analyses fail**: an analyzer in service, given a lockfile worth analyzing, at the stage that
    ends the row of stages with an error that does not pass. -/
theorem failsAt_iff : FailsAt s host files state l stage kind ↔
    state = .enabled ∧ shouldProcess files l.path = true ∧
      ∃ t, staged s host files l.path = .error ⟨stage, t⟩ ∧ t.IsError ∧ t.isInterruption = false ∧
        t.kind = kind := by
  constructor
  · rintro ⟨r, f, hr, hf, rfl, rfl⟩
    -- An analysis that is turned away, skipped or finished has no failure, so the stages ended.
    by_cases hstate : state = .enabled
    swap
    · rw [analyze_of_not_enabled hstate] at hr
      cases hr
      cases hf
    subst hstate
    cases hprocess : shouldProcess files l.path with
    | false =>
      rw [analyze_of_skipped hprocess] at hr
      cases hr
      cases hf
    | true =>
      refine ⟨rfl, rfl, ?_⟩
      have hhalt := (run_of_stages s host (isFolder_parent hprocess)).1
      cases hstaged : staged s host files l.path with
      | ok es =>
        rw [hstaged] at hhalt
        rw [analyze_of_finished hprocess hhalt] at hr
        cases hr
        cases hf
      | error halt =>
        rw [hstaged] at hhalt
        rw [analyze_of_halted hprocess hhalt] at hr
        obtain ⟨hstage, hkind, herror, hpasses⟩ := judge_failure hr hf
        exact ⟨halt.trouble, by rw [hstage], herror, hpasses, hkind.symm⟩
  · rintro ⟨rfl, hprocess, t, hstaged, herror, hpasses, rfl⟩
    have hhalt := (run_of_stages s host (isFolder_parent hprocess)).1
    rw [hstaged] at hhalt
    refine ⟨⟨l, .failed, [], some ⟨t.kind, stage, l.displayName, t.message⟩, noTime⟩, _, ?_, rfl, rfl,
      rfl⟩
    rw [analyze_of_halted hprocess hhalt, judge_of_isError herror, hpasses]
    rfl

/-! ## The stages that read -/

/-- A stage that fails names itself. -/
theorem haltAt_eq_error {ε α : Type} {trouble : ε → Trouble} {x : Except ε α} {halt : Halt}
    (h : haltAt stage trouble x = .error halt) : ∃ e, x = .error e ∧ halt = ⟨stage, trouble e⟩ := by
  cases x with
  | ok a => cases h
  | error e => exact ⟨e, rfl, (Except.error.inj h).symm⟩

/-- What ends the stages, if not the program or the service, ends the making of the payload. -/
theorem staged_error {halt : Halt} (h : staged s host files path = .error halt) :
    halt.stage = .process ∨ halt.stage = .advisory ∨ halt.stage = .mapping ∨
      ∃ exit left, host.launch files (auditLaunch s path.parent) = (.ok exit, left) ∧
        payloadOf s left path exit = .error halt := by
  unfold staged at h
  rcases bind_error h with h | ⟨p, -, h⟩
  · rcases hl : host.launch files (auditLaunch s path.parent) with ⟨outcome, left⟩
    cases outcome with
    | error t =>
      rw [prepared_of_error (by rw [hl])] at h
      cases h
      exact .inl rfl
    | ok exit =>
      rw [prepared_of_ok hl] at h
      exact .inr (.inr (.inr ⟨exit, left, rfl, h⟩))
  rcases bind_error h with h | ⟨as, -, h⟩
  · obtain ⟨f, -, rfl⟩ := haltAt_eq_error h
    exact .inr (.inl rfl)
  · obtain ⟨m, -, rfl⟩ := haltAt_eq_error h
    exact .inr (.inr (.inl rfl))

theorem payloadOf_error {halt : Halt} (h : payloadOf s left path exit = .error halt) :
    (∃ f, (AuditRequest.extract exit.stdout exit.stderr path.toString).result = .error f ∧
      halt = ⟨.extract, f.trouble⟩) ∨
    ∃ request, (AuditRequest.extract exit.stdout exit.stderr path.toString).result = .ok request ∧
      ((∃ f, Manifest.read left (path.parent.child Manifest.fileName) = .error f ∧
        halt = ⟨.manifest, f.trouble⟩) ∨ halt.stage = .payload) := by
  unfold payloadOf at h
  rcases bind_error h with h | ⟨request, hrequest, h⟩
  · exact .inl (haltAt_eq_error h)
  refine .inr ⟨request, haltAt_ok hrequest, ?_⟩
  rcases bind_error h with h | ⟨manifest, -, h⟩
  · exact .inl (haltAt_eq_error h)
  · obtain ⟨f, -, rfl⟩ := haltAt_eq_error h
    exact .inr rfl

/-- The other stages end exactly if the making of the payload does. -/
theorem staged_iff_payloadOf {halt : Halt} (hprocess : halt.stage ≠ .process)
    (hadvisory : halt.stage ≠ .advisory) (hmapping : halt.stage ≠ .mapping) :
    staged s host files path = .error halt ↔
      ∃ exit left, host.launch files (auditLaunch s path.parent) = (.ok exit, left) ∧
        payloadOf s left path exit = .error halt := by
  constructor
  · intro h
    rcases staged_error h with hs | hs | hs | h
    · exact absurd hs hprocess
    · exact absurd hs hadvisory
    · exact absurd hs hmapping
    · exact h
  · rintro ⟨exit, left, hl, h⟩
    exact staged_of_error ((prepared_of_ok hl).trans h)

/-- The stages end at the extraction exactly if this has a fault. -/
theorem staged_extract_iff : staged s host files path = .error ⟨.extract, t⟩ ↔
    ∃ exit left, host.launch files (auditLaunch s path.parent) = (.ok exit, left) ∧
      ∃ f, (AuditRequest.extract exit.stdout exit.stderr path.toString).result = .error f ∧
        f.trouble = t := by
  rw [staged_iff_payloadOf (by simp) (by simp) (by simp)]
  refine exists_congr fun exit => exists_congr fun left => and_congr_right fun _ => ?_
  constructor
  · intro h
    rcases payloadOf_error h with ⟨f, hf, heq⟩ | ⟨request, -, ⟨f, -, heq⟩ | hs⟩
    · exact ⟨f, hf, (Halt.mk.inj heq).2.symm⟩
    · cases heq
    · cases hs
  · rintro ⟨f, hf, rfl⟩
    rw [payloadOf, hf]
    rfl

/-- The stages end at the manifest exactly if an extraction gives a request and the manifest has a
    fault. -/
theorem staged_manifest_iff : staged s host files path = .error ⟨.manifest, t⟩ ↔
    ∃ exit left, host.launch files (auditLaunch s path.parent) = (.ok exit, left) ∧
      (∃ request, (AuditRequest.extract exit.stdout exit.stderr path.toString).result = .ok request) ∧
      ∃ f, Manifest.read left (path.parent.child Manifest.fileName) = .error f ∧ f.trouble = t := by
  rw [staged_iff_payloadOf (by simp) (by simp) (by simp)]
  refine exists_congr fun exit => exists_congr fun left => and_congr_right fun _ => ?_
  constructor
  · intro h
    rcases payloadOf_error h with ⟨f, -, heq⟩ | ⟨request, hrequest, ⟨f, hf, heq⟩ | hs⟩
    · cases heq
    · exact ⟨⟨request, hrequest⟩, f, hf, (Halt.mk.inj heq).2.symm⟩
    · cases hs
  · rintro ⟨⟨request, hrequest⟩, f, hf, rfl⟩
    rw [payloadOf, hrequest]
    show (haltAt .manifest Manifest.ReadFault.trouble _ >>= _) = _
    rw [hf]
    rfl

/-! ## Unexpected failures -/

/-- **Extractions fail unexpectedly only where a number is refused.** -/
theorem failsAt_extract_iff : FailsAt s host files state l .extract .unexpected ↔
    state = .enabled ∧ shouldProcess files l.path = true ∧
      ∃ exit left, host.launch files (auditLaunch s l.path.parent) = (.ok exit, left) ∧
        ∃ r, AuditRequest.Refuses exit.stdout r := by
  rw [failsAt_iff]
  refine and_congr_right fun _ => and_congr_right fun _ => ?_
  constructor
  · rintro ⟨t, hstaged, -, -, hkind⟩
    obtain ⟨exit, left, hl, f, hf, rfl⟩ := staged_extract_iff.mp hstaged
    refine ⟨exit, left, hl, ?_⟩
    by_contra hnone
    -- Without a refusal the fault is one of the two errors, and these have kinds of their own.
    have hanswers : AuditRequest.Answers
        (AuditRequest.extract exit.stdout exit.stderr l.path.toString).result :=
      AuditRequest.answers_of_not_refuses (not_exists.mp hnone)
    rw [hf] at hanswers
    rcases hanswers with ⟨_, h⟩ | ⟨g, h, htrouble | htrouble⟩
    · cases h
    · rw [Except.error.inj h, htrouble] at hkind
      cases hkind
    · rw [Except.error.inj h, htrouble] at hkind
      cases hkind
  · rintro ⟨exit, left, hl, r, hr⟩
    refine ⟨.mishap (.numeral r), ?_, trivial, rfl, rfl⟩
    exact staged_extract_iff.mpr ⟨exit, left, hl, .numeral r, AuditRequest.result_of_refuses hr, rfl⟩

/-- **Manifests fail unexpectedly only where they are refused.** -/
theorem failsAt_manifest_iff : FailsAt s host files state l .manifest .unexpected ↔
    state = .enabled ∧ shouldProcess files l.path = true ∧
      ∃ exit left, host.launch files (auditLaunch s l.path.parent) = (.ok exit, left) ∧
        (∃ request, (AuditRequest.extract exit.stdout exit.stderr l.path.toString).result =
          .ok request) ∧
        Manifest.Refuses left (l.path.parent.child Manifest.fileName) := by
  rw [failsAt_iff]
  refine and_congr_right fun _ => and_congr_right fun _ => ?_
  constructor
  · rintro ⟨t, hstaged, -, -, hkind⟩
    obtain ⟨exit, left, hl, hrequest, f, hf, rfl⟩ := staged_manifest_iff.mp hstaged
    refine ⟨exit, left, hl, hrequest, ?_⟩
    by_contra hnone
    -- Again, the fault would be an error of a kind of its own.
    have hanswers := Manifest.answers_of_not_refuses hnone
    rw [hf] at hanswers
    rcases hanswers with ⟨_, h⟩ | ⟨g, message, h, htrouble⟩
    · cases h
    · rw [Except.error.inj h, htrouble] at hkind
      cases hkind
  · rintro ⟨exit, left, hl, hrequest, hr⟩
    obtain ⟨f, m, hf, hm⟩ := Manifest.read_of_refuses hr
    refine ⟨.mishap m, ?_, trivial, rfl, rfl⟩
    exact staged_manifest_iff.mpr ⟨exit, left, hl, hrequest, f, hf, hm⟩

/-- **Malformed input is answered unless it is refused.** Every output of the package manager gives an
    object or one of two errors, and every manifest gives declarations or one error, exactly if no number
    in them is too long and the manifest's path is one. So an analysis fails unexpectedly at the stages
    that read them exactly if it gets there and meets such a number or path. -/
theorem answers_unless_refused (stdout stderr source : String) (root : FileTree) (file : Path)
    (s : Settings) (host : Host) (files : FileTree) (state : Lifecycle.State) (l : Lockfile) :
    (AuditRequest.Answers (AuditRequest.extract stdout stderr source).result ↔
      ∀ r, ¬ AuditRequest.Refuses stdout r) ∧
    (Manifest.Answers (Manifest.read root file) ↔ ¬ Manifest.Refuses root file) ∧
    (FailsAt s host files state l .extract .unexpected ↔
      state = .enabled ∧ shouldProcess files l.path = true ∧
        ∃ exit left, host.launch files (auditLaunch s l.path.parent) = (.ok exit, left) ∧
          ∃ r, AuditRequest.Refuses exit.stdout r) ∧
    (FailsAt s host files state l .manifest .unexpected ↔
      state = .enabled ∧ shouldProcess files l.path = true ∧
        ∃ exit left, host.launch files (auditLaunch s l.path.parent) = (.ok exit, left) ∧
          (∃ request, (AuditRequest.extract exit.stdout exit.stderr l.path.toString).result =
            .ok request) ∧
          Manifest.Refuses left (l.path.parent.child Manifest.fileName)) :=
  ⟨AuditRequest.answers_iff, Manifest.answers_iff, failsAt_extract_iff, failsAt_manifest_iff⟩

/-! ## A sample of what is refused -/

open Session (sampleLockfile sampleFiles)

/-- A number of one digit too many. -/
def longNumeral : List Char := List.replicate (Numeral.maxDigits + 1) '9'

theorem parse_longNumeral (rest : List Char) :
    Json.parse (String.ofList (Json.numberFirst longNumeral rest)) =
      .error (.numeral (.tooLongToRead longNumeral.length)) := by
  have hdigits : ∀ c ∈ longNumeral, isAsciiDigit c = true := by
    intro c hc
    rw [List.eq_of_mem_replicate hc]
    rfl
  have hlong : Numeral.maxDigits < longNumeral.length := by
    rw [longNumeral, List.length_replicate]
    exact Nat.lt_succ_self _
  exact Json.parse_numberFirst hdigits (by decide) hlong rest

/-- What holds of the characters around a number holds of an object that begins with it. -/
theorem all_numberFirst {p : Char → Bool} {rest : List Char} (hstart : "\x7b\"n:9,".toList.all p = true)
    (hrest : rest.all p = true) : ∀ c ∈ Json.numberFirst longNumeral rest, p c = true := by
  rw [List.all_eq_true] at hstart hrest
  intro c hc
  simp only [Json.numberFirst, longNumeral, List.mem_cons, List.mem_append, List.mem_replicate] at hc
  rcases hc with rfl | rfl | rfl | rfl | rfl | ⟨-, rfl⟩ | rfl | hc
  all_goals first | exact hrest _ hc | exact hstart _ (by decide)

/-- The rest of a record that has a request. -/
def recordRest : List Char := "\"data\":\"Audit Request: \x7b\x7d\"\x7d".toList

/-- The record with the number before its request. -/
def longRecord : String := String.ofList (Json.numberFirst longNumeral recordRest)

theorem refuses_longRecord : AuditRequest.Refuses longRecord (.tooLongToRead longNumeral.length) := by
  refine .line ?_ (parse_longNumeral recordRest)
  have hplain : ∀ c ∈ Json.numberFirst longNumeral recordRest, (c != '\n' && c != '\r') = true :=
    all_numberFirst (by decide) (by decide)
  simp only [Bool.and_eq_true, bne_iff_ne] at hplain
  have hlines : ∀ c ∈ Json.numberFirst longNumeral recordRest, c ≠ '\n' := fun c hc => (hplain c hc).1
  have hend : Stops (· == '\r') (Json.numberFirst longNumeral recordRest).reverse := by
    intro c hc
    have hmem := List.mem_reverse.mp (List.mem_of_mem_head? hc)
    exact beq_false_of_ne (hplain c hmem).2
  have hmarker : AuditRequest.marker.toList <:+: Json.numberFirst longNumeral recordRest := by
    have hrest : AuditRequest.marker.toList <:+: recordRest := isInfix_iff.mp (by decide)
    refine hrest.trans ?_
    refine ⟨'{' :: '"' :: 'n' :: '"' :: ':' :: (longNumeral ++ [',']), [], ?_⟩
    simp [Json.numberFirst]
  have hfound := AuditRequest.requestLine?_tail hlines hend hmarker none
  rw [AuditRequest.tailChars, List.append_nil] at hfound
  rw [longRecord, String.toList_ofList]
  exact hfound

/-- The rest of a manifest. -/
def manifestRest : List Char := "\"version\":\"1.0.0\"\x7d".toList

/-- The files of the sample, with the number in the manifest. -/
def longManifest : FileTree :=
  .folder [("w", .folder [("yarn.lock", .file [97] false),
    ("package.json", .file (asciiBytes (Json.numberFirst longNumeral manifestRest)) false)])]

/-- An ASCII manifest is read as it stands. -/
theorem readText_ascii {files : FileTree} {path : Path} {text : List Char}
    (hnull : path.toString.toList.contains '\x00' = false)
    (hfile : files.readFile path = .ok (asciiBytes text)) (hascii : ∀ c ∈ text, c.toNat < 0x80)
    (hreturns : ∀ c ∈ text, c ≠ '\r') : Manifest.readText files path = .ok (String.ofList text) := by
  have hlines : newlines text = text := newlines_of_not_mem fun h => hreturns _ h rfl
  unfold Manifest.readText
  simp only [hnull, hfile, decodeUtf8_ascii hascii, hlines, Bool.false_eq_true, if_false]

theorem refuses_longManifest : Manifest.Refuses longManifest ⟨"/", ["w", "package.json"]⟩ := by
  have hplain : ∀ c ∈ Json.numberFirst longNumeral manifestRest,
      (decide (c.toNat < 0x80) && c != '\r') = true := all_numberFirst (by decide) (by decide)
  simp only [Bool.and_eq_true, decide_eq_true_eq, bne_iff_ne] at hplain
  refine .numeral (readText_ascii (by decide) rfl ?_ ?_) (parse_longNumeral manifestRest)
  · exact fun c hc => (hplain c hc).1
  · exact fun c hc => (hplain c hc).2

theorem exists_of_isOk {ε α : Type} {x : Except ε α} (h : x.isOk = true) : ∃ a, x = .ok a := by
  cases x with
  | ok a => exact ⟨a, rfl⟩
  | error e => cases h

/-- The sample analysis gets to its manifest, and fails unexpectedly if this is refused. -/
theorem failsAt_of_refuses {files : FileTree} (hprocess : shouldProcess files sampleLockfile.path = true)
    (h : Manifest.Refuses files ⟨"/", ["w", "package.json"]⟩) :
    FailsAt .standard (Session.sampleHost []) files .enabled sampleLockfile .manifest .unexpected := by
  have hrequest : ∃ request, (AuditRequest.extract Session.sampleOutput ""
      sampleLockfile.path.toString).result = .ok request := by
    rw [show sampleLockfile.path.toString = "/w/yarn.lock" by decide]
    exact exists_of_isOk (by decide +kernel)
  exact failsAt_manifest_iff.mpr
    ⟨rfl, hprocess, ⟨0, Session.sampleOutput, ""⟩, files, rfl, hrequest, h⟩

/-- A number of one digit too many in an output, or in a manifest, is an unexpected failure. -/
theorem unexpected_of_longNumeral :
    ¬ AuditRequest.Answers (AuditRequest.extract longRecord "" "").result ∧
    ¬ Manifest.Answers (Manifest.read longManifest ⟨"/", ["w", "package.json"]⟩) ∧
    FailsAt .standard ⟨fun files _ => (.ok ⟨0, longRecord, ""⟩, files), fun _ => .response 200 [], fun _ => ""⟩
      sampleFiles .enabled sampleLockfile .extract .unexpected ∧
    FailsAt .standard (Session.sampleHost []) longManifest .enabled sampleLockfile .manifest
      .unexpected := by
  refine ⟨?_, ?_, ?_, ?_⟩
  · exact fun h => AuditRequest.answers_iff.mp h _ refuses_longRecord
  · exact fun h => Manifest.answers_iff.mp h refuses_longManifest
  · have hprocess : shouldProcess sampleFiles sampleLockfile.path = true := by decide +kernel
    exact failsAt_extract_iff.mpr ⟨rfl, hprocess, _, _, rfl, _, refuses_longRecord⟩
  · exact failsAt_of_refuses (by decide +kernel) refuses_longManifest

end Analysis

end LockAudit
