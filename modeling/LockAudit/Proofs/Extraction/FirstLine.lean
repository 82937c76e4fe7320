import LockAudit.Proofs.Extraction
import LockAudit.Proofs.Text.Runs

/-!
# `LockAudit.Proofs.Extraction.FirstLine` — the first line with the marker decides

An extraction looks at the output once, for the first line that has the marker, and then at nothing but
that line. So whatever the line is, well-formed or not, what stands before and behind it makes no
difference, and neither do the ends of lines, the error stream or the source.

Where the lines are is said by induction over them (`lines_induction`), with one law for each of its cases:
`requestLine?_of_not_mem` for the last line and `requestLine?_line` for a line with others behind it.

* `requestLine?_eq_none_iff` — a text without a line that has the marker is a text without the marker.
* `requestLine?_withReturns` — line feeds with carriage returns before them cut the same lines.
* `result_of_requestLine?` — an extraction is a function of the line that was found.
* `isReported_iff` — when the error stream is reported, in terms of the text alone.
* `extract_of_first_line` — all of this about extractions.
-/

namespace LockAudit.AuditRequest

open LockAudit.Text

variable {s r line : List Char}

/-! ## Lines -/

/-- Induction over lines: the last one has no line feed, and before it stand lines with one each. -/
@[elab_as_elim]
theorem lines_induction {motive : List Char → Prop} (last : ∀ line, '\n' ∉ line → motive line)
    (cons : ∀ line r, '\n' ∉ line → motive r → motive (line ++ '\n' :: r)) (s : List Char) : motive s := by
  by_cases h : '\n' ∈ s
  · obtain ⟨line, r, hs, hline⟩ := List.eq_append_cons_of_mem h
    have hshorter : r.length < s.length := by
      rw [hs, List.length_append, List.length_cons]
      omega
    rw [hs]
    exact cons line r hline (lines_induction last cons r)
  · exact last s h
termination_by s.length

theorem beq_lineFeed_of_not_mem (h : '\n' ∉ line) : ∀ c ∈ line, (c == '\n') = false :=
  fun _ hc => beq_false_of_ne fun hlf => h (hlf ▸ hc)

theorem requestLine?_of_not_mem (h : '\n' ∉ line) :
    requestLine? line = if isInfix marker.toList line then some (dropReturns line) else none := by
  rw [requestLine?, split_of_all (beq_lineFeed_of_not_mem h)]
  cases hmarker : isInfix marker.toList line with
  | true => rw [List.find?_cons_of_pos hmarker, Option.map_some, if_pos rfl]
  | false =>
    rw [List.find?_cons_of_neg (Bool.eq_false_iff.mp hmarker), List.find?_nil, Option.map_none,
      if_neg Bool.false_ne_true]

theorem requestLine?_line (h : '\n' ∉ line) (r : List Char) :
    requestLine? (line ++ '\n' :: r) =
      if isInfix marker.toList line then some (dropReturns line) else requestLine? r := by
  cases hmarker : isInfix marker.toList line with
  | true =>
    rw [requestLine?, split_append_cons (beq_lineFeed_of_not_mem h) rfl, List.find?_cons_of_pos hmarker,
      Option.map_some, if_pos rfl]
  | false =>
    rw [if_neg Bool.false_ne_true]
    exact requestLine?_append (fun hin => Bool.eq_false_iff.mp hmarker (isInfix_iff.mpr hin)) r

/-- **A line is found exactly if the marker stands somewhere in the text.** It has no line feed, so it
    stands in one of the lines. -/
theorem requestLine?_eq_none_iff : requestLine? s = none ↔ ¬ marker.toList <:+: s := by
  have hlf : '\n' ∉ marker.toList := by decide
  induction s using lines_induction with
  | last line hline =>
    rw [requestLine?_of_not_mem hline, ← isInfix_iff]
    cases isInfix marker.toList line with
    | true => simp
    | false => simp
  | cons line r hline ih =>
    rw [requestLine?_line hline]
    have hsides : marker.toList <:+: line ++ '\n' :: r ↔
        marker.toList <:+: line ∨ marker.toList <:+: r := by
      refine ⟨infix_of_infix_append_cons hlf, fun h => h.elim (fun h => ?_) fun h => ?_⟩
      · exact h.trans (List.prefix_append _ _).isInfix
      · exact h.trans (List.suffix_append_of_suffix (List.suffix_cons _ _)).isInfix
    rw [hsides, not_or, ← isInfix_iff]
    cases isInfix marker.toList line with
    | true => simp
    | false => simpa using ih

/-! ## Ends of lines -/

/-- The text with a carriage return before every line feed. -/
def withReturns (s : List Char) : List Char := s.flatMap fun c => if c = '\n' then ['\r', '\n'] else [c]

theorem withReturns_of_not_mem (h : '\n' ∉ line) : withReturns line = line := by
  induction line with
  | nil => rfl
  | cons c line ih =>
    obtain ⟨hc, hline⟩ := List.ne_and_not_mem_of_not_mem_cons h
    have ih := ih hline
    rw [withReturns] at ih ⊢
    rw [List.flatMap_cons, if_neg (Ne.symm hc), ih, List.singleton_append]

theorem withReturns_line (h : '\n' ∉ line) (r : List Char) :
    withReturns (line ++ '\n' :: r) = (line ++ ['\r']) ++ '\n' :: withReturns r := by
  have hline := withReturns_of_not_mem h
  rw [withReturns] at hline ⊢
  rw [List.flatMap_append, hline, List.flatMap_cons, if_pos rfl, List.append_assoc]
  rfl

theorem dropReturns_append_return (s : List Char) : dropReturns (s ++ ['\r']) = dropReturns s := by
  simp [dropReturns]

/-- A carriage return at its end is no part of the marker. -/
theorem isInfix_append_return (s : List Char) :
    isInfix marker.toList (s ++ ['\r']) = isInfix marker.toList s := by
  rw [Bool.eq_iff_iff, isInfix_iff, isInfix_iff]
  exact ⟨fun h => infix_of_infix_append_singleton h (by decide),
    fun h => h.trans (List.prefix_append _ _).isInfix⟩

/-- **Both ends of lines cut the same lines.** -/
theorem requestLine?_withReturns (s : List Char) : requestLine? (withReturns s) = requestLine? s := by
  induction s using lines_induction with
  | last line hline => rw [withReturns_of_not_mem hline]
  | cons line r hline ih =>
    have hline' : '\n' ∉ line ++ ['\r'] := by simpa using hline
    rw [withReturns_line hline, requestLine?_line hline', requestLine?_line hline, ih,
      isInfix_append_return, dropReturns_append_return]

/-! ## Results -/

/-- What an extraction comes to with a line that was found. -/
def resultOf (source : String) : Option (List Char) → Except Fault Json
  | none => .error (.notFound source)
  | some line =>
    match readJson .recordMalformed (String.ofList line) with
    | .error f => .error f
    | .ok record =>
      match body? record with
      | none => .error .noData
      | some body => request body

/-- **An extraction is a function of the line that was found.** -/
theorem result_of_requestLine? (stdout stderr source : String) :
    (extract stdout stderr source).result = resultOf source (requestLine? stdout.toList) := by
  unfold extract resultOf
  cases requestLine? stdout.toList with
  | none => rfl
  | some line =>
    dsimp only
    cases readJson .recordMalformed (String.ofList line) with
    | error f => rfl
    | ok record =>
      dsimp only
      cases body? record with
      | none => rfl
      | some body => rfl

/-- The marker is not missed where there is a line. -/
theorem resultOf_some_ne (source source' : String) (line : List Char) :
    resultOf source (some line) ≠ .error (.notFound source') := by
  have hread : ∀ (malformed : String → Fault) (text : String),
      (∀ e, malformed e ≠ .notFound source') →
      readJson malformed text ≠ .error (.notFound source') := by
    intro malformed text hmalformed h
    unfold readJson at h
    split at h
    · cases h
    · cases h
    · exact hmalformed _ (Except.error.inj h)
  intro h
  simp only [resultOf] at h
  split at h
  · next f hf =>
    rw [Except.error.inj h] at hf
    exact hread .recordMalformed _ nofun hf
  · split at h
    · cases h
    · next body _ =>
      unfold request at h
      cases hb : readJson .requestMalformed body with
      | error f =>
        rw [hb] at h
        exact hread .requestMalformed _ nofun (hb.trans h)
      | ok v =>
        rw [hb] at h
        cases v <;> cases h

/-- Which fault says that there is no line. -/
theorem trouble_eq_notFound_iff {f : Fault} :
    f.trouble = .of .auditRequestNotFound f.message ↔ ∃ source, f = .notFound source := by
  constructor
  · intro h
    cases f with
    | notFound source => exact ⟨source, rfl⟩
    | _ => cases h
  · rintro ⟨source, rfl⟩
    rfl

/-! ## The error stream -/

/-- The line that being offline always causes, without its end. -/
def offlineLine : List Char := offlineError.toList.dropLast

/-- The error stream holds something, and something else than that line with blanks around it. -/
def IsReported (stderr : String) : Prop :=
  (∃ c ∈ stderr.toList, isBlank c = false) ∧
    ¬ ∃ before after, (∀ c ∈ before, isBlank c = true) ∧ (∀ c ∈ after, isBlank c = true) ∧
      stderr.toList = before ++ offlineLine ++ after

/-- How a report of the error stream begins. -/
def reportStart : String := "Process Error Out"

/-- The report of an error stream. -/
def report (stderr source : String) : String :=
  reportStart ++ (if source = "" then "" else " (" ++ source ++ ")") ++ ": " ++ stderr

/-- What trimming takes away from the two ends is blank. -/
theorem exists_blanks_trim (s : List Char) :
    ∃ before after, (∀ c ∈ before, isBlank c = true) ∧ (∀ c ∈ after, isBlank c = true) ∧
      s = before ++ trim s ++ after := by
  have hblank : ∀ t : List Char, ∀ c ∈ t.takeWhile isBlank, isBlank c = true := fun t c hc =>
    List.all_eq_true.mp List.all_takeWhile c hc
  refine ⟨s.takeWhile isBlank, ((trimStart s).reverse.takeWhile isBlank).reverse, hblank s, ?_, ?_⟩
  · exact fun c hc => hblank _ c (List.mem_reverse.mp hc)
  · have hend : trimStart s = trim s ++ ((trimStart s).reverse.takeWhile isBlank).reverse := by
      rw [trim, trimEnd, ← List.reverse_append, List.takeWhile_append_dropWhile, List.reverse_reverse]
    rw [List.append_assoc, ← hend, trimStart, List.takeWhile_append_dropWhile]

theorem trim_offlineError : trim offlineError.toList = offlineLine := by decide +kernel

theorem tight_offlineLine : Tight offlineLine := by
  have hfirst : offlineLine.head? = some '{' := by decide +kernel
  have hlast : offlineLine.getLast? = some '}' := by decide +kernel
  refine ⟨fun c hc => ?_, fun c hc => ?_⟩
  · rw [hfirst] at hc
    cases hc
    decide
  · rw [hlast] at hc
    cases hc
    decide

/-- The error stream is benign exactly if it is the one line with blanks around it. -/
theorem isBenign_iff {stderr : String} : isBenign stderr = true ↔
    ∃ before after, (∀ c ∈ before, isBlank c = true) ∧ (∀ c ∈ after, isBlank c = true) ∧
      stderr.toList = before ++ offlineLine ++ after := by
  rw [isBenign, beq_iff_eq, trim_offlineError]
  constructor
  · intro h
    obtain ⟨before, after, hbefore, hafter, hs⟩ := exists_blanks_trim stderr.toList
    exact ⟨before, after, hbefore, hafter, h ▸ hs⟩
  · rintro ⟨before, after, hbefore, hafter, hs⟩
    rw [hs, trim_blanks_append tight_offlineLine hbefore hafter]

/-- **When the error stream is reported**: if it is neither blank nor benign. -/
theorem isReported_iff {stderr : String} :
    IsReported stderr ↔ (allBlank stderr.toList || isBenign stderr) = false := by
  rw [IsReported, ← isBenign_iff, Bool.or_eq_false_iff, Bool.not_eq_true, allBlank]
  simp

/-- The messages about the error stream come first, and what comes behind them is the body. -/
theorem messages_eq (stdout stderr source : String) :
    ∃ bodies : List String, (extract stdout stderr source).messages =
      stderrMessages stdout stderr source ++ bodies.map (dataStart ++ ·) := by
  unfold extract
  cases requestLine? stdout.toList with
  | none => exact ⟨[], (List.append_nil _).symm⟩
  | some line =>
    dsimp only
    cases readJson .recordMalformed (String.ofList line) with
    | error f => exact ⟨[], (List.append_nil _).symm⟩
    | ok record =>
      dsimp only
      cases body? record with
      | none => exact ⟨[], (List.append_nil _).symm⟩
      | some body => exact ⟨[body], rfl⟩

/-- No body is taken for a report. -/
theorem not_reportStart_body (body : String) : ¬ reportStart.toList <+: (dataStart ++ body).toList := by
  intro h
  rw [String.toList_append] at h
  exact absurd (List.cons_prefix_cons.mp h).1 (by decide)

/-! ## Extractions -/

/-- An extraction finds nothing exactly if the marker does not stand in the output. -/
theorem result_notFound_iff (stdout stderr source : String) :
    (∃ f, (extract stdout stderr source).result = .error f ∧
      f.trouble = .of .auditRequestNotFound f.message) ↔ ¬ marker.toList <:+: stdout.toList := by
  rw [result_of_requestLine?, ← requestLine?_eq_none_iff]
  simp only [trouble_eq_notFound_iff]
  constructor
  · rintro ⟨f, hf, source', rfl⟩
    cases hline : requestLine? stdout.toList with
    | none => rfl
    | some line =>
      rw [hline] at hf
      exact absurd hf (resultOf_some_ne _ _ _)
  · intro h
    rw [h]
    exact ⟨.notFound source, rfl, source, rfl⟩

/-- A line with the marker is found behind lines without it, before whatever text. -/
theorem requestLine?_between {before line : String} (hbefore : ¬ marker.toList <:+: before.toList)
    (hends : before = "" ∨ ∃ lines, before = lines ++ "\n") (hlf : '\n' ∉ line.toList)
    (hmarker : marker.toList <:+: line.toList) (after : String) :
    requestLine? (before ++ line ++ "\n" ++ after).toList = some (dropReturns line.toList) := by
  have hrest : requestLine? (line.toList ++ '\n' :: after.toList) = some (dropReturns line.toList) := by
    rw [requestLine?_line hlf, if_pos (isInfix_iff.mpr hmarker)]
  rcases hends with rfl | ⟨lines, rfl⟩
  · simpa using hrest
  · have hlines : ¬ marker.toList <:+: lines.toList := by
      intro hin
      rw [String.toList_append] at hbefore
      exact hbefore (hin.trans (List.prefix_append _ _).isInfix)
    simpa using (requestLine?_append hlines _).trans hrest

/-- A report comes first of all messages. -/
theorem head?_messages {stderr : String} (h : IsReported stderr) (stdout source : String) :
    (extract stdout stderr source).messages.head? = some (report stderr source) := by
  obtain ⟨bodies, hmessages⟩ := messages_eq stdout stderr source
  rw [hmessages, stderrMessages, isReported_iff.mp h]
  rfl

/-- What is not reported leaves no message that could be taken for a report. -/
theorem not_reportStart_messages {stderr : String} (h : ¬ IsReported stderr) {stdout source m : String}
    (hm : m ∈ (extract stdout stderr source).messages) : ¬ reportStart.toList <+: m.toList := by
  obtain ⟨bodies, hmessages⟩ := messages_eq stdout stderr source
  rw [isReported_iff, Bool.not_eq_false] at h
  rw [hmessages, stderrMessages, h, if_pos rfl, List.nil_append] at hm
  obtain ⟨body, -, rfl⟩ := List.mem_map.mp hm
  exact not_reportStart_body body

/-- **The first line with the marker decides.** An extraction finds nothing exactly if the marker does not
    stand in the output. Behind any lines without the marker and before any text, a line that has it comes
    to what it comes to alone, in value and in fault, and whatever the ends of lines are. The error stream
    and the source change at most the source that the fault of finding nothing names. And the error stream
    is reported exactly if it is neither blank nor the line that being offline always causes, with blanks
    around it. -/
theorem extract_of_first_line (stdout stderr source : String) :
    ((∃ f, (extract stdout stderr source).result = .error f ∧
        f.trouble = .of .auditRequestNotFound f.message) ↔ ¬ marker.toList <:+: stdout.toList) ∧
    (∀ before line after stderr' source' : String, ¬ marker.toList <:+: before.toList →
      (before = "" ∨ ∃ lines, before = lines ++ "\n") → '\n' ∉ line.toList →
      marker.toList <:+: line.toList →
      (extract (before ++ line ++ "\n" ++ after) stderr source).result =
        (extract line stderr' source').result) ∧
    (extract (String.ofList (withReturns stdout.toList)) stderr source).result =
      (extract stdout stderr source).result ∧
    (∀ stderr' source', (extract stdout stderr' source').result = (extract stdout stderr source).result ∨
      (extract stdout stderr source).result = .error (.notFound source) ∧
        (extract stdout stderr' source').result = .error (.notFound source')) ∧
    (IsReported stderr → (extract stdout stderr source).messages.head? = some (report stderr source)) ∧
    (¬ IsReported stderr →
      ∀ m ∈ (extract stdout stderr source).messages, ¬ reportStart.toList <+: m.toList) := by
  refine ⟨result_notFound_iff stdout stderr source, ?_, ?_, ?_, fun h => head?_messages h stdout source,
    fun h _ => not_reportStart_messages h⟩
  · intro before line after stderr' source' hbefore hends hlf hmarker
    have hline : requestLine? line.toList = some (dropReturns line.toList) := by
      rw [requestLine?_of_not_mem hlf, if_pos (isInfix_iff.mpr hmarker)]
    rw [result_of_requestLine?, result_of_requestLine?, hline,
      requestLine?_between hbefore hends hlf hmarker]
    rfl
  · rw [result_of_requestLine?, result_of_requestLine?, String.toList_ofList, requestLine?_withReturns]
  · intro stderr' source'
    simp only [result_of_requestLine?]
    cases requestLine? stdout.toList with
    | none => exact .inr ⟨rfl, rfl⟩
    | some line => exact .inl rfl

/-- A record that is no JSON, behind a line that ends in another way and before a second line with the
    marker. -/
theorem extract_of_first_line_sample :
    (extract ("start\r\n" ++ "Audit Request: [" ++ "\n" ++ "Audit Request") "warning" "yarn.lock").result =
      (extract "Audit Request: [" "" "").result ∧
    (extract "Audit Request: [" "warning" "yarn.lock").messages.head? =
      some (report "warning" "yarn.lock") := by
  have hreported : IsReported "warning" := isReported_iff.mpr (by decide +kernel)
  have hends : "start\r\n" = "start\r" ++ "\n" := by decide +kernel
  have hbefore : ¬ marker.toList <:+: "start\r\n".toList := mt isInfix_iff.mpr (by decide +kernel)
  have hlf : '\n' ∉ "Audit Request: [".toList := by decide +kernel
  have hmarker : marker.toList <:+: "Audit Request: [".toList := isInfix_iff.mp (by decide +kernel)
  obtain ⟨-, hsame, -, -, hlogged, -⟩ := extract_of_first_line "Audit Request: [" "warning" "yarn.lock"
  exact ⟨hsame _ _ _ "" "" hbefore (.inr ⟨_, hends⟩) hlf hmarker, hlogged hreported⟩

end LockAudit.AuditRequest
