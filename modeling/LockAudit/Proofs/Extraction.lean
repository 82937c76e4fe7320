import LockAudit.AuditRequest
import LockAudit.Proofs.Json.RoundTrip
import LockAudit.Proofs.Payload.Nodes

/-!
# `LockAudit.Proofs.Extraction` — the request comes out as it went in

The package manager writes its request as JSON, puts that into the text of a log record, and writes the
record as JSON on a line among others. This module shows that extraction undoes all three.

* `requestLine?_output` — the record's line is found whole: a written record has no line end in it, and
  no line before it has the marker.
* `body?_sorted` — in the record as it is read, the body is that of the record as it was written.
* `result_output` — so the request is found, with its members in order.
* `extract_output` — it is equal to the one that was written.
-/

namespace LockAudit.AuditRequest

open LockAudit.Text

/-! ## Output -/

/-- How a line may end. -/
inductive LineEnd
  | lf
  | crlf

def LineEnd.chars : LineEnd → List Char
  | .lf => ['\n']
  | .crlf => ['\r', '\n']

/-- A line with its end. -/
def lineChars (l : String × LineEnd) : List Char := l.1.toList ++ l.2.chars

/-- What stands behind the record: nothing, or the end of its line and any text, of any lines. -/
def tailChars : Option (LineEnd × String) → List Char
  | none => []
  | some (e, text) => e.chars ++ text.toList

/-- An output with a record between other lines. -/
def output (before : List (String × LineEnd)) (record : Json) (after : Option (LineEnd × String)) :
    String :=
  String.ofList (before.flatMap lineChars ++ (record.compactChars ++ tailChars after))

/-! ## Lines -/

variable {s r : List Char}

/-- Lines without the marker are passed over. -/
theorem requestLine?_append (h : ¬ marker.toList <:+: s) (r : List Char) :
    requestLine? (s ++ '\n' :: r) = requestLine? r := by
  have hnone : (split (· == '\n') s).find? (isInfix marker.toList) = none := by
    rw [List.find?_eq_none]
    intro w hw hmarker
    exact h ((isInfix_iff.mp hmarker).trans (infix_of_mem_split hw))
  rw [requestLine?, split_append_separator rfl, List.find?_append, hnone, Option.none_or, requestLine?]

theorem requestLine?_lines {before : List (String × LineEnd)}
    (h : ∀ l ∈ before, ¬ marker.toList <:+: l.1.toList) (r : List Char) :
    requestLine? (before.flatMap lineChars ++ r) = requestLine? r := by
  induction before with
  | nil => rfl
  | cons l before ih =>
    obtain ⟨line, e⟩ := l
    have hline := h (line, e) List.mem_cons_self
    have hrest := ih fun l hl => h l (List.mem_cons_of_mem _ hl)
    rw [List.flatMap_cons, List.append_assoc, ← hrest]
    -- A carriage return before the line feed is a part of the piece, but not of the marker.
    cases e with
    | lf =>
      rw [lineChars, LineEnd.chars, List.append_assoc, List.singleton_append]
      exact requestLine?_append hline _
    | crlf =>
      have hmarker : ¬ marker.toList <:+: line.toList ++ ['\r'] := fun hin =>
        hline (infix_of_infix_append_singleton hin (by decide))
      have hends : lineChars (line, .crlf) = line.toList ++ ['\r'] ++ ['\n'] := by
        simp [lineChars, LineEnd.chars]
      rw [hends, List.append_assoc, List.singleton_append]
      exact requestLine?_append hmarker _

theorem dropReturns_append (hs : Stops (· == '\r') s.reverse) (hr : ∀ c ∈ r, c = '\r') :
    dropReturns (s ++ r) = s := by
  have hall : ∀ c ∈ r.reverse, (c == '\r') = true := fun c hc => by
    simpa using hr c (List.mem_reverse.mp hc)
  rw [dropReturns, List.reverse_append, dropWhile_append_stop hall hs, List.reverse_reverse]

/-- A line with the marker is found, up to its end. -/
theorem requestLine?_tail (hlf : ∀ c ∈ s, c ≠ '\n') (hcr : Stops (· == '\r') s.reverse)
    (hmarker : marker.toList <:+: s) (after : Option (LineEnd × String)) :
    requestLine? (s ++ tailChars after) = some s := by
  -- What is cut off at the line feed is the line and perhaps a carriage return.
  have key : ∀ b us, (∀ c ∈ b, c = '\r') →
      split (· == '\n') (s ++ tailChars after) = (s ++ b) :: us →
      requestLine? (s ++ tailChars after) = some s := by
    intro b us hb hsplit
    have hfound : isInfix marker.toList (s ++ b) = true :=
      isInfix_iff.mpr (hmarker.trans (List.prefix_append s b).isInfix)
    rw [requestLine?, hsplit, List.find?_cons_of_pos hfound, Option.map_some, dropReturns_append hcr hb]
  have hs : ∀ c ∈ s, (c == '\n') = false := fun c hc => beq_false_of_ne (hlf c hc)
  match after with
  | none => exact key [] [] (by simp) (by simpa [tailChars] using split_of_all hs)
  | some (.lf, text) =>
    refine key [] (split (· == '\n') text.toList) (by simp) ?_
    rw [List.append_nil]
    exact split_append_cons hs rfl _
  | some (.crlf, text) =>
    have hs' : ∀ c ∈ s ++ ['\r'], (c == '\n') = false := fun c hc =>
      (List.mem_append.mp hc).elim (hs c) fun hc => by rw [List.mem_singleton.mp hc]; rfl
    have htail : s ++ tailChars (some (.crlf, text)) = (s ++ ['\r']) ++ '\n' :: text.toList := by
      simp [tailChars, LineEnd.chars]
    refine key ['\r'] (split (· == '\n') text.toList) (by simp) ?_
    rw [htail]
    exact split_append_cons hs' rfl _

/-! ## The record -/

/-- A text that begins a string is found in the written string, if it has nothing to escape. -/
theorem infix_quoted {start rest : String} (h : start.toList.flatMap Json.escape = start.toList) :
    start.toList <:+: Json.quoted (start ++ rest) := by
  refine ⟨['"'], rest.toList.flatMap Json.escape ++ ['"'], ?_⟩
  simp [Json.quoted, h]

/-- A written member stands in its written object. -/
theorem infix_compact_obj {fields : List (String × Json)} {name : String} {v : Json}
    (h : (name, v) ∈ fields) : v.compactChars <:+: (Json.obj fields).compactChars := by
  have hmember : v.compactChars <:+: Json.memberText (name, v) :=
    (List.suffix_append_of_suffix (List.suffix_cons _ _)).isInfix
  have hcommas : Json.memberText (name, v) <:+: Json.commas ((Pairs.sort fields).map Json.memberText) :=
    Json.infix_commas (List.mem_map_of_mem (Pairs.mem_sort.mpr h))
  rw [Json.compactChars_obj]
  exact (hmember.trans hcommas).trans ⟨['{'], ['}'], rfl⟩

variable {members fields : List (String × Json)}

/-- In the record as it is read, the body is that of the record as it was written. -/
theorem body?_sorted {body : String}
    (hdata : Pairs.get? "data" fields = some (.str (dataStart ++ body))) :
    body? (Json.obj fields).sorted = some body := by
  have hmember : (Json.obj fields).sorted.member? "data" = some (.str (dataStart ++ body)) := by
    rw [Json.member?_sorted, Json.member?, hdata]
    rfl
  have hprefix : dataStart.toList.isPrefixOf (dataStart ++ body).toList = true := by
    rw [List.isPrefixOf_iff_prefix, String.toList_append]
    exact List.prefix_append _ _
  have hdrop : (dataStart ++ body).toList.drop dataStart.length = body.toList := by
    rw [String.toList_append, ← String.length_toList, List.drop_left]
  rw [body?, hmember]
  simp only [Option.bind_some, Json.str?, hprefix, if_true, hdrop, String.ofList_toList]

theorem request_compact (h : Json.Exact (.obj members)) :
    request (Json.obj members).compact = .ok (Json.obj members).sorted := by
  rw [request, readJson, Json.parse_compact h, Json.sorted]
  rfl

/-- **The record's line is found whole**, in whatever output it stands. -/
theorem requestLine?_output (hrecord : Json.Exact (.obj fields)) {body : String}
    (hdata : Pairs.get? "data" fields = some (.str (dataStart ++ body)))
    {before : List (String × LineEnd)} (hbefore : ∀ l ∈ before, ¬ marker.toList <:+: l.1.toList)
    (after : Option (LineEnd × String)) :
    requestLine? (output before (.obj fields) after).toList = some (Json.obj fields).compactChars := by
  rw [output, String.toList_ofList, requestLine?_lines hbefore]
  refine requestLine?_tail ?_ ?_ ?_ after
  · intro c hc hlf
    have hplain := Json.plain_compact hrecord c hc
    rw [hlf] at hplain
    exact absurd hplain (by decide)
  · rw [Json.compactChars_obj, List.reverse_append]
    exact stops_cons rfl _
  · have hmarker : marker.toList <:+: dataStart.toList := ⟨[], [':', ' '], by decide⟩
    have hstart : dataStart.toList <:+: (Json.str (dataStart ++ body)).compactChars :=
      infix_quoted (by decide)
    exact (hmarker.trans hstart).trans (infix_compact_obj (Pairs.mem_of_get? hdata))

/-- **Both encodings are undone**: what is extracted is the request with its members in order. -/
theorem result_output (hrequest : Json.Exact (.obj members)) (hrecord : Json.Exact (.obj fields))
    (hdata : Pairs.get? "data" fields = some (.str (dataStart ++ (Json.obj members).compact)))
    {before : List (String × LineEnd)} (hbefore : ∀ l ∈ before, ¬ marker.toList <:+: l.1.toList)
    (after : Option (LineEnd × String)) (stderr source : String) :
    (extract (output before (.obj fields) after) stderr source).result =
      .ok (Json.obj members).sorted := by
  have hread : readJson .recordMalformed (Json.obj fields).compact = .ok (Json.obj fields).sorted := by
    rw [readJson, Json.parse_compact hrecord]
  rw [extract, requestLine?_output hrecord hdata hbefore after]
  dsimp only
  rw [show String.ofList (Json.obj fields).compactChars = (Json.obj fields).compact from rfl, hread]
  dsimp only
  rw [body?_sorted hdata]
  exact request_compact hrequest

/-- **The request comes out as it went in.** Take any object as the request and any object as the log
    record whose `data` is the marker and the written request; numbers are integers that can be written.
    Among any lines of which those before the record do not have the marker, whatever their ends, and
    whatever the error stream and the source are, extraction gives a value equal to the request. -/
theorem extract_output (hrequest : Json.Exact (.obj members)) (hrecord : Json.Exact (.obj fields))
    (hdata : Pairs.get? "data" fields = some (.str (dataStart ++ (Json.obj members).compact)))
    {before : List (String × LineEnd)} (hbefore : ∀ l ∈ before, ¬ marker.toList <:+: l.1.toList)
    (after : Option (LineEnd × String)) (stderr source : String) :
    ∃ v, (extract (output before (.obj fields) after) stderr source).result = .ok v ∧
      v.equal (.obj members) = true :=
  ⟨(Json.obj members).sorted, result_output hrequest hrecord hdata hbefore after stderr source,
    Json.equal_sorted hrequest⟩

/-! ## A record among other lines -/

/-- A request with characters to escape, one of them beyond sixteen bits, and members out of order. -/
def sampleMembers : List (String × Json) :=
  [("name", .str "dé\"mo\\ \n😀"), ("dev", .arr [.bool true, .null, .num (.int (-12))]),
    ("dependencies", .obj [("b", .obj []), ("a", .str "")])]

/-- Its log record. -/
def sampleFields : List (String × Json) :=
  [("type", .str "verbose"), ("data", .str (dataStart ++ (Json.obj sampleMembers).compact))]

theorem exact_sampleMembers : Json.Exact (.obj sampleMembers) := by
  have hdev : Json.Exact (.arr [.bool true, .null, .num (.int (-12))]) := by
    refine .arr fun v hv => ?_
    simp only [List.mem_cons, List.not_mem_nil, or_false] at hv
    rcases hv with rfl | rfl | rfl
    · exact .bool true
    · exact .null
    · exact .int (by decide)
  have hdependencies : Json.Exact (.obj [("b", .obj []), ("a", .str "")]) := by
    refine .obj (by decide) fun p hp => ?_
    simp only [List.mem_cons, List.not_mem_nil, or_false] at hp
    rcases hp with rfl | rfl
    · exact .obj (by decide) (by simp)
    · exact .str ""
  refine .obj (by decide) fun p hp => ?_
  simp only [sampleMembers, List.mem_cons, List.not_mem_nil, or_false] at hp
  rcases hp with rfl | rfl | rfl
  · exact .str _
  · exact hdev
  · exact hdependencies

theorem exact_sampleFields : Json.Exact (.obj sampleFields) := by
  refine .obj (by decide) fun p hp => ?_
  simp only [sampleFields, List.mem_cons, List.not_mem_nil, or_false] at hp
  rcases hp with rfl | rfl
  · exact .str _
  · exact .str _

/-- The first line ends as on one system, the record's as on the other, and a later line has the marker
    too. -/
theorem extract_output_sample :
    ∃ v, (extract (output [("start", .lf)] (.obj sampleFields)
        (some (.crlf, "Audit Request: none\nend"))) "warning" "yarn.lock").result = .ok v ∧
      v.equal (.obj sampleMembers) = true :=
  extract_output exact_sampleMembers exact_sampleFields rfl (by decide) _ _ _

end LockAudit.AuditRequest
