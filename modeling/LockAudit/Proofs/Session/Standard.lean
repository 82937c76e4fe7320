import LockAudit.Batch
import LockAudit.Proofs.Advisory
import LockAudit.Proofs.Json.Words
import LockAudit.Proofs.Payload.Body
import LockAudit.Proofs.Session.Stages
import LockAudit.Proofs.Text.Decoding

/-!
# `LockAudit.Proofs.Session.Standard` — whether what is written is standard

An analysis reads texts of the JSON standard and writes two: the text that it posts, and the report. Both
take values from what was read as they are: a payload copies the ranges that entries require, whatever
they are, and a piece of evidence has the advisory's score. A number of a standard text may be beyond all
binary64 values. It is read as an infinity then, and an infinity is written as a word.

* `Report.standard_text_iff` — a report is standard if the numbers that it takes from results are finite.
* `Submission.IsStandard` — the audit request and the response are standard texts.
* `written_standard_iff` — then both texts that are written are standard exactly if no infinity stands in
  the payload or is a score; and none does unless a number of what was read is beyond all values.
* `overflow_is_written` — one that is beyond them does come through, in both texts.
-/

namespace LockAudit

/-! ## Reports -/

namespace Report

open LockAudit.Analysis

variable {rs : List Result} {r : Result} {e : Evidence}

theorem allFinite_orNull (s : Option String) : (orNull s).AllFinite := by
  cases s <;> simp [orNull]

theorem allFinite_evidenceJson_iff :
    (evidenceJson e).AllFinite ↔ (Json.obj e.metadata).AllFinite := by
  simp [evidenceJson, allFinite_orNull]

theorem allFinite_resultJson_iff : (resultJson r).AllFinite ↔
    (r.seconds.roundTo 3).IsFinite ∧ ∀ e ∈ r.evidence, (Json.obj e.metadata).AllFinite := by
  have hfailure : ((r.failure.map failureJson).getD .null).AllFinite := by
    cases r.failure <;> simp [failureJson]
  simp [resultJson, hfailure, allFinite_evidenceJson_iff]

/-- **When a report is standard.** Apart from counts, its numbers are seconds and what stands in the
    metadata of evidence. -/
theorem standard_text_iff : Json.Standard (text rs).toList ↔
    ∀ r ∈ rs, (r.seconds.roundTo 3).IsFinite ∧ ∀ e ∈ r.evidence, (Json.obj e.metadata).AllFinite := by
  have hcount : ∀ n, (count n).AllFinite := fun n => Json.allFinite_num_iff.mpr trivial
  rw [text, Json.standard_indented_iff]
  simp [toJson, hcount, allFinite_resultJson_iff]

end Report

/-! ## Requests -/

namespace AuditRequest

/-- The text of the audit request that stands in an output. -/
def embedded? (stdout : String) : Option String :=
  (requestLine? stdout.toList).bind fun line =>
    (Json.parse (String.ofList line)).toOption.bind body?

theorem parse_of_readJson {malformed : String → Fault} {text : String} {v : Json}
    (h : readJson malformed text = .ok v) : Json.parse text = .ok v := by
  unfold readJson at h
  split at h
  · next hp => rw [hp, Except.ok.inj h]
  · cases h
  · cases h

/-- The request that is extracted is read from that text. -/
theorem parse_embedded {stdout stderr source : String} {v : Json}
    (h : (extract stdout stderr source).result = .ok v) :
    ∃ body, embedded? stdout = some body ∧ Json.parse body = .ok v := by
  unfold extract at h
  dsimp only at h
  split at h
  · cases h
  · next line hline =>
    split at h
    · cases h
    · next record hrecord =>
      split at h
      · cases h
      · next body hbody =>
        refine ⟨body, ?_, ?_⟩
        · rw [embedded?, hline, Option.bind_some, parse_of_readJson hrecord]
          exact hbody
        · unfold request at h
          obtain ⟨w, hw, h⟩ := exists_of_bind_ok h
          cases w with
          | obj members =>
            cases h
            exact parse_of_readJson hw
          | _ => cases h

end AuditRequest

namespace Analysis

variable {s : Settings} {host : Host} {files : FileTree} {state : Lifecycle.State} {l : Lockfile}

/-! ## Submissions -/

/-- What a submission has read, its audit request and the response, are standard texts. (Of a manifest
    nothing but texts is used, whatever else it has.) -/
structure Submission.IsStandard (sub : Submission s host files l) : Prop where
  request : ∀ body, AuditRequest.embedded? sub.exit.stdout = some body → Json.Standard body.toList
  response : ∀ status bytes text,
    host.exchange (s.client.post sub.payload.text) = .response status bytes →
      Text.decode bytes = .ok text → Json.Standard text

variable {sub : Submission s host files l}

/-- A number of a value that is read from a standard text is finite or an infinity. -/
theorem finite_or_infinity {text : List Char} {v : Json} (hs : Json.Standard text)
    (h : Json.parseChars text = .ok v) {n : Number} (hn : v.HasNumber n) :
    n.IsFinite ∨ ∃ negative, n = .float (.infinity negative) := by
  cases n with
  | int k => exact .inl trivial
  | float x =>
    cases hspecial : x.isSpecial with
    | false => exact .inl hspecial
    | true =>
      have hnan : x.isNaN = false :=
        Bool.eq_false_iff.mpr fun hnan => Json.not_hasNaN_of_standard hs h ⟨x, hn, hnan⟩
      obtain ⟨negative, rfl⟩ := Binary64.eq_infinity_of_isSpecial hspecial hnan
      exact .inr ⟨negative, rfl⟩

theorem not_isFinite_infinity (negative : Bool) : ¬ (Number.float (.infinity negative)).IsFinite := by
  cases negative <;> exact Bool.false_ne_true ∘ Eq.symm

/-- A standard request has no numbers that are not finite but infinities. -/
theorem Submission.IsStandard.number_of_request (h : sub.IsStandard) {n : Number}
    (hn : sub.request.HasNumber n) : n.IsFinite ∨ ∃ negative, n = .float (.infinity negative) := by
  obtain ⟨body, hbody, hparse⟩ := AuditRequest.parse_embedded sub.requested
  exact finite_or_infinity (h.request body hbody) (Json.parse_ok hparse) hn

/-- The text that is posted is standard unless an infinity stands in the payload. -/
theorem Submission.IsStandard.standard_post_iff (h : sub.IsStandard) :
    Json.Standard (s.client.post sub.payload.text).content.toList ↔
      ∀ negative, ¬ sub.payload.toJson.HasNumber (.float (.infinity negative)) := by
  show Json.Standard sub.payload.toJson.compact.toList ↔ _
  rw [Json.standard_compact_iff]
  constructor
  · exact fun hfinite negative hn => not_isFinite_infinity negative (hfinite _ hn)
  · intro hnone n hn
    rcases h.number_of_request (Payload.hasNumber_of_toJson sub.built hn) with hfinite | ⟨negative, rfl⟩
    · exact hfinite
    · exact absurd hn (hnone negative)

/-- The response from which the advisories of a submission were read. -/
theorem Submission.response (sub : Submission s host files l) :
    ∃ status bytes text v, host.exchange (s.client.post sub.payload.text) = .response status bytes ∧
      Text.decode bytes = .ok text ∧ Json.parseChars text = .ok v ∧
      Advisory.listOfJson v = .ok sub.advisories := by
  have h := sub.answered
  unfold AdvisoryService.advisories at h
  split at h
  · cases h
  · cases h
  · next status bytes hreply =>
    split at h
    · cases h
    split at h
    · cases h
    split at h
    · cases h
    next v hv =>
    unfold AdvisoryService.readBody at hv
    split at hv
    · cases hv
    next text htext =>
    split at hv
    · cases hv
    next w hw =>
    cases hv
    split at h
    · cases h
    next as has =>
    cases h
    exact ⟨status, bytes, text, v, hreply, htext, hw, has⟩

/-- The score that a piece of evidence has. -/
def scoreOf (e : Evidence) : Option Json := Pairs.get? "cvss_score" e.metadata

/-- The metadata of evidence from a standard response is finite unless the score is an infinity. -/
theorem Submission.IsStandard.allFinite_metadata_iff (h : sub.IsStandard) (hended : sub.mapped.ended = none)
    {e : Evidence} (he : e ∈ sub.mapped.attached) :
    (Json.obj e.metadata).AllFinite ↔ ∀ negative, scoreOf e ≠ some (.num (.float (.infinity negative))) := by
  obtain ⟨a, ha, version, -, -, hevidence⟩ := Mapping.mem_attached hended he
  obtain ⟨status, bytes, text, v, hreply, htext, hparse, hread⟩ := sub.response
  have horNull : ∀ s, (Mapping.orNull s).AllFinite := fun s => by cases s <;> simp [Mapping.orNull]
  unfold Mapping.evidence at hevidence
  split at hevidence
  · cases hevidence
  next score hscore =>
  cases hevidence
  cases score with
  | none => simp [scoreOf, Pairs.get?, horNull]
  | some x =>
    have hx : x.isSpecial = false ∨ ∃ negative, x = .infinity negative := by
      rcases Advisory.score_cases hread ha hscore with hn | hfinite
      · rcases finite_or_infinity (h.response _ _ _ hreply htext) hparse hn with hfinite | ⟨b, hb⟩
        · exact .inl hfinite
        · cases hb
          exact .inr ⟨b, rfl⟩
      · exact .inl hfinite
    have hiff : (Number.float x).IsFinite ↔ ∀ negative, x ≠ .infinity negative := by
      constructor
      · rintro hfinite negative rfl
        exact not_isFinite_infinity negative hfinite
      · intro hnone
        rcases hx with hfinite | ⟨b, rfl⟩
        · exact hfinite
        · exact absurd rfl (hnone b)
    simp [scoreOf, Pairs.get?, horNull, hiff]

/-! ## Results -/

/-- A broken analysis settles to a result without evidence. -/
theorem evidence_of_settle {t : Trouble} {r : Result} (h : Batch.settle l (.error t) = .ok r) :
    r.evidence = [] := by
  unfold Batch.settle at h
  split at h
  · next hok => cases hok
  · cases h
  · cases h
  · split at h
    · cases h
    · cases h
      rfl

/-- A result has no evidence, or it is what a mapping attached that nothing ended. -/
theorem evidence_cases {r : Result} (h : Batch.settle l (analyze s host files state l).result = .ok r) :
    r.evidence = [] ∨ ∃ sub : Submission s host files l, sub.mapped.ended = none ∧
      r.evidence = sub.mapped.attached := by
  cases hr : (analyze s host files state l).result with
  | error t =>
    rw [hr] at h
    exact .inl (evidence_of_settle h)
  | ok r' =>
    rw [hr] at h
    cases h
    by_cases hanalyzed : r.status = .analyzed
    · obtain ⟨-, sub, hended, hevidence, -, -⟩ := analyze_of_analyzed hr hanalyzed
      exact .inr ⟨sub, hended, hevidence⟩
    · left
      unfold analyze at hr
      split at hr
      · cases hr
        rfl
      split at hr
      · cases hr
        rfl
      dsimp only at hr
      split at hr
      · cases hr
        exact absurd rfl hanalyzed
      · exact (judge_status hr).2

/-- A result as a report lists it: what the analysis of a lockfile settled to, all submissions of which
    have read standard texts, and the seconds that it took, which no text says. -/
inductive Listed : Result → Prop
  | intro {s : Settings} {host : Host} {files : FileTree} {state : Lifecycle.State} {l : Lockfile}
      {r : Result} (h : Batch.settle l (analyze s host files state l).result = .ok r)
      (hstandard : ∀ sub : Submission s host files l, sub.IsStandard) {seconds : Number}
      (hseconds : (seconds.roundTo 3).IsFinite) : Listed { r with seconds := seconds }

/-- **When what is written is standard.** Let the audit request and the response be standard texts. Then
    the text that is posted is standard exactly if no infinity stands in the payload, in particular if none
    stands in the request; and a report is standard exactly if no infinity is a score. -/
theorem written_standard_iff {rs : List Result} (hrs : ∀ r ∈ rs, Listed r) :
    (∀ {s : Settings} {host : Host} {files : FileTree} {l : Lockfile} (sub : Submission s host files l),
      sub.IsStandard →
        (Json.Standard (s.client.post sub.payload.text).content.toList ↔
          ∀ negative, ¬ sub.payload.toJson.HasNumber (.float (.infinity negative))) ∧
        ((∀ negative, ¬ sub.request.HasNumber (.float (.infinity negative))) →
          Json.Standard (s.client.post sub.payload.text).content.toList)) ∧
    (Json.Standard (Report.text rs).toList ↔ ∀ r ∈ rs, ∀ e ∈ r.evidence, ∀ negative,
      scoreOf e ≠ some (.num (.float (.infinity negative)))) := by
  refine ⟨fun sub h => ⟨h.standard_post_iff, fun hnone => ?_⟩, ?_⟩
  · refine h.standard_post_iff.mpr fun negative hn => ?_
    exact hnone negative (Payload.hasNumber_of_toJson sub.built hn)
  · rw [Report.standard_text_iff]
    refine forall₂_congr fun r hr => ?_
    obtain ⟨h, hstandard, hseconds⟩ := hrs r hr
    rw [and_iff_right hseconds]
    rcases evidence_cases h with hnil | ⟨sub, hended, hevidence⟩
    · simp [hnil]
    · refine forall₂_congr fun e he => ?_
      exact (hstandard sub).allFinite_metadata_iff hended (hevidence ▸ he)

/-! ## Sample texts -/

open Session (sampleLockfile sampleFiles sampleOutput sampleAdvisory sampleReply sampleHost isSampleRequest)

/-- The text of an object whose members have these texts. -/
def objectText (ms : List (String × List Char)) : List Char :=
  '\x7b' :: Json.commas (ms.map fun p => Json.quoted p.1 ++ ':' :: p.2) ++ ['\x7d']

theorem standard_quoted (s : String) : Json.Standard (Json.quoted s) := .string (Json.isString_quoted s)

theorem standard_objectText {ms : List (String × List Char)} (h : ∀ p ∈ ms, Json.Standard p.2) :
    Json.Standard (objectText ms) := by
  have hobject := Json.standard_members ms (fun p => Json.quoted p.1) (fun p => p.2)
    (fun p _ => Json.isName_of_isString (Json.isString_quoted p.1)) h Json.isBlank_nil
  rwa [List.append_nil] at hobject

theorem standard_objectText_singleton {name : String} {t : List Char} (h : Json.Standard t) :
    Json.Standard (objectText [(name, t)]) :=
  standard_objectText (List.forall_mem_singleton.mpr h)

/-- A number beyond all binary64 values. -/
def hugeNumeral : List Char := "1e999".toList

theorem standard_hugeNumeral : Json.Standard hugeNumeral := by
  refine .number ⟨[], ['1'], [], "e999".toList, .inl rfl, Json.isWhole_digits 1, .inl rfl, ?_, rfl⟩
  exact .inr ⟨'e', [], "999".toList, .inl rfl, .inl rfl, Json.isDigits_digits 999, rfl⟩

/-- An advisory with this score. -/
def overflowScore : List Char := ",\"cvss\":".toList ++ objectText [("score", hugeNumeral)]

/-- The members of an advisory, which may have more. -/
theorem standard_reply (more : List (String × List Char)) (h : ∀ p ∈ more, Json.Standard p.2)
    {reply : List Char} (hreply : reply = '[' :: objectText (("id", Json.quoted "1") ::
      ("module_name", Json.quoted "a") :: ("vulnerable_versions", Json.quoted "*") ::
      ("severity", Json.quoted "low") :: more) ++ [']']) : Json.Standard reply := by
  have hentry : Json.Standard (objectText (("id", Json.quoted "1") :: ("module_name", Json.quoted "a") ::
      ("vulnerable_versions", Json.quoted "*") :: ("severity", Json.quoted "low") :: more)) :=
    standard_objectText (by simpa [standard_quoted] using h)
  have harray := Json.Standard.array (List.forall_mem_singleton.mpr hentry) Json.isBlank_nil
  rw [Json.commas_singleton, List.append_nil] at harray
  exact hreply ▸ harray

/-- The sample's texts are standard if its response is and comes through. -/
theorem isStandard_sample {reply : List Char} (hreply : Json.Standard reply)
    (hdecoded : (Text.decode (Text.asciiBytes reply)).toOption = some reply)
    (sub : Submission .standard (sampleHost reply) sampleFiles sampleLockfile) : sub.IsStandard := by
  have hexit : sub.exit = ⟨0, sampleOutput, ""⟩ :=
    (Except.ok.inj (congrArg Prod.fst sub.launched)).symm
  constructor
  · intro body hbody
    have hembedded : AuditRequest.embedded? sampleOutput = some (String.ofList (objectText
        [("dependencies", objectText [("a", objectText [("version", Json.quoted "1.0.0")])])])) := by
      decide +kernel
    rw [hexit, hembedded] at hbody
    cases hbody
    rw [String.toList_ofList]
    exact standard_objectText_singleton (standard_objectText_singleton
      (standard_objectText_singleton (standard_quoted _)))
  · intro status bytes text hanswer htext
    cases hanswer
    have htext : (Text.decode (Text.asciiBytes reply)).toOption = some text :=
      congrArg Except.toOption htext
    cases hdecoded.symm.trans htext
    exact hreply

/-- The analysis of the sample succeeds with one piece of evidence, which has no score: the text that is
    posted is standard, and so is the report, in whole seconds. -/
theorem written_standard_iff_sample :
    ∃ sub : Submission .standard (sampleHost sampleReply) sampleFiles sampleLockfile,
      sub.IsStandard ∧ Json.Standard (Client.public.post sub.payload.text).content.toList ∧
      ∃ r, (analyze .standard (sampleHost sampleReply) sampleFiles .enabled sampleLockfile).result = .ok r ∧
        r.evidence ≠ [] ∧ Json.Standard (Report.text [{ r with seconds := .int 2 }]).toList := by
  have hreply : Json.Standard sampleReply := standard_reply [] (by simp) (by decide +kernel)
  have hstandard := isStandard_sample hreply (by decide +kernel)
  have hresult : (analyze .standard (sampleHost sampleReply) sampleFiles .enabled
      sampleLockfile).result.toOption.map (fun r => !r.evidence.isEmpty &&
        r.evidence.all fun e => (scoreOf e).all fun v => !v.isSet) = some true := by decide +kernel
  obtain ⟨r, hr, hevidence⟩ := Option.map_eq_some_iff.mp hresult
  have hr := eq_ok_of_toOption hr
  simp only [Bool.and_eq_true, Bool.not_eq_true', List.all_eq_true] at hevidence
  obtain ⟨hsome, hscores⟩ := hevidence
  have hne : r.evidence ≠ [] := by simpa using hsome
  have hsettled : Batch.settle sampleLockfile
      (analyze .standard (sampleHost sampleReply) sampleFiles .enabled sampleLockfile).result = .ok r := by
    rw [hr]
    rfl
  rcases evidence_cases hsettled with hnil | ⟨sub, -, -⟩
  · exact absurd hnil hne
  have hlisted : ∀ r' ∈ [{ r with seconds := .int 2 }], Listed r' :=
    List.forall_mem_singleton.mpr (.intro hsettled hstandard trivial)
  obtain ⟨hposted, hreported⟩ := written_standard_iff hlisted
  refine ⟨sub, hstandard sub, (hposted sub (hstandard sub)).2 ?_, r, hr, hne, ?_⟩
  · have hexit : sub.exit = ⟨0, sampleOutput, ""⟩ :=
      (Except.ok.inj (congrArg Prod.fst sub.launched)).symm
    have hrequest := sub.requested
    rw [hexit, show sampleLockfile.path.toString = "/w/yarn.lock" by decide] at hrequest
    have hshape := Session.sample_requested hrequest
    unfold isSampleRequest at hshape
    split at hshape
    · next hvalue =>
      rw [hvalue]
      simp
    · cases hshape
  · refine hreported.mpr (List.forall_mem_singleton.mpr ?_)
    intro e he negative hscore
    have hunset := hscores e he
    rw [hscore] at hunset
    cases negative <;> cases hunset

/-! ## Numbers beyond all values -/

/-- An audit request whose one entry requires such a number. -/
def overflowBody : String :=
  String.ofList (objectText [("dependencies", objectText [("a", objectText
    [("requires", objectText [("b", hugeNumeral)]), ("version", Json.quoted "1.0.0")])])])

/-- A value that is an infinity above zero. -/
def isInfinity : Json → Bool
  | .num (.float x) => x == .infinity false
  | _ => false

/-- An audit request whose one entry requires a value. -/
def rangedRequest (v : Json) : Json :=
  .obj [("dependencies", .obj [("a", .obj [("requires", .obj [("b", v)]), ("version", .str "1.0.0")])])]

/-- The value of such a request. -/
def ranged? : Json → Option Json
  | .obj [("dependencies", .obj [("a", .obj [("requires", .obj [("b", v)]), ("version", .str "1.0.0")])])] =>
    some v
  | _ => none

theorem eq_of_isInfinity {v : Json} (h : isInfinity v = true) : v = .num (.float (.infinity false)) := by
  unfold isInfinity at h
  split at h
  · rw [eq_of_beq h]
  · cases h

theorem eq_of_ranged {request v : Json} (h : ranged? request = some v) : request = rangedRequest v := by
  unfold ranged? at h
  split at h
  · cases h
    rfl
  · cases h

theorem build_rangedRequest {v : Json} (hv : v.sorted = v) :
    Payload.build .flagged (rangedRequest v) .empty false =
      .ok ⟨none, none, [], [("a", .mk "1.0.0" none (some [("b", v)]) none none)], false⟩ := by
  have hsorted : (rangedRequest v).sorted = rangedRequest v := by
    simp only [rangedRequest, Json.sorted, Json.sortedMembers, Pairs.sort, hv]
    repeat rw [List.mergeSort_of_pairwise (by simp +decide)]
  refine Payload.build_ok_iff.mpr ⟨_, _, by rw [hsorted]; rfl, rfl, ?_⟩
  simp [Payload.registryRanges, Payload.declaredRanges, Manifest.empty, Payload.filled, Pairs.sort, Pairs.get?]

/-- A response with an advisory that has such a score. -/
def overflowReply : List Char := '[' :: sampleAdvisory "1" overflowScore ++ [']']

/-- **A number beyond all values comes through.** An audit request that is a standard text is accepted, and
    the text of the payload that is built from it is not standard. A response that is a standard text is
    accepted, the analysis succeeds, and its report is not standard. -/
theorem overflow_is_written :
    (Json.Standard overflowBody.toList ∧ ∃ request p, AuditRequest.request overflowBody = .ok request ∧
      Payload.build .flagged request .empty false = .ok p ∧ ¬ Json.Standard p.text.toList) ∧
    Json.Standard overflowReply ∧
      ∃ r, (analyze .standard (sampleHost overflowReply) sampleFiles .enabled sampleLockfile).result =
        .ok r ∧ r.status = .analyzed ∧ ¬ Json.Standard (Report.text [r]).toList := by
  have hinfinity := not_isFinite_infinity false
  refine ⟨⟨?_, ?_⟩, ?_, ?_⟩
  · rw [overflowBody, String.toList_ofList]
    refine standard_objectText_singleton (standard_objectText_singleton (standard_objectText ?_))
    simp [standard_quoted, standard_objectText_singleton standard_hugeNumeral]
  · have hread : ((AuditRequest.request overflowBody).toOption.bind ranged?).map isInfinity =
        some true := by decide +kernel
    obtain ⟨v, hv, hvalue⟩ := Option.map_eq_some_iff.mp hread
    obtain ⟨request, hrequest, hranged⟩ := Option.bind_eq_some_iff.mp hv
    obtain rfl := eq_of_isInfinity hvalue
    obtain rfl := eq_of_ranged hranged
    refine ⟨_, _, eq_ok_of_toOption hrequest, build_rangedRequest rfl, fun hstandard => ?_⟩
    refine hinfinity (Json.standard_compact_iff.mp hstandard _ ?_)
    simp [Payload.toJson, Payload.nodesJson, Payload.nodeJson]
  · refine standard_reply [("cvss", objectText [("score", hugeNumeral)])] ?_ (by decide +kernel)
    simp [standard_objectText_singleton standard_hugeNumeral]
  · have hresult : (analyze .standard (sampleHost overflowReply) sampleFiles .enabled
        sampleLockfile).result.toOption.map (fun r => r.status == .analyzed &&
          r.evidence.any fun e => (scoreOf e).any isInfinity) = some true := by decide +kernel
    obtain ⟨r, hr, hevidence⟩ := Option.map_eq_some_iff.mp hresult
    simp only [Bool.and_eq_true, beq_iff_eq, List.any_eq_true, Option.any_eq_true] at hevidence
    obtain ⟨hanalyzed, e, he, v, hscore, hvalue⟩ := hevidence
    obtain rfl := eq_of_isInfinity hvalue
    refine ⟨r, eq_ok_of_toOption hr, hanalyzed, fun hstandard => ?_⟩
    have hmetadata := (Report.standard_text_iff.mp hstandard r List.mem_cons_self).2 e he
    exact hinfinity (hmetadata _ (.member (Pairs.mem_of_get? hscore) .here))

end Analysis

end LockAudit
