import LockAudit.Proofs.Session.Submission

/-!
# `LockAudit.Proofs.Session.Evidence` — evidence accounts for the advisories

A successful analysis is right in both directions: what it reports was submitted and is vulnerable, and
what was submitted and is vulnerable it reports (`Accounts`). For that, keys of the audit request must not
have the sign that separates the keys of a path.

* `accounts_of_not_ended` — an unbroken mapping of a payload's index accounts for the advisories.
* `evidence_accounts` — in every run every successful analysis does, for the payload that it posted and
  the reply to that post, and whatever was analyzed before it makes no difference.
-/

namespace LockAudit

open Payload (IsPlainKey PlainKeys)

/-! ## Payloads and advisories -/

/-- Evidence accounts for advisories on a payload: all of it stands for a package that was submitted, at
    a version in an advisory's range, and every such package has some. -/
structure Accounts (p : Payload) (as : List Advisory) (es : List Evidence) : Prop where
  sound : ∀ e ∈ es, p.Submits e.moduleName e.resolvedVersion ∧
    ∃ a ∈ as, Mapping.evidence Mapping.defaultSource a e.resolvedVersion = .ok e ∧
      a.moduleName = e.moduleName ∧ a.vulnerableVersions = e.vulnerableVersions ∧
      Range.satisfies e.resolvedVersion (some a.vulnerableVersions) = .ok true
  complete : ∀ a ∈ as, ∀ v, p.Submits a.moduleName v →
    Range.satisfies v (some a.vulnerableVersions) = .ok true →
    ∃ e ∈ es, Pairs.get? "advisory_id" e.metadata = some (.str a.id) ∧ e.moduleName = a.moduleName

/-- A mapping that nothing ends accounts for its advisories. -/
theorem accounts_of_not_ended {p : Payload} (hplain : PlainKeys p.dependencies) {as : List Advisory}
    (h : (Mapping.apply Mapping.defaultSource p.index as).ended = none) :
    Accounts p as (Mapping.apply Mapping.defaultSource p.index as).attached where
  sound := by
    intro e he
    obtain ⟨a, ha, v, hv, hsat, hev⟩ := Mapping.mem_attached h he
    obtain ⟨hname, hversion, hrange, -⟩ := Mapping.evidence_ok hev
    rw [hname, hversion, hrange]
    refine ⟨?_, a, ha, hev, rfl, rfl, hsat⟩
    exact Payload.submits_iff_holds.mpr ((Payload.mem_versions_index hplain).mp hv)
  complete := by
    intro a ha v hv hsat
    have hmem : v ∈ p.index.versions a.moduleName :=
      (Payload.mem_versions_index hplain).mpr (Payload.submits_iff_holds.mp hv)
    exact Mapping.attached_of_matches h ha hmem hsat

/-! ## Runs -/

namespace Session

open Analysis (Submission)

variable {s : Settings} {x : Session} {steps : List Step} {e : Event}

/-- What an event is, it is by its step and the session before it. -/
theorem event_of_analyze (he : e ∈ events s x steps) {record : Nat} {l : Lockfile}
    (hreq : e.step.request = .analyze record l) :
    e.answer = .result (Analysis.analyze s e.step.host e.step.files e.before.state l).result ∧
      e.trace = (Analysis.analyze s e.step.host e.step.files e.before.state l).trace ∧
      e.after.evidence = attach record
        (Analysis.analyze s e.step.host e.step.files e.before.state l).attached e.before.evidence := by
  have hself := mem_events_perform he
  rw [perform_of_analyze hreq] at hself
  exact ⟨congrArg Event.answer hself, congrArg Event.trace hself,
    congrArg (fun d => d.after.evidence) hself⟩

/-- **Evidence is sound and complete, and owes nothing to the past.** Every successful analysis of a run
    rests on a submission of its own. It posts that payload and nothing else, adds what it reports to the
    record and, if no key of the audit request has the sign `>`, accounts for the advisories of the reply.
    Asked and served the same in any other run, the analyzer in service answers and acts the same. -/
theorem evidence_accounts (he : e ∈ events s x steps) {record : Nat} {l : Lockfile}
    (hreq : e.step.request = .analyze record l) {r : Analysis.Result}
    (hr : e.answer.finished? = some r) :
    (∃ sub : Submission s e.step.host e.step.files l,
      e.trace.posts = [s.client.post sub.payload.toJson.compact] ∧
      e.after.evidence = attach record r.evidence e.before.evidence ∧
      ((∀ key entry, sub.request.Dependency key entry → '>' ∉ key.toList) →
        Accounts sub.payload sub.advisories r.evidence)) ∧
    ∀ y others d, d ∈ events s y others → d.step = e.step → d.before.state = .enabled →
      d.answer = e.answer ∧ d.trace = e.trace := by
  obtain ⟨hans, htrace, hafter⟩ := event_of_analyze he hreq
  obtain ⟨hans', hstatus⟩ := Answer.finished?_eq_some_iff.mp hr
  have hok := Answer.result.inj (hans.symm.trans hans')
  obtain ⟨henabled, sub, hended, hevidence, hattached, hposts⟩ :=
    Analysis.analyze_of_analyzed hok hstatus
  constructor
  · refine ⟨sub, ?_, ?_, ?_⟩
    · rw [htrace]
      exact hposts
    · rw [hafter, hattached, hevidence]
    · intro hkeys
      rw [hevidence]
      exact accounts_of_not_ended (Payload.plainKeys_of_build sub.built hkeys) hended
  · -- An analysis sees the session's state and nothing else of the past.
    intro y others d hd hstep hstate
    have hreq' : d.step.request = .analyze record l := by rw [hstep, hreq]
    obtain ⟨hans'', htrace'', -⟩ := event_of_analyze hd hreq'
    rw [hans'', htrace'', hans, htrace, hstep, hstate, henabled]
    exact ⟨rfl, rfl⟩

/-! ## A sample run -/

/-- A lockfile in a folder of the root. -/
def sampleLockfile : Lockfile := ⟨⟨"/", ["w", "yarn.lock"]⟩, "w"⟩

/-- The lockfile and an empty manifest beside it. -/
def sampleFiles : FileTree :=
  .folder [("w", .folder [("yarn.lock", .file [97] false),
    ("package.json", .file [123, 125] false)])]

/-- An audit request with one dependency, as the package manager logs it. -/
def sampleOutput : String :=
  "\x7b\"data\":\"Audit Request: \x7b\\\"dependencies\\\":\x7b\\\"a\\\":" ++
    "\x7b\\\"version\\\":\\\"1.0.0\\\"\x7d\x7d\x7d\"\x7d"

/-- A host whose package manager logs that request, and whose service gives one answer to every post. -/
def sampleHost (reply : List Char) : Host :=
  ⟨fun files _ => (.ok ⟨0, sampleOutput, ""⟩, files),
    fun _ => .response 200 (reply.map fun c => c.toNat.toUInt8), fun _ => ""⟩

/-- The analysis of the sample lockfile. -/
def sampleStep (reply : List Char) : Step :=
  ⟨.analyze 0 sampleLockfile, sampleFiles, sampleHost reply⟩

/-- An analyzer in service, and records without evidence. -/
def fresh : Session := ⟨.enabled, fun _ => []⟩

/-- An advisory as the service writes it, for every version of the sample's dependency. -/
def sampleAdvisory (id : String) (more : List Char) : List Char :=
  ("\x7b\"id\":\"" ++ id ++ "\",\"module_name\":\"a\",\"vulnerable_versions\":\"*\"," ++
    "\"severity\":\"low\"").toList ++ more ++ ['\x7d']

/-- A reply with one advisory. -/
def sampleReply : List Char := '[' :: sampleAdvisory "1" [] ++ [']']

/-- The sample's audit request. -/
def isSampleRequest : Json → Bool
  | .obj [("dependencies", .obj [("a", .obj [("version", .str "1.0.0")])])] => true
  | _ => false

theorem sample_requested {request : Json}
    (h : (AuditRequest.extract sampleOutput "" "/w/yarn.lock").result = .ok request) :
    isSampleRequest request = true := by
  have hread : (AuditRequest.extract sampleOutput "" "/w/yarn.lock").result.toOption.map
      isSampleRequest = some true := by decide +kernel
  rw [h] at hread
  exact Option.some.inj hread

/-- The sample's request has one key. -/
theorem sample_key {request : Json} (hsample : isSampleRequest request = true) {key : String}
    {entry : Json} (h : request.Dependency key entry) : key = "a" := by
  unfold isSampleRequest at hsample
  split at hsample
  · cases h with
    | here hes hm =>
      simp only [Json.member?, Pairs.get?, if_true, Option.some.injEq, Json.obj.injEq] at hes
      rw [← hes, List.mem_singleton] at hm
      exact (Prod.mk.inj hm).1
    | deeper hes hm hbelow =>
      simp only [Json.member?, Pairs.get?, if_true, Option.some.injEq, Json.obj.injEq] at hes
      rw [← hes, List.mem_singleton] at hm
      obtain ⟨es, hes'⟩ := hbelow.exists_entries
      rw [(Prod.mk.inj hm).2] at hes'
      simp [Json.member?, Pairs.get?] at hes'
  · cases hsample

/-- The sample run has a successful analysis with one entry, which accounts for the advisories. -/
theorem evidence_accounts_sample :
    ∃ e ∈ events .standard fresh [sampleStep sampleReply], ∃ r,
      e.step.request = .analyze 0 sampleLockfile ∧ e.answer.finished? = some r ∧
      r.evidence.length = 1 ∧
      ∃ sub : Submission .standard e.step.host e.step.files sampleLockfile,
        Accounts sub.payload sub.advisories r.evidence := by
  have hmem : perform .standard fresh (sampleStep sampleReply) ∈
      events .standard fresh [sampleStep sampleReply] := List.mem_cons_self
  have hone : (perform .standard fresh (sampleStep sampleReply)).answer.finished?.map
      (·.evidence.length) = some 1 := by decide +kernel
  obtain ⟨r, hr, hlen⟩ := Option.map_eq_some_iff.mp hone
  obtain ⟨⟨sub, -, -, hacc⟩, -⟩ := evidence_accounts hmem rfl hr
  refine ⟨_, hmem, r, rfl, hr, hlen, sub, hacc ?_⟩
  intro key entry hkey
  have hexit : sub.exit = ⟨0, sampleOutput, ""⟩ :=
    (Except.ok.inj (congrArg Prod.fst sub.launched)).symm
  have hpath : sampleLockfile.path.toString = "/w/yarn.lock" := by decide
  have hrequest := sub.requested
  rw [hexit, hpath] at hrequest
  rw [sample_key (sample_requested hrequest) hkey]
  decide

end Session

end LockAudit
