import LockAudit.Proofs.AdvisoryService
import LockAudit.Proofs.Session.Evidence

/-!
# `LockAudit.Proofs.Session.Answered` — which replies count as an answer

A reply counts as an answer if its status is below 400 and its body is readable. The bound leaves room below:
a redirect, which is no success, counts as an answer if it happens to carry a list of advisories, and an
analysis may succeed on it.

* `submit_ok_iff` — a submission gives advisories exactly for an answer.
* `answered_of_analyzed` — an analysis that succeeds has had one.
* `unsuccessful_answer_iff` — so a reply without success ends in an error of the audit, unless its status is
  below 400 and its body is readable.
* `redirect_is_answer` — that does occur.
-/

namespace LockAudit

namespace AdvisoryService

/-- A reply that counts as an answer. -/
def IsAnswer : Reply → Prop
  | .response status body => status < 400 ∧ ¬ Unreadable body
  | .unreachable _ => False
  | .failed _ => False

/-- A status of success. -/
def IsSuccess (status : Nat) : Prop := 200 ≤ status ∧ status ≤ 299

/-- **A submission gives advisories exactly for an answer.** -/
theorem submit_ok_iff {c : Client} {exchange : Post → Reply} {content : String} :
    (∃ as, c.submit exchange content = .ok as) ↔ IsAnswer (exchange (c.post content)) := by
  rw [submit_of_reply rfl]
  constructor
  · rintro ⟨as, h⟩
    cases hreply : exchange (c.post content) with
    | unreachable reason =>
      rw [hreply] at h
      cases h
    | failed t =>
      rw [hreply] at h
      cases h
    | response status body =>
      rw [hreply] at h
      have hlow : status < 400 := by
        by_contra hhigh
        rw [advisories] at h
        split at h
        · cases h
        · rw [if_pos (Nat.not_lt.mp hhigh)] at h
          cases h
      refine ⟨hlow, fun hbody => ?_⟩
      obtain ⟨f, hf⟩ := (advisories_error_iff hlow).mpr hbody
      cases h.symm.trans hf
  · intro h
    cases hreply : exchange (c.post content) with
    | unreachable reason =>
      rw [hreply] at h
      cases h
    | failed t =>
      rw [hreply] at h
      cases h
    | response status body =>
      rw [hreply] at h
      cases hadvisories : advisories c.url (.response status body) with
      | ok as => exact ⟨as, rfl⟩
      | error f => exact absurd ((advisories_error_iff h.1).mp ⟨f, hadvisories⟩) h.2

/-- A response that is no answer ends the submission with an error of the audit. -/
theorem exists_audit_of_response (wording : Advisory.Wording) {url : String} {status : Nat} {body : List UInt8}
    {f : Fault} (h : advisories url (.response status body) = .error f) : ∃ e, f.trouble wording = .audit e := by
  by_cases hlow : status < 400
  · obtain ⟨message, hf⟩ := exists_trouble_of_lt wording hlow h
    exact ⟨_, hf⟩
  · rw [advisories] at h
    split at h
    · cases h
      exact ⟨_, rfl⟩
    · rw [if_pos (Nat.not_lt.mp hlow)] at h
      cases h
      exact ⟨_, rfl⟩

end AdvisoryService

namespace Analysis

open AdvisoryService

variable {s : Settings} {host : Host} {files : FileTree} {state : Lifecycle.State} {l : Lockfile}

/-- **An analysis that succeeds has had an answer** to its one post. -/
theorem answered_of_analyzed {r : Result} (h : (analyze s host files state l).result = .ok r)
    (hr : r.status = .analyzed) :
    ∃ post, (analyze s host files state l).trace.posts = [post] ∧ IsAnswer (host.exchange post) := by
  obtain ⟨-, sub, -, -, -, hposts⟩ := analyze_of_analyzed h hr
  refine ⟨_, hposts, submit_ok_iff.mp ⟨sub.advisories, ?_⟩⟩
  exact (submit_of_reply rfl).trans sub.answered

/-- **What becomes of a response that is no success.** A submission ends in an error of the audit, or gives
    advisories, which it does exactly if the status is below 200 or of a redirect and the body is readable.
    An analysis that succeeds has had one response to its one post, with a status below 400 and a readable
    body. -/
theorem unsuccessful_answer_iff (s : Settings) (host : Host) (files : FileTree)
    (state : Lifecycle.State) (l : Lockfile) :
    (∀ content status body, host.exchange (s.client.post content) = .response status body →
      ¬ IsSuccess status →
      ((∃ as, s.client.submit host.exchange content = .ok as) ↔
        (status < 200 ∨ 300 ≤ status ∧ status ≤ 399) ∧ ¬ Unreadable body) ∧
      ((∃ as, s.client.submit host.exchange content = .ok as) ∨
        ∃ f e, s.client.submit host.exchange content = .error f ∧ f.trouble host.wording = .audit e)) ∧
    ∀ r, (analyze s host files state l).result = .ok r → r.status = .analyzed →
      ∃ post status body, (analyze s host files state l).trace.posts = [post] ∧
        host.exchange post = .response status body ∧ status < 400 ∧ ¬ Unreadable body := by
  constructor
  · intro content status body hreply hstatus
    refine ⟨?_, ?_⟩
    · rw [submit_ok_iff, hreply]
      refine and_congr_left fun _ => ?_
      simp only [IsSuccess] at hstatus
      omega
    · rw [submit_of_reply hreply]
      cases hsubmit : advisories s.client.url (.response status body) with
      | error f =>
        obtain ⟨e, he⟩ := exists_audit_of_response host.wording hsubmit
        exact .inr ⟨f, e, rfl, he⟩
      | ok as => exact .inl ⟨as, rfl⟩
  · intro r h hr
    obtain ⟨post, hposts, hanswer⟩ := answered_of_analyzed h hr
    cases hreply : host.exchange post with
    | response status body =>
      rw [hreply] at hanswer
      exact ⟨post, status, body, hposts, hreply, hanswer⟩
    | unreachable reason =>
      rw [hreply] at hanswer
      cases hanswer
    | failed t =>
      rw [hreply] at hanswer
      cases hanswer

/-- A service that redirects every post, with an empty list for a body. -/
def redirecting (_ : Post) : Reply := .response 302 (Text.asciiBytes "[]".toList)

/-- The empty list of a redirect is readable, and gives no advisories. -/
theorem unsuccessful_answer_iff_sample :
    ¬ IsSuccess 302 ∧ (∃ as, Client.public.submit redirecting "\x7b\x7d" = .ok as) ∧
      ¬ Unreadable (Text.asciiBytes "[]".toList) := by
  obtain ⟨hsubmit, -⟩ := unsuccessful_answer_iff .standard
    { Session.sampleHost [] with exchange := redirecting } Session.sampleFiles .enabled Session.sampleLockfile
  have hstatus : ¬ IsSuccess 302 := by simp [IsSuccess]
  have hlist : ∃ as, Client.public.submit redirecting "\x7b\x7d" = .ok as := ⟨[], rfl⟩
  obtain ⟨hiff, -⟩ := hsubmit "\x7b\x7d" 302 _ rfl hstatus
  exact ⟨hstatus, hlist, (hiff.mp hlist).2⟩

/-- **A redirect may count as an answer**: a submission gives the advisories of its body, and an analysis
    succeeds without evidence. -/
theorem redirect_is_answer :
    Client.public.submit redirecting "\x7b\x7d" = .ok [] ∧
      ∃ r, (analyze .standard { Session.sampleHost [] with exchange := redirecting } Session.sampleFiles .enabled
        Session.sampleLockfile).result = .ok r ∧ r.status = .analyzed ∧ r.evidence = [] := by
  refine ⟨rfl, ?_⟩
  have hclean : (analyze .standard { Session.sampleHost [] with exchange := redirecting } Session.sampleFiles
      .enabled Session.sampleLockfile).result.toOption.map
        (fun r => r.status == .analyzed && r.evidence.isEmpty) = some true := by decide +kernel
  obtain ⟨r, hr, hclean⟩ := Option.map_eq_some_iff.mp hclean
  rw [Bool.and_eq_true, beq_iff_eq, List.isEmpty_iff] at hclean
  exact ⟨r, eq_ok_of_toOption hr, hclean⟩

end Analysis

end LockAudit
