import LockAudit.AdvisoryService
import LockAudit.Proofs.Advisory.Entries
import LockAudit.Proofs.Json.Accepted
import LockAudit.Proofs.Text.Decoding

/-!
# `LockAudit.Proofs.AdvisoryService` — what a submission comes to

A submission has one outcome for each reply, and there is no reply without one. Only below status 400 does
the body count, and then it is either read as advisories or `Unreadable`, which says of bytes, of texts, of
JSON values and of entries what each of them must be.

* `carries_iff` — what a body carries, from bytes to entries.
* `unreadable_iff` — a body is unreadable exactly if it gives no advisories.
* `advisories_ok_iff`, `advisories_error_iff` — the two outcomes below status 400.
* `submit_outcome` — all outcomes of a submission, and its one post.
-/

namespace LockAudit.AdvisoryService

open Advisory (Holds IsEntry Describes)

variable {url : String} {status : Nat} {body : List UInt8} {es : List Json} {as : List Advisory}

/-! ## Bodies -/

/-- A body carries some entries: it is the text of a JSON value that holds them. -/
def Carries (body : List UInt8) (es : List Json) : Prop :=
  ∃ s v, Text.decode body = .ok s ∧ Json.parseChars s = .ok v ∧ Holds v es

/-- A body from which no advisories can be read. -/
inductive Unreadable (body : List UInt8) : Prop
  /-- The bytes are no text. -/
  | undecodable (h : Text.Undecodable body)
  /-- The text is not of the grammar. -/
  | malformed {s : List Char} (hs : Text.decode body = .ok s) (h : ¬ Json.Accepted s)
  /-- The value holds no entries. -/
  | shapeless {s : List Char} {v : Json} (hs : Text.decode body = .ok s)
      (hv : Json.parseChars s = .ok v) (h : ∀ es, ¬ Holds v es)
  /-- One of the entries describes no advisory. -/
  | invalid {es : List Json} (hes : Carries body es) {e : Json} (he : e ∈ es) (h : ¬ IsEntry e)

/-- A body carries one row of entries at most. -/
theorem Carries.unique {es' : List Json} (h : Carries body es) (h' : Carries body es') : es = es' := by
  obtain ⟨s, v, hs, hv, hes⟩ := h
  obtain ⟨s', v', hs', hv', hes'⟩ := h'
  cases hs.symm.trans hs'
  cases hv.symm.trans hv'
  exact hes.unique hes'

theorem readBody_ok_iff {v : Json} :
    readBody body = .ok v ↔ ∃ s, Text.decode body = .ok s ∧ Json.parseChars s = .ok v := by
  unfold readBody
  cases Text.decode body with
  | error d => simp
  | ok s =>
    cases hv : Json.parseChars s with
    | error e => simp [hv]
    | ok w => simp [hv]

/-- **A body is unreadable exactly if it gives no advisories.** -/
theorem unreadable_iff :
    Unreadable body ↔ ∀ es as, Carries body es → ¬ List.Forall₂ Describes es as := by
  constructor
  · intro h es as hes has
    obtain ⟨s, v, hs, hv, hholds⟩ := hes
    cases h with
    | undecodable h =>
      obtain ⟨d, hd⟩ := Text.decode_error_iff.mpr h
      cases hs.symm.trans hd
    | malformed hs' h =>
      cases hs.symm.trans hs'
      exact h (Json.exists_parseChars_iff.mp ⟨v, hv⟩)
    | shapeless hs' hv' h =>
      cases hs.symm.trans hs'
      cases hv.symm.trans hv'
      exact h es hholds
    | invalid hes' he h =>
      cases Carries.unique ⟨s, v, hs, hv, hholds⟩ hes'
      exact h (Advisory.isEntry_of_forall₂ has _ he)
  · intro hno
    cases hs : Text.decode body with
    | error d => exact .undecodable (Text.decode_error_iff.mp ⟨d, hs⟩)
    | ok s =>
      cases hv : Json.parseChars s with
      | error e =>
        refine .malformed hs fun h => ?_
        obtain ⟨v, hv'⟩ := Json.exists_parseChars_iff.mpr h
        cases hv.symm.trans hv'
      | ok v =>
        by_cases hholds : ∃ es, Holds v es
        · obtain ⟨es, hes⟩ := hholds
          have hcarries : Carries body es := ⟨s, v, hs, hv, hes⟩
          by_cases hall : ∀ e ∈ es, IsEntry e
          · obtain ⟨as, has⟩ := Advisory.forall₂_of_isEntry hall
            exact absurd has (hno es as hcarries)
          · push Not at hall
            obtain ⟨e, he, h⟩ := hall
            exact .invalid hcarries he h
        · exact .shapeless hs hv (not_exists.mp hholds)

/-! ## Replies -/

/-- Below status 400 a reply is its body. -/
theorem advisories_of_lt (h : status < 400) : advisories url (.response status body) =
    match readBody body with
    | .error f => .error f
    | .ok v => (Advisory.listOfJson v).mapError .response := by
  rw [advisories, if_neg (by omega), if_neg (by omega)]
  cases readBody body with
  | error f => rfl
  | ok v =>
    dsimp only
    cases Advisory.listOfJson v with
    | error f => rfl
    | ok as => rfl

/-- **Below status 400 the advisories are those that the entries of the body describe.** -/
theorem advisories_ok_iff (h : status < 400) : advisories url (.response status body) = .ok as ↔
    ∃ es, Carries body es ∧ List.Forall₂ Describes es as := by
  rw [advisories_of_lt h]
  constructor
  · intro hok
    cases hv : readBody body with
    | error f =>
      rw [hv] at hok
      cases hok
    | ok v =>
      rw [hv] at hok
      dsimp only at hok
      cases hlist : Advisory.listOfJson v with
      | error f =>
        rw [hlist] at hok
        cases hok
      | ok bs =>
        rw [hlist] at hok
        cases hok
        obtain ⟨s, hs, hparse⟩ := readBody_ok_iff.mp hv
        obtain ⟨es, hes, has⟩ := Advisory.listOfJson_ok_iff.mp hlist
        exact ⟨es, ⟨s, v, hs, hparse, hes⟩, has⟩
  · rintro ⟨es, ⟨s, v, hs, hv, hes⟩, has⟩
    rw [readBody_ok_iff.mpr ⟨s, hs, hv⟩]
    dsimp only
    rw [Advisory.listOfJson_ok_iff.mpr ⟨es, hes, has⟩]
    rfl

/-- A fault below status 400 is one of the response. -/
theorem exists_trouble_of_lt (wording : Advisory.Wording) (h : status < 400) {f : Fault}
    (hf : advisories url (.response status body) = .error f) :
    ∃ message, f.trouble wording = .of .responseSchema message := by
  rw [advisories_of_lt h] at hf
  unfold readBody at hf
  cases hs : Text.decode body with
  | error d =>
    simp only [hs] at hf
    cases hf
    exact ⟨_, rfl⟩
  | ok s =>
    cases hv : Json.parseChars s with
    | error e =>
      simp only [hs, hv] at hf
      cases hf
      exact ⟨_, rfl⟩
    | ok v =>
      simp only [hs, hv] at hf
      cases hlist : Advisory.listOfJson v with
      | error g =>
        rw [hlist] at hf
        cases hf
        exact ⟨_, rfl⟩
      | ok as =>
        rw [hlist] at hf
        cases hf

/-- **Below status 400 a reply is at fault exactly if its body is unreadable.** -/
theorem advisories_error_iff (h : status < 400) :
    (∃ f, advisories url (.response status body) = .error f) ↔ Unreadable body := by
  rw [unreadable_iff]
  constructor
  · rintro ⟨f, hf⟩ es as hes has
    rw [(advisories_ok_iff h).mpr ⟨es, hes, has⟩] at hf
    cases hf
  · intro hno
    cases hreply : advisories url (.response status body) with
    | error f => exact ⟨f, rfl⟩
    | ok as =>
      obtain ⟨es, hes, has⟩ := (advisories_ok_iff h).mp hreply
      exact absurd has (hno es as hes)

/-! ## Submissions -/

/-- An exchange that also keeps the posts. -/
def keeping (exchange : Post → Reply) (post : Post) : StateM (List Post) Reply := do
  modify (· ++ [post])
  return exchange post

/-- What the submission of a value comes to, and the posts that it makes. The value is that of a payload
    (`Payload.toJson`), or any other. -/
def submission (wording : Advisory.Wording) (c : Client) (exchange : Post → Reply) (data : Json) :
    Except Trouble (List Advisory) × List Post :=
  let (result, posts) := ((c.submitBy (keeping exchange) data.compact).run []).run
  (result.mapError (Fault.trouble wording), posts)

theorem submission_eq (wording : Advisory.Wording) (c : Client) (exchange : Post → Reply) (data : Json) :
    submission wording c exchange data =
      ((c.submit exchange data.compact).mapError (Fault.trouble wording), [c.post data.compact]) := rfl

theorem mapError_ok_iff {ε ε' α : Type} {f : ε → ε'} {x : Except ε α} {a : α} :
    x.mapError f = .ok a ↔ x = .ok a := by
  cases x with
  | error e => simp [Except.mapError]
  | ok b => simp [Except.mapError]

theorem mapError_error_iff {ε ε' α : Type} {f : ε → ε'} {x : Except ε α} {e' : ε'} :
    x.mapError f = .error e' ↔ ∃ e, x = .error e ∧ f e = e' := by
  cases x with
  | error e => simp [Except.mapError]
  | ok b => simp [Except.mapError]

/-- What a submission comes to is what its reply comes to. -/
theorem submit_of_reply {c : Client} {exchange : Post → Reply} {content : String} {reply : Reply}
    (h : exchange (c.post content) = reply) : c.submit exchange content = advisories c.url reply :=
  congrArg (advisories c.url) h

/-- **All outcomes of a submission.** There is one post, of the text of the payload, to the client's address.
    Trouble with the connection is one of transport, and any other trouble passes as it is. A status from
    500 on is trouble with the transport, and one from 400 on a refusal, with any body. Below, a submission
    gives the advisories that the entries of the body describe, in their order, or the body is
    unreadable. -/
theorem submit_outcome (wording : Advisory.Wording) (c : Client) (data : Json) (exchange : Post → Reply) :
    (∃ post, (submission wording c exchange data).2 = [post] ∧ post.url = c.url ∧
      post.content = data.compact ∧
      (∀ reason, exchange post = .unreachable reason →
        ∃ message, (submission wording c exchange data).1 = .error (.of .transport message)) ∧
      (∀ t, exchange post = .failed t → (submission wording c exchange data).1 = .error t) ∧
      ∀ status body, exchange post = .response status body →
        (500 ≤ status → ∃ message, (submission wording c exchange data).1 = .error (.of .transport message)) ∧
        (400 ≤ status → status ≤ 499 → ∃ message,
          (submission wording c exchange data).1 = .error (.audit ⟨.authOrQuota, message, some status⟩)) ∧
        (status < 400 →
          (∀ as, (submission wording c exchange data).1 = .ok as ↔
            ∃ es, Carries body es ∧ List.Forall₂ Describes es as) ∧
          ((∃ t, (submission wording c exchange data).1 = .error t) ↔ Unreadable body) ∧
          ∀ t, (submission wording c exchange data).1 = .error t →
            ∃ message, t = .of .responseSchema message)) := by
  rw [submission_eq]
  refine ⟨c.post data.compact, rfl, rfl, rfl, fun reason hreply => ?_, fun t hreply => ?_,
    fun status body hreply => ?_⟩
  · rw [submit_of_reply hreply]
    exact ⟨_, rfl⟩
  · rw [submit_of_reply hreply]
    rfl
  · rw [submit_of_reply hreply]
    refine ⟨fun h => ?_, fun h h' => ?_, fun h => ⟨fun as => ?_, ?_, fun t ht => ?_⟩⟩
    · rw [advisories, if_pos h]
      exact ⟨_, rfl⟩
    · rw [advisories, if_neg (by omega), if_pos h]
      exact ⟨_, rfl⟩
    · rw [mapError_ok_iff, advisories_ok_iff h]
    · rw [← advisories_error_iff h]
      simp only [mapError_error_iff]
      exact ⟨fun ⟨_, f, hf, _⟩ => ⟨f, hf⟩, fun ⟨f, hf⟩ => ⟨f.trouble wording, f, hf, rfl⟩⟩
    · obtain ⟨f, hf, rfl⟩ := mapError_error_iff.mp ht
      exact exists_trouble_of_lt wording h hf

/-- An empty list, a refusal and a service that is down, and a text that is not JSON. -/
theorem submit_outcome_sample :
    let outcome (status : Nat) (body : String) : Except Trouble (List Advisory) × List Post :=
      submission (fun _ => "") .public (fun _ => .response status (Text.asciiBytes body.toList)) (.obj [])
    (outcome 200 "[]").1 = .ok [] ∧
      (∃ message, (outcome 429 "[]").1 = .error (.audit ⟨.authOrQuota, message, some 429⟩)) ∧
      (∃ message, (outcome 503 "[]").1 = .error (.of .transport message)) ∧
      ∃ t, (outcome 200 "[").1 = .error t := by
  intro outcome
  have hall := fun status body => submit_outcome (fun _ => "") .public (.obj [])
    (fun _ => .response status (Text.asciiBytes body))
  refine ⟨?_, ?_, ?_, ?_⟩
  · obtain ⟨_, -, -, -, -, -, h⟩ := hall 200 "[]".toList
    have hcarries : Carries (Text.asciiBytes "[]".toList) [] := ⟨_, .arr [], rfl, rfl, .array []⟩
    exact (((h 200 _ rfl).2.2 (by decide)).1 []).mpr ⟨[], hcarries, .nil⟩
  · obtain ⟨_, -, -, -, -, -, h⟩ := hall 429 "[]".toList
    exact (h 429 _ rfl).2.1 (by decide) (by decide)
  · obtain ⟨_, -, -, -, -, -, h⟩ := hall 503 "[]".toList
    exact (h 503 _ rfl).1 (by decide)
  · obtain ⟨_, -, -, -, -, -, h⟩ := hall 200 "[".toList
    refine ((h 200 _ rfl).2.2 (by decide)).2.1.mpr (.malformed (s := "[".toList) rfl fun hgrammar => ?_)
    obtain ⟨v, hv⟩ := Json.exists_parseChars_iff.mpr hgrammar
    cases hv

end LockAudit.AdvisoryService
