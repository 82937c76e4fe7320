import LockAudit.Proofs.Session.Basic

/-!
# `LockAudit.Proofs.Session.Lifecycle` — the only way through the states

Three places move the state of an analyzer: preparing it, taking it out of service by hand, and a failed
analysis. This module shows that together they only ever go forward, for every run of one analyzer.

* `State.Leads` — how one state may be followed by another, at once or later. Being out of service leads
  to itself alone, so neither the state nor its reason changes again.
* `leads_perform` — one step goes forward, whatever it is asked, finds and meets.
* `states_go_forward` — a whole run does, and an analyzer out of service does nothing at all.

What an analysis does to the state is decided by what it answers: `analyze_retires_iff`.
-/

namespace LockAudit

/-! ## The order of states -/

namespace Lifecycle

/-- How one state may be followed by another. -/
inductive State.Leads : State → State → Prop
  | stay (s : State) : Leads s s
  | enter : Leads .unprobed .enabled
  | refuse (reason : String) : Leads .unprobed (.disabled reason)
  | retire (reason : String) : Leads .enabled (.disabled reason)

theorem State.Leads.trans {s t u : State} (h : Leads s t) (h' : Leads t u) : Leads s u := by
  cases h with
  | stay => exact h'
  | enter => cases h' with
    | stay => exact .enter
    | retire reason => exact .refuse reason
  | refuse reason => cases h'; exact .refuse reason
  | retire reason => cases h'; exact .retire reason

/-- An analyzer that is out of service stays so, for the same reason. -/
theorem State.Leads.of_disabled {reason : String} {t : State} (h : Leads (.disabled reason) t) :
    t = .disabled reason := by
  cases h
  rfl

theorem leads_enable (name : String) (s : State) : s.Leads (enable name s).state := by
  cases s with
  | unprobed => exact .enter
  | enabled => exact .stay _
  | disabled reason => exact .stay _

theorem leads_disable (name reason : String) (s : State) :
    s.Leads (disable name reason s).state := by
  cases s with
  | unprobed => exact .refuse reason
  | enabled => exact .retire reason
  | disabled first => exact .stay _

/-- Judging a probe goes forward, whatever the probe came to. -/
theorem leads_judge (name command : String) (s : State) (o : Program.Outcome) :
    s.Leads (judge name command s o).change.state := by
  unfold judge
  split
  · split
    · exact leads_enable name s
    · exact leads_disable name _ s
  · split
    · exact .stay s
    · exact leads_disable name _ s
  · exact .stay s

end Lifecycle

open Lifecycle (State)

/-! ## Single requests -/

namespace Analysis

/-- The kinds that take an analyzer out of service, spelled out. -/
theorem disables_iff (k : ErrorKind) :
    k.disables = true ↔ k ∈ [ErrorKind.launchFailure, .transport, .initialization] := by
  cases k <;> decide

variable {s : Settings} {host : Host} {files : FileTree} {l : Lockfile}

theorem leads_prepare (state : State) :
    state.Leads (prepare s host files state).state := by
  unfold prepare
  split
  · exact Lifecycle.leads_disable _ _ state
  · split
    · cases state with
      | unprobed => exact Lifecycle.leads_judge _ _ _ _
      | enabled => exact .stay _
      | disabled reason => exact .stay _
    · exact .stay state

/-- A halt that becomes a result is a failure of some kind, and the analyzer goes out of service
    exactly for the kinds that are meant to do that. -/
theorem judge_result {halt : Halt} {r : Result}
    (h : (judge l .enabled halt).result = .ok r) :
    ∃ kind message, r = ⟨l, .failed, [], some ⟨kind, halt.stage, l.displayName, message⟩, noTime⟩ ∧
      ((∃ reason, (judge l .enabled halt).change.state = .disabled reason) ↔ kind.disables = true) := by
  obtain ⟨stage, trouble⟩ := halt
  cases trouble with
  | interrupt message => simp [judge] at h
  | stop name message => simp [judge] at h
  | mishap m =>
    refine ⟨.unexpected, m.message, ?_, ?_⟩
    · simpa [judge] using h.symm
    · simp [judge, ErrorKind.disables]
  | audit e =>
    by_cases hi : e.kind = .interrupted
    · simp [judge, hi] at h
    · refine ⟨e.kind, e.message, ?_, ?_⟩
      · simpa [judge, hi] using h.symm
      · by_cases hd : e.kind.disables = true <;> simp [judge, hi, hd, Lifecycle.disable]

/-- A halt that passes as it is leaves the analyzer in service. -/
theorem judge_state_of_error {halt : Halt} {t : Trouble}
    (h : (judge l .enabled halt).result = .error t) :
    (judge l .enabled halt).change.state = .enabled := by
  obtain ⟨stage, trouble⟩ := halt
  cases trouble with
  | interrupt message => rfl
  | stop name message => rfl
  | mishap m => rfl
  | audit e =>
    by_cases hi : e.kind = .interrupted
    · simp [judge, hi]
    · simp [judge, hi] at h

theorem leads_analyze_judge (halt : Halt) :
    State.enabled.Leads (judge l .enabled halt).change.state := by
  obtain ⟨stage, trouble⟩ := halt
  cases trouble with
  | interrupt message => exact .stay _
  | stop name message => exact .stay _
  | mishap m => exact .stay _
  | audit e =>
    by_cases hi : e.kind = .interrupted
    · simpa [judge, hi] using State.Leads.stay _
    · by_cases hd : e.kind.disables = true
      · simpa [judge, hi, hd] using Lifecycle.leads_disable _ _ State.enabled
      · simpa [judge, hi, hd] using State.Leads.stay _

theorem leads_analyze (state : State) :
    state.Leads (analyze s host files state l).state := by
  by_cases he : state = .enabled
  · subst he
    cases hp : shouldProcess files l.path with
    | false => rw [analyze_of_skipped hp]; exact .stay _
    | true =>
      cases hr : (run s host files l.path).halt with
      | none => rw [analyze_of_finished hp hr]; exact .stay _
      | some halt => rw [analyze_of_halted hp hr]; exact leads_analyze_judge halt
  · rw [analyze_of_not_enabled he]
    exact .stay state

/-- **What an answer says about the state.** An analysis that answers with a result takes the analyzer
    out of service exactly if the result is a failure of one of three kinds. -/
theorem analyze_retires_iff {r : Result} (h : (analyze s host files .enabled l).result = .ok r) :
    (∃ reason, (analyze s host files .enabled l).state = .disabled reason) ↔
      r.status = .failed ∧ ∃ f, r.failure = some f ∧
        f.kind ∈ [ErrorKind.launchFailure, .transport, .initialization] := by
  cases hp : shouldProcess files l.path with
  | false =>
    rw [analyze_of_skipped hp] at h ⊢
    have hr : Result.of l .skipped = r := Except.ok.inj h
    simp [← hr, Result.of]
  | true =>
    cases hr : (run s host files l.path).halt with
    | none =>
      rw [analyze_of_finished hp hr] at h ⊢
      have hr' := Except.ok.inj h
      simp [← hr']
    | some halt =>
      rw [analyze_of_halted hp hr] at h ⊢
      obtain ⟨kind, message, rfl, hiff⟩ := judge_result h
      rw [hiff, disables_iff]
      constructor
      · intro hk
        exact ⟨rfl, _, rfl, hk⟩
      · rintro ⟨-, f, hf, hk⟩
        rw [← Option.some.inj hf] at hk
        exact hk

/-- An analysis that answers with no result leaves the analyzer in service. -/
theorem analyze_state_of_error {t : Trouble}
    (h : (analyze s host files .enabled l).result = .error t) :
    (analyze s host files .enabled l).state = .enabled := by
  cases hp : shouldProcess files l.path with
  | false =>
    rw [analyze_of_skipped hp] at h
    cases h
  | true =>
    cases hr : (run s host files l.path).halt with
    | none =>
      rw [analyze_of_finished hp hr] at h
      cases h
    | some halt =>
      rw [analyze_of_halted hp hr] at h ⊢
      exact judge_state_of_error h

end Analysis

/-! ## Steps and runs -/

namespace Session

variable {s : Settings}

/-- **One step goes forward.** -/
theorem leads_perform (x : Session) (a : Step) : x.state.Leads (perform s x a).after.state := by
  unfold perform
  split
  · exact Analysis.leads_prepare x.state
  · exact Analysis.leads_analyze x.state
  · exact Lifecycle.leads_disable _ _ x.state

/-- A step of an analyzer that is out of service changes nothing and does nothing. -/
theorem perform_of_disabled {x : Session} {reason : String} (h : x.state = .disabled reason)
    (a : Step) :
    (perform s x a).after = x ∧ (perform s x a).trace = .empty := by
  obtain ⟨state, evidence⟩ := x
  subst h
  unfold perform
  split
  · rw [Analysis.prepare_of_disabled]
    exact ⟨rfl, rfl⟩
  · rw [Analysis.analyze_of_not_enabled (by simp)]
    exact ⟨by simp, rfl⟩
  · exact ⟨rfl, rfl⟩

/-- A run of an analyzer that is out of service changes nothing and does nothing. -/
theorem events_of_disabled {x : Session} {reason : String} (h : x.state = .disabled reason)
    (steps : List Step) : ∀ e ∈ events s x steps, e.after = x ∧ e.trace = .empty := by
  induction steps with
  | nil => simp [events]
  | cons a r ih =>
    obtain ⟨hafter, htrace⟩ := perform_of_disabled (s := s) h a
    intro e he
    rcases List.mem_cons.mp he with rfl | he
    · exact ⟨hafter, htrace⟩
    · rw [hafter] at he
      exact ih e he

/-- Every state of a run is one that the state before it leads to. -/
theorem states_pairwise (x : Session) (steps : List Step) :
    (x.state :: (events s x steps).map (·.after.state)).Pairwise State.Leads := by
  induction steps generalizing x with
  | nil => simp [events]
  | cons a r ih =>
    have hr := ih (perform s x a).after
    have hstep := leads_perform (s := s) x a
    simp only [events, List.map_cons]
    refine List.pairwise_cons.mpr ⟨?_, hr⟩
    intro t ht
    rcases List.mem_cons.mp ht with rfl | ht
    · exact hstep
    · exact hstep.trans ((List.pairwise_cons.mp hr).1 t ht)

/-- What follows an event in a run is a run that starts from the session after it. -/
theorem events_after {x : Session} {steps : List Step} {pre post : List Event} {e : Event}
    (h : events s x steps = pre ++ e :: post) : ∃ rest, post = events s e.after rest := by
  induction steps generalizing x pre with
  | nil => simp [events] at h
  | cons a r ih =>
    cases pre with
    | nil =>
      obtain ⟨rfl, rfl⟩ := List.cons.inj h
      exact ⟨r, rfl⟩
    | cons f pre => exact ih (List.cons.inj h).2

/-- **The life of an analyzer.** In any run, whatever the files are and whatever the hosts do:
    the states only go forward; once the analyzer is out of service nothing changes any more, nothing
    is launched and nothing is posted; an analysis that finds the analyzer not in service answers so and
    has no effect; and an analysis that finds it in service takes it out of service exactly if it
    answers with a failure to launch, to reach the advisory service or to initialize, and never if it
    is interrupted. -/
theorem states_go_forward (s : Settings) (x : Session) (steps : List Step) :
    (x.state :: (events s x steps).map (·.after.state)).Pairwise State.Leads ∧
    (∀ pre e post reason, events s x steps = pre ++ e :: post → e.after.state = .disabled reason →
      ∀ f ∈ post, f.after.state = .disabled reason ∧ f.after.evidence = e.after.evidence ∧
        f.trace.launches = [] ∧ f.trace.posts = []) ∧
    (∀ e ∈ events s x steps, ∀ record l, e.step.request = .analyze record l →
      e.before.state ≠ .enabled →
        e.answer = .result (.ok ⟨l, .disabled, [], none, Analysis.noTime⟩) ∧ e.after = e.before ∧
          e.files = e.step.files ∧ e.trace = .empty) ∧
    (∀ e ∈ events s x steps, ∀ record l, e.step.request = .analyze record l →
      e.before.state = .enabled →
        (∀ r, e.answer = .result (.ok r) →
          ((∃ reason, e.after.state = .disabled reason) ↔
            r.status = .failed ∧ ∃ f, r.failure = some f ∧
              f.kind ∈ [ErrorKind.launchFailure, .transport, .initialization])) ∧
        (∀ t, e.answer = .result (.error t) → e.after.state = .enabled)) := by
  refine ⟨states_pairwise x steps, ?_, ?_, ?_⟩
  · -- What follows is a run of its own, from a session that is out of service.
    intro pre e post reason hsplit he f hf
    obtain ⟨rest, rfl⟩ := events_after hsplit
    obtain ⟨hafter, htrace⟩ := events_of_disabled he rest f hf
    rw [hafter, htrace]
    exact ⟨he, rfl, rfl, rfl⟩
  · intro e he record l hreq hstate
    rw [mem_events_perform he, perform_of_analyze hreq, Analysis.analyze_of_not_enabled hstate,
      attach_nil]
    exact ⟨rfl, rfl, rfl, rfl⟩
  · intro e he record l hreq hstate
    rw [mem_events_perform he, perform_of_analyze hreq, hstate]
    refine ⟨?_, ?_⟩
    · intro r hr
      exact Analysis.analyze_retires_iff (Answer.result.inj hr)
    · intro t ht
      exact Analysis.analyze_state_of_error (Answer.result.inj ht)

end Session

end LockAudit
