import LockAudit.Proofs.Batch.Schedule

/-!
# `LockAudit.Proofs.Batch.Outcome` — what analyses at the same time come to

Which of the analyses of a pool are turned away is decided by the order of their events, and by nothing
else.

* `firstReason_eq_some_iff`, `firstReason_ne_none_iff` — the reason for which the analyzer goes out of
  service is that of the first failure to finish.
* `done_cases` — an analysis comes to what it comes to on its own, unless such a failure had finished
  before it started; then it is turned away.
-/

namespace LockAudit

open Lifecycle (State)
open Analysis

/-! ## Failures -/

namespace Analysis

variable {a b : Analysis} {f : Failure}

theorem Agrees.retires (h : a.Agrees b) (hb : b.Retires f) : a.Retires f := by
  obtain ⟨r, hr, hf⟩ := hb
  exact ⟨r, h.result.trans hr, hf⟩

theorem Agrees.symm (h : a.Agrees b) : b.Agrees a :=
  ⟨h.result.symm, h.attached.symm, h.launches.symm, h.posts.symm, h.files.symm⟩

theorem TurnedAway.not_retires {l : Lockfile} {files : FileTree} (h : TurnedAway l files a) :
    ¬ a.Retires f := by
  rintro ⟨r, hr, hf, -⟩
  rw [← Except.ok.inj (h.result.symm.trans hr)] at hf
  cases hf

end Analysis

namespace Job

variable {s : Settings} {j : Job} {seen now : State}

theorem turnedAway_of_not_enabled (h : seen ≠ .enabled) :
    TurnedAway j.lockfile j.files (j.finish s seen now) := by
  rw [finish_of_not_enabled h]
  exact ⟨rfl, rfl, rfl, rfl, rfl⟩

/-- An analysis by an analyzer in service is not turned away. -/
theorem status_alone {r : Result} (h : (j.alone s).result = .ok r) : r.status ≠ .disabled := by
  unfold alone at h
  cases hp : shouldProcess j.files j.lockfile.path with
  | false =>
    rw [analyze_of_skipped hp] at h
    rw [← Except.ok.inj h]
    simp [Result.of]
  | true =>
    cases hr : (run s j.host j.files j.lockfile.path).halt with
    | none =>
      rw [analyze_of_finished hp hr] at h
      rw [← Except.ok.inj h]
      simp
    | some halt =>
      rw [analyze_of_halted hp hr] at h
      obtain ⟨kind, message, rfl, -⟩ := judge_result h
      simp

end Job

namespace Pool

variable {s : Settings} {jobs : Nat → Job} {n : Nat} {evidence : Nat → List Evidence} {es : List Event}
  {p : Pool}

/-- A list without repetitions is cut at an element in one way. -/
theorem eq_of_split {α : Type} {pre post pre' post' : List α} {x : α}
    (hn : (pre ++ x :: post).Nodup) (h : pre ++ x :: post = pre' ++ x :: post') : pre = pre' := by
  have hx := (List.nodup_cons.mp (List.nodup_middle.mp hn)).1
  rw [List.mem_append, not_or] at hx
  exact ((List.append_cons_inj_of_notMem hx.1 hx.2).mp h).1

/-- A failure that takes the analyzer out of service is among those that have finished. -/
def Retired (p : Pool) (es : List Event) : Prop :=
  ∃ i a f, .finished i ∈ es ∧ p.done i = some a ∧ a.Retires f

/-- Such a failure had finished before an analysis started. -/
def RetiredBefore (p : Pool) (es : List Event) (i : Nat) : Prop :=
  ∃ pre post, es = pre ++ .started i :: post ∧ p.Retired pre

/-- The first of such failures to finish. -/
def FirstToRetire (p : Pool) (es : List Event) (f : Failure) : Prop :=
  ∃ pre i post a, es = pre ++ .finished i :: post ∧ ¬ p.Retired pre ∧ p.done i = some a ∧ a.Retires f

namespace Follows

variable (h : Follows s jobs n evidence es p)
include h

/-- A failure that takes the analyzer out of service is one of an analysis that was not turned away. -/
theorem reason?_of_retires {i : Nat} {a : Analysis} {f : Failure} (hd : p.done i = some a)
    (hf : a.Retires f) : (jobs i).reason? s = some f.reason := by
  obtain ⟨pre, mid, post, -, rfl⟩ := h.done i a hd
  -- The state is the one it read when it started.
  by_cases he : stateAfter s jobs pre = .enabled
  · rw [he] at hf
    exact Job.reason?_eq_some_iff.mpr ⟨f, (Job.finish_agrees _ _).symm.retires hf, rfl⟩
  · exact absurd hf (Job.turnedAway_of_not_enabled he).not_retires

/-- The first finish that gives a reason is that of an analysis that was not turned away. -/
theorem retires_of_first {pre post : List Event} {i : Nat} {reason : String}
    (hes : es = pre ++ .finished i :: post) (hpre : firstReason s jobs pre = none)
    (hreason : (jobs i).reason? s = some reason) :
    ∃ a f, p.done i = some a ∧ a.Retires f ∧ f.reason = reason := by
  cases hd : p.done i with
  | none => exact absurd (hes ▸ by simp) (h.not_finished i hd)
  | some a =>
    obtain ⟨pre', mid, post', hes', ha⟩ := h.done i a hd
    have hcut : pre ++ .finished i :: post = (pre' ++ .started i :: mid) ++ .finished i :: post' := by
      rw [← hes, hes', List.append_assoc]
      rfl
    have hsplit : pre = pre' ++ .started i :: mid := eq_of_split (hes ▸ h.nodup) hcut
    -- No reason was given before its finish, and so none before its start.
    have hseen : stateAfter s jobs pre' = .enabled := by
      rw [stateAfter_eq_enabled]
      rw [hsplit, firstReason_append] at hpre
      exact (Option.or_eq_none_iff.mp hpre).1
    obtain ⟨f, hf, hfreason⟩ := Job.reason?_eq_some_iff.mp hreason
    rw [hseen] at ha
    exact ⟨a, f, rfl, ha ▸ (Job.finish_agrees _ _).retires hf, hfreason⟩

/-- Up to any of its events, a pool gives a reason exactly if a failure gave it. -/
theorem firstReason_ne_none_iff {xs ys : List Event} (hes : es = xs ++ ys) :
    firstReason s jobs xs ≠ none ↔ p.Retired xs := by
  constructor
  · intro hne
    obtain ⟨reason, hreason⟩ := Option.ne_none_iff_exists'.mp hne
    obtain ⟨pre, e, post, rfl, he, hpre⟩ := List.findSome?_eq_some_iff.mp hreason
    cases e with
    | started i => cases he
    | finished i =>
      have hfirst : firstReason s jobs pre = none := List.findSome?_eq_none_iff.mpr hpre
      have hcut : es = pre ++ .finished i :: (post ++ ys) := by simp [hes]
      obtain ⟨a, f, hd, hf, -⟩ := h.retires_of_first hcut hfirst he
      exact ⟨i, a, f, by simp, hd, hf⟩
  · rintro ⟨i, a, f, hi, hd, hf⟩ hnone
    have he : Event.reason? s jobs (.finished i) = none := List.findSome?_eq_none_iff.mp hnone _ hi
    rw [Event.reason?, h.reason?_of_retires hd hf] at he
    cases he

/-- **The reason is that of the first failure to finish.** -/
theorem firstReason_eq_some_iff {reason : String} :
    firstReason s jobs es = some reason ↔ ∃ f, p.FirstToRetire es f ∧ f.reason = reason := by
  constructor
  · intro hreason
    obtain ⟨pre, e, post, hes, he, hpre⟩ := List.findSome?_eq_some_iff.mp hreason
    cases e with
    | started i => cases he
    | finished i =>
      have hfirst : firstReason s jobs pre = none := List.findSome?_eq_none_iff.mpr hpre
      obtain ⟨a, f, hd, hf, hfreason⟩ := h.retires_of_first hes hfirst he
      have hnot : ¬ p.Retired pre := fun hr => (h.firstReason_ne_none_iff hes).mpr hr hfirst
      exact ⟨f, ⟨pre, i, post, a, hes, hnot, hd, hf⟩, hfreason⟩
  · rintro ⟨f, ⟨pre, i, post, a, hes, hnot, hd, hf⟩, rfl⟩
    have hfirst : firstReason s jobs pre = none := by
      cases hpre : firstReason s jobs pre with
      | none => rfl
      | some reason =>
        have hne : firstReason s jobs pre ≠ none := by simp [hpre]
        exact absurd ((h.firstReason_ne_none_iff hes).mp hne) hnot
    have hi : Event.reason? s jobs (.finished i) = some f.reason := h.reason?_of_retires hd hf
    rw [hes, firstReason_append, hfirst, Option.none_or, firstReason, List.findSome?_cons, hi]

/-- An analysis starts once, so what had finished before it started is what had finished by then. -/
theorem retiredBefore_iff {pre post : List Event} {i : Nat} (hes : es = pre ++ .started i :: post) :
    p.RetiredBefore es i ↔ p.Retired pre := by
  constructor
  · rintro ⟨pre', post', hes', hr⟩
    rw [eq_of_split (hes ▸ h.nodup) (hes.symm.trans hes')]
    exact hr
  · exact fun hr => ⟨pre, post, hes, hr⟩

/-- **An analysis is turned away, or it comes to what it comes to on its own**, by whether a failure had
    taken the analyzer out of service before it started. -/
theorem done_cases {i : Nat} {a : Analysis} (hd : p.done i = some a) :
    (p.RetiredBefore es i ∧ TurnedAway (jobs i).lockfile (jobs i).files a) ∨
    (¬ p.RetiredBefore es i ∧ a.Agrees ((jobs i).alone s)) := by
  obtain ⟨pre, mid, post, hes, rfl⟩ := h.done i a hd
  rw [h.retiredBefore_iff hes, ← h.firstReason_ne_none_iff hes]
  by_cases hnone : firstReason s jobs pre = none
  · rw [stateAfter_eq_enabled.mpr hnone]
    exact .inr ⟨not_not_intro hnone, Job.finish_agrees _ _⟩
  · exact .inl ⟨hnone, Job.turnedAway_of_not_enabled (mt stateAfter_eq_enabled.mp hnone)⟩

/-- The analyzer is out of service for the reason of the first failure to finish. -/
theorem state_eq_disabled_iff {reason : String} :
    p.state = .disabled reason ↔ ∃ f, p.FirstToRetire es f ∧ f.reason = reason := by
  rw [← h.firstReason_eq_some_iff, h.state, stateAfter]
  cases firstReason s jobs es <;> simp

theorem state_eq_enabled_iff : p.state = .enabled ↔ ¬ p.Retired es := by
  rw [← h.firstReason_ne_none_iff (List.append_nil es).symm, h.state, stateAfter_eq_enabled,
    not_ne_iff]

end Follows

end Pool

end LockAudit
