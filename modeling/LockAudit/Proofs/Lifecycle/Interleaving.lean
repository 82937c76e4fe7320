import LockAudit.Proofs.Lifecycle.Threads

/-!
# `LockAudit.Proofs.Lifecycle.Interleaving` — what threads can rely on

Whatever threads ask of one analyzer, in whatever order their steps come, and whatever the commands of
their probes come to, the analyzer has one life. The state changes in the section of an operation and
nowhere else, so the first two facts are about single steps:

* `Step.leads` — a step goes forward; `Step.reason` — a reason is given by the first section that takes
  the analyzer out of service, and by no other step.

The others need to know where the threads are:

* `Guarded` — who holds the probe lock. `Guarded.running_until_ended`: a command runs alone.
* `Fits` — what a thread has seen of the state is still true.
* `Told` — the one warning is due, or said, exactly if the analyzer is out of service.
* `Settled` — a command has said whether it is there; no probe starts one again.

`interleavings_agree` puts them together, and `exists_step` says that no thread waits for ever.
-/

namespace LockAudit.Lifecycle.Threads

variable {name : String} {x y z : Shared} {e : Event} {ms : List Moment} {t : Nat} {k : Control}

/-- What can be told of the places of all threads is the same after a move that does not touch it. -/
theorem move_congr {α : Type} (g : Control → α) (h : g k = g (x.control t)) (u : Nat) :
    g ((x.move t k).control u) = g (x.control u) := by
  by_cases hu : u = t
  · rw [hu, Shared.move_control_self, h]
  · rw [Shared.move_control_of_ne x t k hu]

/-! ## The state -/

/-- Nothing leads back to where no probe has been. -/
theorem eq_unprobed_of_leads {s s' : State} (h : s.Leads s') (hs : s' = .unprobed) : s = .unprobed := by
  subst hs
  cases h
  rfl

theorem Operation.leads_change (name : String) (s : State) (o : Operation) :
    s.Leads (o.change name s).state := by
  cases o with
  | look => exact .stay s
  | enable => exact leads_enable name s
  | disable reason => exact leads_disable name reason s

/-- **A step goes forward.** -/
theorem Step.leads (h : Step name x e y) : x.state.Leads y.state := by
  cases h with
  | enter => exact Operation.leads_change name x.state _
  | _ => exact .stay _

theorem Run.leads (h : Run name x ms z) : x.state.Leads z.state := by
  induction h with
  | stop x => exact .stay _
  | step hstep _ ih => exact hstep.leads.trans ih

/-- Every state of a run is one that the states before it lead to. -/
theorem Run.states_pairwise (h : Run name x ms z) :
    (x.state :: ms.map (·.after.state)).Pairwise State.Leads := by
  induction h with
  | stop x => simp
  | @step x y z e ms hstep hrest ih =>
    rw [List.map_cons]
    refine List.pairwise_cons.mpr ⟨?_, ih⟩
    intro s hs
    rcases List.mem_cons.mp hs with rfl | hs
    · exact hstep.leads
    · exact hstep.leads.trans ((List.pairwise_cons.mp ih).1 s hs)

/-- The reason with which a section takes the analyzer out of service, if it is in service. -/
def Event.disabling : Event → Option String
  | .entered _ (.disable reason) => some reason
  | _ => none

/-- **A step gives a reason** exactly if it is a section that takes the analyzer out of service and there
    is no reason yet. -/
theorem Step.reason (h : Step name x e y) : y.state.reason = x.state.reason.or e.disabling := by
  cases h with
  | @enter t o f h =>
    simp only [Shared.move_state, Shared.put_state]
    cases o with
    | look => simp [Operation.change, Event.disabling]
    | enable => cases x.state <;> rfl
    | disable reason => cases x.state <;> rfl
  | _ => simp [Event.disabling]

theorem Run.reason (h : Run name x ms z) :
    z.state.reason = x.state.reason.or ((eventsOf ms).findSome? Event.disabling) := by
  induction h with
  | stop x => simp [eventsOf]
  | @step x y z e ms hstep hrest ih =>
    rw [ih, hstep.reason, Option.or_assoc]
    cases hd : e.disabling <;> simp [eventsOf, hd]

/-! ## The probe lock -/

/-- Whether a call is made by a probe. -/
def Frame.isProbing {o : Operation} : Frame o → Bool
  | .thread => false
  | _ => true

/-- Whether a thread is in a probe, past the probe lock. -/
def Control.isProbing : Control → Bool
  | .idle | .queueing _ => false
  | .entering _ f | .warning _ _ f | .rereading _ f | .returning _ _ f => f.isProbing
  | .starting _ | .running _ | .leaving _ _ => true

theorem Call.isProbing_begin (c : Call) : c.begin.isProbing = false := by
  cases c <;> rfl

theorem isProbing_settle (o : Operation) (c : Change) (f : Frame o) :
    (settle o c f).isProbing = f.isProbing := by
  unfold settle
  split <;> rfl

theorem Frame.isProbing_resume {o : Operation} (s : State) (f : Frame o) :
    (f.resume s).isProbing = f.isProbing := by
  cases f with
  | check q =>
    show (if needsProbe s then Control.starting q else .leaving q (.ok s)).isProbing = true
    split <;> rfl
  | _ => rfl

theorem Query.isProbing_plan (name : String) (q : Query) (o : Program.Outcome) :
    (q.plan name o).isProbing = true := by
  rcases q.plan_cases name o with h | ⟨trouble, h⟩ | ⟨-, trouble, h⟩ <;> rw [h] <;> rfl

/-- The thread that holds the probe lock is the only one in a probe. -/
def Guarded (x : Shared) : Prop := ∀ t, (x.control t).isProbing = true ↔ x.holder = some t

theorem guarded_start : Guarded .start := by
  intro t
  simp [Shared.start, Control.isProbing]

theorem Guarded.unique (h : Guarded x) {t u : Nat} (ht : (x.control t).isProbing = true)
    (hu : (x.control u).isProbing = true) : t = u :=
  Option.some.inj (((h t).mp ht).symm.trans ((h u).mp hu))

theorem Guarded.move (h : Guarded x) (hk : k.isProbing = (x.control t).isProbing) :
    Guarded (x.move t k) := by
  intro u
  rw [move_congr Control.isProbing hk u, Shared.move_holder]
  exact h u

theorem Guarded.step (hg : Guarded x) (h : Step name x e y) : Guarded y := by
  cases h with
  | call c h => exact hg.move (by rw [h, Call.isProbing_begin]; rfl)
  | @acquire t q h hfree =>
    intro u
    by_cases hu : u = t
    · simp [hu, Control.isProbing, Frame.isProbing]
    · -- With the lock free, no other thread is in a probe.
      have hout : (x.control u).isProbing = false := by
        have := hg u
        rw [hfree] at this
        simpa using this
      rw [Shared.move_control_of_ne _ _ _ hu, Shared.hold_control, hout]
      simp [Ne.symm hu]
  | @enter t o f h =>
    have hput : Guarded (x.put (o.change name x.state).state) := hg
    exact hput.move (by rw [isProbing_settle, Shared.put_control, h]; rfl)
  | warn h => exact hg.move (by rw [h]; rfl)
  | reread h => exact hg.move (by rw [h]; rfl)
  | giveBack h => exact hg.move (by rw [h, Frame.isProbing_resume]; rfl)
  | launch h => exact hg.move (by rw [h]; rfl)
  | finish h o => exact hg.move (by rw [h, Query.isProbing_plan]; rfl)
  | @leave t q a h =>
    intro u
    have ht : (x.control t).isProbing = true := by rw [h]; rfl
    by_cases hu : u = t
    · simp [hu, Control.isProbing]
    · have hout : (x.control u).isProbing ≠ true := fun hin => hu (hg.unique hin ht)
      rw [Shared.move_control_of_ne _ _ _ hu, Shared.hold_control]
      simp [hout]

theorem Guarded.run (hg : Guarded x) (h : Run name x ms z) : Guarded z := by
  induction h with
  | stop x => exact hg
  | step hstep _ ih => exact ih (hg.step hstep)

/-- A thread stays where it is while others step. -/
def Event.thread : Event → Nat
  | .called t _ | .acquired t | .entered t _ | .warned t _ | .reread t | .returned t _ _
  | .launched t _ | .ended t _ | .answered t _ _ => t

theorem Step.control_of_ne (h : Step name x e y) (ht : e.thread ≠ t) : y.control t = x.control t := by
  cases h <;> exact Shared.move_control_of_ne _ _ _ (Ne.symm ht)

/-- **A command runs until it ends**: as long as the end is not seen, the thread is where it was. -/
theorem Run.running_until_ended {q : Query} (h : Run name x ms z) (ht : x.control t = .running q)
    (hends : ∀ o, .ended t o ∉ eventsOf ms) : z.control t = .running q := by
  induction h with
  | stop x => exact ht
  | @step x y z e ms hstep hrest ih =>
    have hrestEnds : ∀ o, .ended t o ∉ eventsOf ms := fun o ho => hends o (List.mem_cons_of_mem _ ho)
    refine ih ?_ hrestEnds
    by_cases hu : e.thread = t
    · subst hu
      cases hstep with
      | finish h o => exact absurd List.mem_cons_self (hends o)
      | call c h => cases h.symm.trans ht
      | acquire h => cases h.symm.trans ht
      | _ h => cases h.symm.trans ht
    · rw [hstep.control_of_ne hu, ht]

/-- Between two launches the first command has ended. -/
theorem ended_between_launches (hg : Guarded x) (h : Run name x ms z) {pre mid post : List Event}
    {u : Nat} {l l' : Program.Launch}
    (hms : eventsOf ms = pre ++ .launched t l :: (mid ++ .launched u l' :: post)) :
    ∃ o, .ended t o ∈ mid := by
  by_contra hnone
  have hends : ∀ o, .ended t o ∉ mid := not_exists.mp hnone
  obtain ⟨before, after, w, w', -, hafter, hrun, hlaunch, hrest⟩ := h.split_events hms
  obtain ⟨between, rest, v, v', rfl, -, hbetween, hlaunch', -⟩ := hrest.split_events hafter
  have hguard : Guarded v := ((hg.run hrun).step hlaunch).run hbetween
  cases hlaunch with
  | @launch _ q hstart =>
    -- The first thread is still running its command, so the second is not at the start of one.
    have hrunning : v.control t = .running q :=
      hbetween.running_until_ended (Shared.move_control_self _ _ _) hends
    cases hlaunch' with
    | launch hstart' =>
      have htu : t = u := hguard.unique (by rw [hrunning]; rfl) (by rw [hstart']; rfl)
      subst htu
      cases hrunning.symm.trans hstart'

/-! ## What threads have seen -/

/-- What the state is like that an operation returns. -/
def Operation.Yields (v : State) : Operation → Prop
  | .look => True
  | .enable => v ≠ .unprobed
  | .disable _ => ∃ reason, v = .disabled reason

/-- What a thread has seen of the state is still true of it, as far as the state goes on. -/
def Control.Fits (s : State) : Control → Prop
  | .warning _ _ _ | .rereading _ _ => ∃ reason, s = .disabled reason
  | .returning o v _ => o.Yields v ∧ v.Leads s
  | .leaving _ (.ok v) => v ≠ .unprobed
  | _ => True

theorem Operation.yields_of_disabled (reason : String) (o : Operation) :
    o.Yields (.disabled reason) := by
  cases o with
  | look => trivial
  | enable => exact State.noConfusion
  | disable r => exact ⟨reason, rfl⟩

theorem Operation.yields_change (name : String) (s : State) (o : Operation) :
    o.Yields (o.change name s).state := by
  cases o with
  | look => trivial
  | enable => cases s <;> exact State.noConfusion
  | disable r => cases s <;> exact ⟨_, rfl⟩

/-- The warning that an analyzer is out of service. -/
def retired (name reason : String) : Log.Entry :=
  ⟨.warning, "The " ++ name ++ " has been disabled. " ++ reason⟩

/-- Only an operation that takes the analyzer out of service has something to warn of. -/
theorem Operation.find_alert (name : String) (s : State) (o : Operation) :
    ((o.change name s).state.reason = s.reason ∧
      (o.change name s).logs.find? Log.Entry.isAlert = none) ∨
    ∃ reason, s.reason = none ∧ (o.change name s).state = .disabled reason ∧
      (o.change name s).logs.find? Log.Entry.isAlert = some (retired name reason) := by
  cases o with
  | look => exact .inl ⟨rfl, rfl⟩
  | enable => cases s <;> exact .inl ⟨rfl, rfl⟩
  | disable reason =>
    cases s with
    | disabled first => exact .inl ⟨rfl, rfl⟩
    | _ => exact .inr ⟨reason, rfl, rfl, rfl⟩

theorem Control.Fits.mono {s s' : State} (h : k.Fits s) (hs : s.Leads s') : k.Fits s' := by
  cases k with
  | warning o e f =>
    obtain ⟨reason, rfl⟩ := h
    exact ⟨reason, hs.of_disabled⟩
  | rereading o f =>
    obtain ⟨reason, rfl⟩ := h
    exact ⟨reason, hs.of_disabled⟩
  | returning o v f => exact ⟨h.1, h.2.trans hs⟩
  | leaving q a => cases a <;> exact h
  | _ => trivial

theorem fits_begin (c : Call) (s : State) : c.begin.Fits s := by
  cases c <;> trivial

theorem fits_settle (name : String) (s : State) (o : Operation) (f : Frame o) :
    (settle o (o.change name s) f).Fits (o.change name s).state := by
  unfold settle
  rcases o.find_alert name s with ⟨-, hnone⟩ | ⟨reason, -, hstate, hsome⟩
  · rw [hnone]
    exact ⟨o.yields_change name s, .stay _⟩
  · rw [hsome]
    exact ⟨reason, hstate⟩

theorem fits_resume {s v : State} {o : Operation} (f : Frame o) (hv : o.Yields v) :
    (f.resume v).Fits s := by
  cases f with
  | thread => trivial
  | check q => cases v with
    | unprobed => trivial
    | enabled => exact State.noConfusion
    | disabled reason => exact State.noConfusion
  | conclude q => exact hv
  | raise q trouble => trivial

theorem fits_plan (name : String) (q : Query) (o : Program.Outcome) (s : State) :
    (q.plan name o).Fits s := by
  rcases q.plan_cases name o with h | ⟨trouble, h⟩ | ⟨-, trouble, h⟩ <;> rw [h] <;> trivial

/-- What any thread has seen of the state fits the state. -/
def Fits (x : Shared) : Prop := ∀ t, (x.control t).Fits x.state

theorem fits_start : Fits .start := fun _ => trivial

theorem Fits.put {s : State} (h : Fits x) (hs : x.state.Leads s) : Fits (x.put s) :=
  fun u => (h u).mono hs

theorem Fits.move (h : Fits x) (hk : k.Fits x.state) : Fits (x.move t k) := by
  intro u
  by_cases hu : u = t
  · rw [hu, Shared.move_control_self]
    exact hk
  · rw [Shared.move_control_of_ne x t k hu]
    exact h u

theorem Fits.step (hf : Fits x) (h : Step name x e y) : Fits y := by
  cases h with
  | call c h => exact hf.move (fits_begin c _)
  | @acquire t q h hfree =>
    have hhold : Fits (x.hold (some t)) := hf
    exact hhold.move trivial
  | @enter t o f h =>
    exact (hf.put (o.leads_change name x.state)).move (fits_settle name x.state o f)
  | @warn t o e f h =>
    have hseen := hf t
    rw [h] at hseen
    exact hf.move hseen
  | @reread t o f h =>
    have hseen := hf t
    rw [h] at hseen
    obtain ⟨reason, hs⟩ := hseen
    refine hf.move ⟨?_, .stay _⟩
    rw [hs]
    exact o.yields_of_disabled reason
  | @giveBack t o s f h =>
    have hseen := hf t
    rw [h] at hseen
    exact hf.move (fits_resume f hseen.1)
  | launch h => exact hf.move trivial
  | @finish t q h o => exact hf.move (fits_plan name q o _)
  | @leave t q a h =>
    have hhold : Fits (x.hold none) := hf
    exact hhold.move trivial

theorem Fits.run (hf : Fits x) (h : Run name x ms z) : Fits z := by
  induction h with
  | stop x => exact hf
  | step hstep _ ih => exact ih (hf.step hstep)

/-! ## The warning -/

/-- What a thread is about to warn of. -/
def Control.due : Control → Option Log.Entry
  | .warning _ e _ => some e
  | _ => none

theorem due_begin (c : Call) : c.begin.due = none := by
  cases c <;> rfl

theorem due_settle (o : Operation) (c : Change) (f : Frame o) :
    (settle o c f).due = c.logs.find? Log.Entry.isAlert := by
  unfold settle
  cases c.logs.find? Log.Entry.isAlert <;> rfl

theorem due_resume {o : Operation} (s : State) (f : Frame o) : (f.resume s).due = none := by
  cases f with
  | check q => cases s <;> rfl
  | _ => rfl

theorem due_plan (name : String) (q : Query) (o : Program.Outcome) :
    (q.plan name o).due = none := by
  rcases q.plan_cases name o with h | ⟨trouble, h⟩ | ⟨-, trouble, h⟩ <;> rw [h] <;> rfl

/-- What has been said by now: nothing, as long as the analyzer is in service; then one thread is about
    to say that it is not; then that has been said, once. -/
inductive Told (name : String) (x : Shared) : List Log.Entry → Prop
  | quiet (hs : x.state.reason = none) (hdue : ∀ t, (x.control t).due = none) : Told name x []
  | due {reason : String} {t : Nat} (hs : x.state.reason = some reason)
      (ht : (x.control t).due = some (retired name reason))
      (hdue : ∀ u, u ≠ t → (x.control u).due = none) : Told name x []
  | said {reason : String} (hs : x.state.reason = some reason)
      (hdue : ∀ t, (x.control t).due = none) : Told name x [retired name reason]

variable {told : List Log.Entry}

theorem told_start (name : String) : Told name .start [] :=
  .quiet rfl fun _ => rfl

/-- Only the reason and what is due count. -/
theorem Told.congr (h : Told name x told) (hs : y.state.reason = x.state.reason)
    (hdue : ∀ t, (y.control t).due = (x.control t).due) : Told name y told := by
  cases h with
  | quiet hreason hnone => exact .quiet (hs.trans hreason) fun t => (hdue t).trans (hnone t)
  | due hreason ht hnone =>
    exact .due (hs.trans hreason) ((hdue _).trans ht) fun u hu => (hdue u).trans (hnone u hu)
  | said hreason hnone => exact .said (hs.trans hreason) fun t => (hdue t).trans (hnone t)

theorem Told.move (h : Told name x told) (hk : k.due = (x.control t).due) :
    Told name (x.move t k) told :=
  h.congr rfl (move_congr Control.due hk)

/-- **The warning becomes due once, and is said once.** -/
theorem Told.step (ht : Told name x told) (h : Step name x e y) :
    Told name y (told ++ e.alert?.toList) := by
  cases h with
  | call c h => simpa [Event.alert?] using ht.move (by rw [due_begin, h]; rfl)
  | @acquire t q h hfree =>
    have hhold : Told name (x.hold (some t)) told := ht.congr rfl fun _ => rfl
    simpa [Event.alert?] using hhold.move (by rw [Shared.hold_control, h]; rfl)
  | @enter t o f h =>
    rw [show (Event.entered t o).alert?.toList = [] from rfl, List.append_nil]
    rcases o.find_alert name x.state with ⟨hreason, hnone⟩ | ⟨reason, hopen, hstate, hsome⟩
    · have hput : Told name (x.put (o.change name x.state).state) told := ht.congr hreason fun _ => rfl
      exact hput.move (by rw [due_settle, hnone, Shared.put_control, h]; rfl)
    · -- In service, nothing has been said and nothing is due.
      cases ht with
      | quiet hs hdue =>
        refine .due (t := t) (?_ : _ = some reason) ?_ ?_
        · rw [Shared.move_state, Shared.put_state, hstate]
          rfl
        · rw [Shared.move_control_self, due_settle, hsome]
        · intro u hu
          rw [Shared.move_control_of_ne _ _ _ hu]
          exact hdue u
      | due hs => cases hs.symm.trans hopen
      | said hs => cases hs.symm.trans hopen
  | @warn t o e f h =>
    have hdue : (x.control t).due = some e := by rw [h]; rfl
    cases ht with
    | quiet hs hnone => cases hdue.symm.trans (hnone t)
    | said hs hnone => cases hdue.symm.trans (hnone t)
    | @due reason u hs hu hnone =>
      have htu : t = u := by
        by_contra hne
        cases hdue.symm.trans (hnone t hne)
      subst htu
      cases hdue.symm.trans hu
      refine .said hs fun v => ?_
      by_cases hv : v = t
      · rw [hv, Shared.move_control_self]
        rfl
      · rw [Shared.move_control_of_ne _ _ _ hv]
        exact hnone v hv
  | reread h => simpa [Event.alert?] using ht.move (by rw [h]; rfl)
  | giveBack h => simpa [Event.alert?] using ht.move (by rw [due_resume, h]; rfl)
  | launch h => simpa [Event.alert?] using ht.move (by rw [h]; rfl)
  | finish h o => simpa [Event.alert?] using ht.move (by rw [due_plan, h]; rfl)
  | @leave t q a h =>
    have hhold : Told name (x.hold none) told := ht.congr rfl fun _ => rfl
    simpa [Event.alert?] using hhold.move (by rw [Shared.hold_control, h]; rfl)

theorem Told.run (ht : Told name x told) (h : Run name x ms z) :
    Told name z (told ++ alerts (eventsOf ms)) := by
  induction h generalizing told with
  | stop x => simpa [alerts, eventsOf] using ht
  | @step x y z e ms hstep _ ih =>
    have halerts : alerts (eventsOf (⟨e, y⟩ :: ms)) = e.alert?.toList ++ alerts (eventsOf ms) := by
      cases ha : e.alert? <;> simp [alerts, eventsOf, ha]
    rw [halerts, ← List.append_assoc]
    exact ih (ht.step hstep)

/-! ## After a command has said whether it is there -/

/-- Whether a thread is in a probe that takes the analyzer for unprobed and has no outcome yet. -/
def Control.isTrying : Control → Bool
  | .starting _ | .running _ => true
  | .returning _ v (.check _) => needsProbe v
  | _ => false

/-- Whether a thread is in a probe that is about to move the state. -/
def Control.isConcluding : Control → Bool
  | .entering _ (.conclude _) | .entering _ (.raise _ _) => true
  | _ => false

/-- No probe tries its command, and if the analyzer is unprobed it will not be for long. -/
structure Settled (x : Shared) : Prop where
  calm : ∀ t, (x.control t).isTrying = false
  moving : x.state = .unprobed → ∃ t, (x.control t).isConcluding = true

theorem isProbing_of_isTrying (h : k.isTrying = true) : k.isProbing = true := by
  cases k with
  | returning o v f => cases f <;> first | rfl | cases h
  | starting q => rfl
  | running q => rfl
  | _ => cases h

theorem isProbing_of_isConcluding (h : k.isConcluding = true) : k.isProbing = true := by
  cases k with
  | entering o f => cases f <;> first | rfl | cases h
  | _ => cases h

theorem isTrying_begin (c : Call) : c.begin.isTrying = false := by
  cases c <;> rfl

theorem isConcluding_begin (c : Call) : c.begin.isConcluding = false := by
  cases c <;> rfl

theorem isTrying_settle {o : Operation} {c : Change} {f : Frame o} (h : c.state ≠ .unprobed) :
    (settle o c f).isTrying = false := by
  have hneeds : needsProbe c.state = false := by simpa [needsProbe] using h
  unfold settle
  split
  · cases f <;> first | rfl | exact hneeds
  · rfl

theorem isTrying_settle_thread (o : Operation) (c : Change) :
    (settle o c .thread).isTrying = false := by
  unfold settle
  split <;> rfl

theorem isConcluding_settle (o : Operation) (c : Change) (f : Frame o) :
    (settle o c f).isConcluding = false := by
  unfold settle
  split <;> rfl

theorem isTrying_resume {o : Operation} (v : State) (f : Frame o) :
    (f.resume v).isTrying = (Control.returning o v f).isTrying := by
  cases f with
  | check q => cases v <;> rfl
  | _ => rfl

theorem isConcluding_resume {o : Operation} (v : State) (f : Frame o) :
    (f.resume v).isConcluding = false := by
  cases f with
  | check q => cases v <;> rfl
  | _ => rfl

theorem isTrying_plan (name : String) (q : Query) (o : Program.Outcome) :
    (q.plan name o).isTrying = false := by
  rcases q.plan_cases name o with h | ⟨trouble, h⟩ | ⟨-, trouble, h⟩ <;> rw [h] <;> rfl

theorem isConcluding_plan (name : String) (q : Query) {o : Program.Outcome}
    (hd : isDecisive o = true) : (q.plan name o).isConcluding = true := by
  rcases q.plan_cases name o with h | ⟨trouble, h⟩ | ⟨hnot, -⟩
  · rw [h]
    rfl
  · rw [h]
    rfl
  · rw [hnot] at hd
    cases hd

theorem Settled.move (h : Settled x) (hk : k.isTrying = false)
    (hc : k.isConcluding = (x.control t).isConcluding) : Settled (x.move t k) where
  calm u := by
    by_cases hu : u = t
    · rw [hu, Shared.move_control_self, hk]
    · rw [Shared.move_control_of_ne x t k hu, h.calm u]
  moving hs := by
    obtain ⟨u, hu⟩ := h.moving hs
    exact ⟨u, (move_congr Control.isConcluding hc u).trans hu⟩

/-- The outcome of a command that says whether it is there settles the matter. -/
theorem settled_of_decisive {o : Program.Outcome} (hg : Guarded x) (h : Step name x (.ended t o) y)
    (hd : isDecisive o = true) : Settled y := by
  cases h with
  | @finish _ q h o =>
    have ht : (x.control t).isProbing = true := by rw [h]; rfl
    refine ⟨fun u => ?_, fun _ => ⟨t, ?_⟩⟩
    · by_cases hu : u = t
      · rw [hu, Shared.move_control_self, isTrying_plan]
      · rw [Shared.move_control_of_ne _ _ _ hu]
        by_contra htrying
        exact hu (hg.unique (isProbing_of_isTrying ((Bool.not_eq_false _).mp htrying)) ht)
    · rw [Shared.move_control_self, isConcluding_plan name q hd]

/-- **Once settled, the matter stays settled**, and no command is launched. -/
theorem Settled.step (hg : Guarded x) (hf : Fits x) (hs : Settled x) (h : Step name x e y) :
    Settled y ∧ ∀ u l, e ≠ .launched u l := by
  cases h with
  | call c h =>
    exact ⟨hs.move (isTrying_begin c) (by rw [isConcluding_begin, h]; rfl), nofun⟩
  | @acquire t q h hfree =>
    have hhold : Settled (x.hold (some t)) := ⟨hs.calm, hs.moving⟩
    exact ⟨hhold.move rfl (by rw [Shared.hold_control, h]; rfl), nofun⟩
  | @enter t o f h =>
    refine ⟨?_, nofun⟩
    set s := (o.change name x.state).state
    by_cases hprobed : s = .unprobed
    · have hleads := o.leads_change name x.state
      have hput : Settled (x.put s) :=
        ⟨hs.calm, fun _ => hs.moving (eq_unprobed_of_leads hleads hprobed)⟩
      cases f with
      | thread =>
        exact hput.move (isTrying_settle_thread o _)
          (by rw [isConcluding_settle, Shared.put_control, h]; rfl)
      | check q =>
        -- The probe that is to move the state holds the lock, and it is not this one.
        obtain ⟨u, hu⟩ := hs.moving (eq_unprobed_of_leads hleads hprobed)
        have hut : u = t := hg.unique (isProbing_of_isConcluding hu) (by rw [h]; rfl)
        rw [hut, h] at hu
        cases hu
      | conclude q => exact absurd hprobed (Operation.yields_change name x.state .enable)
      | @raise reason q trouble =>
        obtain ⟨first, hfirst⟩ := Operation.yields_change name x.state (.disable reason)
        cases hprobed.symm.trans hfirst
    · refine ⟨fun u => ?_, fun hu => absurd hu hprobed⟩
      by_cases hu : u = t
      · rw [hu, Shared.move_control_self, isTrying_settle hprobed]
      · rw [Shared.move_control_of_ne _ _ _ hu]
        exact hs.calm u
  | warn h => exact ⟨hs.move rfl (by rw [h]; rfl), nofun⟩
  | @reread t o f h =>
    -- What is read without the lock is an analyzer out of service.
    have hseen := hf t
    rw [h] at hseen
    obtain ⟨reason, hstate⟩ := hseen
    refine ⟨hs.move ?_ (by rw [h]; rfl), nofun⟩
    rw [hstate]
    cases f <;> rfl
  | @giveBack t o v f h =>
    have hcalm := hs.calm t
    rw [h] at hcalm
    exact ⟨hs.move ((isTrying_resume v f).trans hcalm) (by rw [isConcluding_resume, h]; rfl), nofun⟩
  | @launch t q h =>
    have hcalm := hs.calm t
    rw [h] at hcalm
    cases hcalm
  | @finish t q h o =>
    have hcalm := hs.calm t
    rw [h] at hcalm
    cases hcalm
  | @leave t q a h =>
    have hhold : Settled (x.hold none) := ⟨hs.calm, hs.moving⟩
    exact ⟨hhold.move rfl (by rw [Shared.hold_control, h]; rfl), nofun⟩

theorem Settled.not_launched (hg : Guarded x) (hf : Fits x) (hs : Settled x) (h : Run name x ms z) :
    ∀ u l, .launched u l ∉ eventsOf ms := by
  induction h with
  | stop x => simp [eventsOf]
  | @step x y z e ms hstep _ ih =>
    obtain ⟨hy, he⟩ := hs.step hg hf hstep
    intro u l hmem
    rcases List.mem_cons.mp hmem with heq | hmem
    · exact he u l heq.symm
    · exact ih (hg.step hstep) (hf.step hstep) hy u l hmem

/-! ## Together -/

/-- What is returned or answered, a thread came to by a step of the run. -/
theorem Run.step_of_mem (h : Run name x ms z) (he : e ∈ eventsOf ms) :
    ∃ ms₁ y y' ms₂, Run name x ms₁ y ∧ Step name y e y' ∧ Run name y' ms₂ z := by
  obtain ⟨pre, post, hms⟩ := List.append_of_mem he
  obtain ⟨before, after, y, y', -, -, hrun, hstep, hrest⟩ := h.split_events hms
  exact ⟨before, y, y', after, hrun, hstep, hrest⟩

theorem Run.state_of_returned {reason : String} {s : State} (hf : Fits x) (h : Run name x ms z)
    (he : .returned t (.disable reason) s ∈ eventsOf ms) :
    s = z.state ∧ ∃ first, s = .disabled first := by
  obtain ⟨before, y, y', after, hrun, hstep, hrest⟩ := h.step_of_mem he
  have hfit := hf.run hrun t
  have hlater : y.state.Leads z.state := hstep.leads.trans hrest.leads
  cases hstep with
  | giveBack hreturning =>
    rw [hreturning] at hfit
    obtain ⟨⟨first, rfl⟩, hleads⟩ := hfit
    exact ⟨((hleads.trans hlater).of_disabled).symm, first, rfl⟩

theorem Run.probed_of_answered {q : Query} {s : State} (hf : Fits x) (h : Run name x ms z)
    (he : .answered t q (.ok s) ∈ eventsOf ms) : s ≠ .unprobed := by
  obtain ⟨before, y, y', after, hrun, hstep, -⟩ := h.step_of_mem he
  have hfit := hf.run hrun t
  cases hstep with
  | leave hleaving =>
    rw [hleaving] at hfit
    exact hfit

theorem not_launched_after {pre post : List Event} {o : Program.Outcome} (hg : Guarded x)
    (hf : Fits x) (h : Run name x ms z) (hms : eventsOf ms = pre ++ .ended t o :: post)
    (hd : isDecisive o = true) (u : Nat) (l : Program.Launch) : .launched u l ∉ post := by
  obtain ⟨before, after, y, y', -, rfl, hrun, hstep, hrest⟩ := h.split_events hms
  have hsettled := settled_of_decisive (hg.run hrun) hstep hd
  exact hsettled.not_launched ((hg.run hrun).step hstep) ((hf.run hrun).step hstep) hrest u l

theorem State.eq_of_reason {s : State} {reason : String} (h : s.reason = some reason) :
    s = .disabled reason := by
  cases s with
  | disabled first => exact congrArg State.disabled (Option.some.inj h)
  | _ => cases h

/-- What has been said is the warning or nothing. -/
theorem Told.eq_or (h : Told name x told) :
    told = [] ∨ ∃ first, x.state = .disabled first ∧ told = [retired name first] := by
  cases h with
  | quiet hs hdue => exact .inl rfl
  | due hs ht hdue => exact .inl rfl
  | said hs hdue => exact .inr ⟨_, State.eq_of_reason hs, rfl⟩

/-- With nothing due, what is to be said has been said. -/
theorem Told.eq_of_idle (h : Told name x told) (hidle : ∀ t, x.control t = .idle) :
    told = x.state.reason.toList.map (retired name) := by
  cases h with
  | quiet hs hdue => rw [hs]; rfl
  | @due reason t hs ht hdue =>
    rw [hidle t] at ht
    cases ht
  | said hs hdue => rw [hs]; rfl

/-- **What threads can rely on.** For any threads, any calls, any order of their steps and any outcomes
    of the commands that probes run: the states only go forward; the reason is that of the first section
    that was to take the analyzer out of service, and every `disable` returns the state with that reason;
    with all calls completed the warning has been said once if the analyzer is out of service, and it is
    never said otherwise; no probe returns an analyzer that is unprobed; no two commands run at a time;
    and no command is launched after one that ended with an exit code or with an error other than an
    interruption. -/
theorem interleavings_agree (name : String) {ms : List Moment} {x : Shared}
    (h : Run name .start ms x) :
    (State.unprobed :: ms.map (·.after.state)).Pairwise State.Leads ∧
    x.state.reason = (eventsOf ms).findSome? Event.disabling ∧
    (∀ t reason s, .returned t (.disable reason) s ∈ eventsOf ms →
      s = x.state ∧ ∃ first, s = .disabled first) ∧
    ((∀ t, x.control t = .idle) →
      alerts (eventsOf ms) = x.state.reason.toList.map (retired name)) ∧
    (alerts (eventsOf ms) = [] ∨
      ∃ first, x.state = .disabled first ∧ alerts (eventsOf ms) = [retired name first]) ∧
    (∀ t q s, .answered t q (.ok s) ∈ eventsOf ms → s ≠ .unprobed) ∧
    (∀ pre mid post t l u l',
      eventsOf ms = pre ++ .launched t l :: (mid ++ .launched u l' :: post) →
        ∃ o, .ended t o ∈ mid) ∧
    (∀ pre post t o, eventsOf ms = pre ++ .ended t o :: post → isDecisive o = true →
      ∀ u l, .launched u l ∉ post) := by
  have htold : Told name x (alerts (eventsOf ms)) := (told_start name).run h
  refine ⟨h.states_pairwise, ?_, ?_, htold.eq_of_idle, htold.eq_or, ?_, ?_, ?_⟩
  · rw [h.reason]
    rfl
  · intro t reason s he
    exact h.state_of_returned fits_start he
  · intro t q s he
    exact h.probed_of_answered fits_start he
  · intro pre mid post t l u l' hms
    exact ended_between_launches guarded_start h hms
  · intro pre post t o hms hd u l
    exact not_launched_after guarded_start fits_start h hms hd u l

/-- One thread takes the analyzer out of service while the command of another thread's probe runs. The
    command fails, and the probe finds nothing left to do and nothing to warn of. -/
theorem exists_run_crossing :
    ∃ ms x, Run "Yarn Audit Analyzer" .start ms x ∧ (∀ t, x.control t = .idle) ∧
      (eventsOf ms).findSome? Event.disabling = some "no network" ∧
      .returned 1 (.disable "no network") (.disabled "no network") ∈ eventsOf ms ∧
      .returned 0 (.disable "yarn executable was not found.") (.disabled "no network") ∈ eventsOf ms := by
  let q : Query := ⟨"yarn", none⟩
  refine ⟨_, _,
    .step (.call (t := 0) (.probe q) rfl) <|
    .step (.acquire (t := 0) (q := q) rfl rfl) <|
    .step (.enter (t := 0) (o := .look) (f := .check q) rfl) <|
    .step (.giveBack (t := 0) (o := .look) (s := .unprobed) (f := .check q) rfl) <|
    .step (.launch (t := 0) (q := q) rfl) <|
    .step (.call (t := 1) (.operate (.disable "no network")) rfl) <|
    .step (.enter (t := 1) (o := .disable "no network") (f := .thread) rfl) <|
    .step (.finish (t := 0) (q := q) rfl (.ok ⟨1, "", ""⟩)) <|
    .step (.enter (t := 0) (o := .disable "yarn executable was not found.") (f := .raise q _) rfl) <|
    .step (.giveBack (t := 0) (o := .disable "yarn executable was not found.")
      (s := .disabled "no network") (f := .raise q _) rfl) <|
    .step (.leave (t := 0) (q := q) rfl) <|
    .step (.warn (t := 1) (o := .disable "no network") (f := .thread) rfl) <|
    .step (.reread (t := 1) (o := .disable "no network") (f := .thread) rfl) <|
    .step (.giveBack (t := 1) (o := .disable "no network") (s := .disabled "no network")
      (f := .thread) rfl) <|
    .stop _, ?_, rfl, ?_, ?_⟩
  · intro t
    by_cases h0 : t = 0
    · subst h0; rfl
    · by_cases h1 : t = 1
      · subst h1; rfl
      · simp [Shared.move, Shared.hold, Shared.put, h0, h1, Shared.start]
  · simp [eventsOf]
  · simp [eventsOf]

theorem interleavings_agree_crossing :
    ∃ ms x, Run "Yarn Audit Analyzer" .start ms x ∧ x.state = .disabled "no network" ∧
      alerts (eventsOf ms) =
        [⟨.warning, "The Yarn Audit Analyzer has been disabled. no network"⟩] := by
  obtain ⟨ms, x, hrun, hidle, hfirst, hreturned, -⟩ := exists_run_crossing
  obtain ⟨-, -, hdisable, hsaid, -⟩ := interleavings_agree _ hrun
  have hstate : x.state = .disabled "no network" := ((hdisable _ _ _ hreturned).1).symm
  refine ⟨ms, x, hrun, hstate, ?_⟩
  rw [hsaid hidle, hstate]
  rfl

/-! ## Progress -/

/-- A thread that is not idle can make a step, unless it waits for the probe lock. -/
theorem exists_step_of_control (name : String) (ht : x.control t ≠ .idle)
    (hq : ∀ q, x.control t ≠ .queueing q) :
    ∃ e y, Step name x e y ∧ ∀ u c, e ≠ .called u c := by
  cases hk : x.control t with
  | idle => exact absurd hk ht
  | queueing q => exact absurd hk (hq q)
  | entering o f => exact ⟨_, _, .enter hk, nofun⟩
  | warning o e f => exact ⟨_, _, .warn hk, nofun⟩
  | rereading o f => exact ⟨_, _, .reread hk, nofun⟩
  | returning o s f => exact ⟨_, _, .giveBack hk, nofun⟩
  | starting q => exact ⟨_, _, .launch hk, nofun⟩
  | running q => exact ⟨_, _, .finish hk (.ok ⟨0, "", ""⟩), nofun⟩
  | leaving q a => exact ⟨_, _, .leave hk, nofun⟩

/-- **Nothing deadlocks**: as long as a thread is in a call, some thread can go on with its own. -/
theorem exists_step (name : String) (hg : Guarded x) (ht : x.control t ≠ .idle) :
    ∃ e y, Step name x e y ∧ ∀ u c, e ≠ .called u c := by
  by_cases hq : ∃ q, x.control t = .queueing q
  · obtain ⟨q, hq⟩ := hq
    cases hholder : x.holder with
    | none => exact ⟨_, _, .acquire hq hholder, nofun⟩
    | some u =>
      have hu : (x.control u).isProbing = true := (hg u).mpr hholder
      refine exists_step_of_control name (t := u) ?_ ?_
      · intro hidle
        rw [hidle] at hu
        cases hu
      · intro q' hq'
        rw [hq'] at hu
        cases hu
  · exact exists_step_of_control name ht (not_exists.mp hq)

end LockAudit.Lifecycle.Threads
