import LockAudit.Proofs.Session.Lifecycle
import Mathlib.Logic.Function.Basic
import Mathlib.Tactic.Set

/-!
# `LockAudit.Proofs.Lifecycle.Threads` — threads that share one analyzer

Any number of threads look at the state of one analyzer, enable it, take it out of service and probe it,
in any order. Two locks keep them apart. What is done to the state itself is done under the state lock,
and is one step (`Step.enter`). A probe holds the probe lock from its first step to its last, also while
its command runs.

* `Control` — where a thread is. A probe calls the other operations; a `Frame` says which of them it
  calls where, so that a thread cannot be in a place that its code does not have.
* `Step`, `Run` — one step of one thread, and a row of steps of any threads. The command of a probe may
  come to anything.
* `plan_agrees` — what a probe does after its command is what `judge` says, whatever became of the state
  while the command ran.
* `exists_run_probe` — a probe that no other thread disturbs comes to what `probe` says.

Of what is logged, only alerts are followed: what is logged for debugging changes nothing.
-/

namespace LockAudit.Lifecycle.Threads

/-! ## Calls -/

/-- What a probe is to run. -/
structure Query where
  command : String
  timeout : Option Number

/-- The launch of a probe. -/
def Query.launch (q : Query) : Program.Launch := probeLaunch q.command q.timeout

/-- What is done to the state under the state lock. -/
inductive Operation
  | look
  | enable
  | disable (reason : String)

/-- What becomes of the state under the state lock, and what is to be logged. -/
def Operation.change (name : String) (s : State) : Operation → Change
  | .look => ⟨s, []⟩
  | .enable => Lifecycle.enable name s
  | .disable reason => Lifecycle.disable name reason s

/-- What a thread may ask for. -/
inductive Call
  | operate (o : Operation)
  | probe (q : Query)

/-- Who waits for the state that an operation returns: the thread, or a probe, which looks before its
    command, enables after a success, and takes the analyzer out of service before it raises. -/
inductive Frame : Operation → Type
  | thread {o : Operation} : Frame o
  | check (q : Query) : Frame .look
  | conclude (q : Query) : Frame .enable
  | raise {reason : String} (q : Query) (trouble : Trouble) : Frame (.disable reason)

/-- Where a thread is. -/
inductive Control
  | idle
  /-- Before the section of an operation. -/
  | entering (o : Operation) (f : Frame o)
  /-- After a section that has something to warn of. -/
  | warning (o : Operation) (e : Log.Entry) (f : Frame o)
  /-- After the warning: the state is read once more, without the lock. -/
  | rereading (o : Operation) (f : Frame o)
  | returning (o : Operation) (s : State) (f : Frame o)
  /-- Before the probe lock. -/
  | queueing (q : Query)
  | starting (q : Query)
  | running (q : Query)
  /-- Before a probe gives its answer and the probe lock back. -/
  | leaving (q : Query) (a : Except Trouble State)

/-! ## What is left to do -/

/-- How a call begins. -/
def Call.begin : Call → Control
  | .operate o => .entering o .thread
  | .probe q => .queueing q

/-- What is left to do of an operation after its section. -/
def settle (o : Operation) (c : Change) (f : Frame o) : Control :=
  match c.logs.find? Log.Entry.isAlert with
  | none => .returning o c.state f
  | some e => .warning o e f

/-- How it goes on with the state that an operation returned. Only a probe of an analyzer that is
    unprobed starts its command. -/
def Frame.resume {o : Operation} (s : State) : Frame o → Control
  | .thread => .idle
  | .check q => if needsProbe s then .starting q else .leaving q (.ok s)
  | .conclude q => .leaving q (.ok s)
  | .raise q trouble => .leaving q (.error trouble)

/-- Whether an outcome says if the command is there. An interruption does not, and neither does what is
    no error of the audit. -/
def isDecisive : Program.Outcome → Bool
  | .ok _ => true
  | .error (.audit e) => e.kind ≠ .interrupted
  | .error _ => false

/-- How a probe goes on after its command. -/
def Query.plan (name : String) (q : Query) (o : Program.Outcome) : Control :=
  match (judge name q.command .unprobed o).result with
  | .ok _ => .entering .enable (.conclude q)
  | .error trouble =>
    if isDecisive o then .entering (.disable (notFoundReason q.command)) (.raise q trouble)
    else .leaving q (.error trouble)

variable {name command : String} {o : Program.Outcome}

/-- A probe that succeeds would have enabled the analyzer in any state. -/
theorem judge_of_ok {v : State} (h : (judge name command .unprobed o).result = .ok v) (s : State) :
    judge name command s o = ⟨.ok (enable name s).state, enable name s⟩ := by
  cases o with
  | ok exit =>
    by_cases hcode : exit.code = 0
    · simp only [judge, if_pos hcode]
    · simp [judge, hcode] at h
  | error trouble =>
    cases trouble with
    | audit e => by_cases hi : e.kind = .interrupted <;> simp [judge, hi] at h
    | mishap m => cases h
    | interrupt message => cases h
    | stop stopped message => cases h

/-- A probe that fails for want of its command would have taken the analyzer out of service in any
    state. -/
theorem judge_of_decisive {trouble : Trouble} (hd : isDecisive o = true)
    (h : (judge name command .unprobed o).result = .error trouble) (s : State) :
    (judge name command s o).result = .error trouble ∧
      (judge name command s o).change.state = (disable name (notFoundReason command) s).state ∧
      (judge name command s o).change.logs.filter Log.Entry.isAlert =
        (disable name (notFoundReason command) s).logs.filter Log.Entry.isAlert := by
  cases o with
  | ok exit =>
    by_cases hcode : exit.code = 0
    · simp [judge, hcode] at h
    · rw [judge, if_neg hcode] at h ⊢
      exact ⟨h, rfl, by simp [Log.Entry.isAlert]⟩
  | error t =>
    cases t with
    | audit e =>
      have hi : e.kind ≠ .interrupted := of_decide_eq_true hd
      rw [judge, if_neg hi] at h ⊢
      exact ⟨h, rfl, rfl⟩
    | mishap m => cases hd
    | interrupt message => cases hd
    | stop stopped message => cases hd

/-- Any other probe does nothing but raise. -/
theorem judge_of_not_decisive (hd : isDecisive o = false) (s : State) :
    judge name command s o = ⟨(judge name command .unprobed o).result, ⟨s, []⟩⟩ := by
  cases o with
  | ok exit => cases hd
  | error t =>
    cases t with
    | audit e =>
      have hi : e.kind = .interrupted := by simpa [isDecisive] using hd
      simp only [judge, if_pos hi]
    | mishap m => rfl
    | interrupt message => rfl
    | stop stopped message => rfl

/-- **What a probe does after its command is what `judge` says**, in whatever state `s` the analyzer is by
    then: the same is done to the state, the same alerts are logged, the same is answered. -/
theorem plan_agrees (name : String) (q : Query) (o : Program.Outcome) (s : State) :
    (∃ (a : Operation) (f : Frame a), q.plan name o = .entering a f ∧
      (judge name q.command s o).change.state = (a.change name s).state ∧
      (judge name q.command s o).change.logs.filter Log.Entry.isAlert =
        (a.change name s).logs.filter Log.Entry.isAlert ∧
      f.resume (a.change name s).state = .leaving q (judge name q.command s o).result) ∨
    (q.plan name o = .leaving q (judge name q.command s o).result ∧
      (judge name q.command s o).change = ⟨s, []⟩) := by
  unfold Query.plan
  split
  next v hv =>
    rw [judge_of_ok hv s]
    exact .inl ⟨.enable, .conclude q, rfl, rfl, rfl, rfl⟩
  next trouble htrouble =>
    split
    next hd =>
      obtain ⟨hresult, hstate, halerts⟩ := judge_of_decisive hd htrouble s
      rw [hresult, hstate, halerts]
      exact .inl ⟨.disable _, .raise q trouble, rfl, rfl, rfl, rfl⟩
    next hd =>
      rw [judge_of_not_decisive (Bool.not_eq_true _ ▸ hd) s, htrouble]
      exact .inr ⟨rfl, rfl⟩

/-- The three ways in which a probe goes on after its command. -/
theorem Query.plan_cases (name : String) (q : Query) (o : Program.Outcome) :
    q.plan name o = .entering .enable (.conclude q) ∨
    (∃ trouble, q.plan name o = .entering (.disable (notFoundReason q.command)) (.raise q trouble)) ∨
    (isDecisive o = false ∧ ∃ trouble, q.plan name o = .leaving q (.error trouble)) := by
  unfold plan
  split
  next v hv => exact .inl rfl
  next trouble htrouble =>
    by_cases hd : isDecisive o = true
    · exact .inr (.inl ⟨trouble, if_pos hd⟩)
    · exact .inr (.inr ⟨(Bool.not_eq_true _).mp hd, trouble, if_neg hd⟩)

/-! ## Steps of threads -/

/-- What threads share, and where each of them is. -/
structure Shared where
  state : State
  /-- The thread that holds the probe lock. -/
  holder : Option Nat
  control : Nat → Control

/-- An analyzer that nobody has asked for anything. -/
def Shared.start : Shared := ⟨.unprobed, none, fun _ => .idle⟩

/-- One thread goes to another place. -/
def Shared.move (x : Shared) (t : Nat) (k : Control) : Shared :=
  { x with control := Function.update x.control t k }

/-- The state becomes another. -/
def Shared.put (x : Shared) (s : State) : Shared := { x with state := s }

/-- The probe lock goes to a thread, or to none. -/
def Shared.hold (x : Shared) (h : Option Nat) : Shared := { x with holder := h }

section
variable (x : Shared) (t : Nat) (k : Control) (s : State) (h : Option Nat)

@[simp] theorem Shared.move_state : (x.move t k).state = x.state := rfl

@[simp] theorem Shared.move_holder : (x.move t k).holder = x.holder := rfl

@[simp] theorem Shared.move_control_self : (x.move t k).control t = k := by simp [move]

theorem Shared.move_control_of_ne {u : Nat} (hne : u ≠ t) :
    (x.move t k).control u = x.control u := by simp [move, hne]

@[simp] theorem Shared.put_state : (x.put s).state = s := rfl

@[simp] theorem Shared.put_holder : (x.put s).holder = x.holder := rfl

@[simp] theorem Shared.put_control : (x.put s).control = x.control := rfl

@[simp] theorem Shared.hold_state : (x.hold h).state = x.state := rfl

@[simp] theorem Shared.hold_holder : (x.hold h).holder = h := rfl

@[simp] theorem Shared.hold_control : (x.hold h).control = x.control := rfl

@[simp] theorem Shared.put_move : (x.move t k).put s = (x.put s).move t k := rfl

@[simp] theorem Shared.hold_move : (x.move t k).hold h = (x.hold h).move t k := rfl

/-- Of two moves of one thread, the second counts. -/
@[simp] theorem Shared.move_move (k' : Control) : (x.move t k).move t k' = x.move t k' := by
  simp [move]

end

/-- What can be seen of a step. -/
inductive Event
  | called (t : Nat) (c : Call)
  | acquired (t : Nat)
  | entered (t : Nat) (o : Operation)
  | warned (t : Nat) (e : Log.Entry)
  | reread (t : Nat)
  | returned (t : Nat) (o : Operation) (s : State)
  | launched (t : Nat) (l : Program.Launch)
  | ended (t : Nat) (o : Program.Outcome)
  | answered (t : Nat) (q : Query) (a : Except Trouble State)

variable (name)

/-- One step of one thread of the threads that share an analyzer of this name. -/
inductive Step : Shared → Event → Shared → Prop
  /-- An idle thread may ask for anything. -/
  | call {x : Shared} {t : Nat} (c : Call) (h : x.control t = .idle) :
      Step x (.called t c) (x.move t c.begin)
  /-- The probe lock is free, and the thread takes it. -/
  | acquire {x : Shared} {t : Nat} {q : Query} (h : x.control t = .queueing q)
      (hfree : x.holder = none) :
      Step x (.acquired t) ((x.hold (some t)).move t (.entering .look (.check q)))
  /-- The state lock is taken, the section carried out, and the lock given back. -/
  | enter {x : Shared} {t : Nat} {o : Operation} {f : Frame o} (h : x.control t = .entering o f) :
      Step x (.entered t o)
        ((x.put (o.change name x.state).state).move t (settle o (o.change name x.state) f))
  /-- The warning is logged with no lock held, so other threads may step before it. -/
  | warn {x : Shared} {t : Nat} {o : Operation} {e : Log.Entry} {f : Frame o}
      (h : x.control t = .warning o e f) :
      Step x (.warned t e) (x.move t (.rereading o f))
  | reread {x : Shared} {t : Nat} {o : Operation} {f : Frame o} (h : x.control t = .rereading o f) :
      Step x (.reread t) (x.move t (.returning o x.state f))
  | giveBack {x : Shared} {t : Nat} {o : Operation} {s : State} {f : Frame o}
      (h : x.control t = .returning o s f) :
      Step x (.returned t o s) (x.move t (f.resume s))
  | launch {x : Shared} {t : Nat} {q : Query} (h : x.control t = .starting q) :
      Step x (.launched t q.launch) (x.move t (.running q))
  /-- The command of a probe comes to anything. -/
  | finish {x : Shared} {t : Nat} {q : Query} (h : x.control t = .running q) (o : Program.Outcome) :
      Step x (.ended t o) (x.move t (q.plan name o))
  | leave {x : Shared} {t : Nat} {q : Query} {a : Except Trouble State}
      (h : x.control t = .leaving q a) :
      Step x (.answered t q a) ((x.hold none).move t .idle)

/-- A step of a run, and what it leaves behind. -/
structure Moment where
  event : Event
  after : Shared

/-- The steps of any threads, one after another. -/
inductive Run : Shared → List Moment → Shared → Prop
  | stop (x : Shared) : Run x [] x
  | step {x y z : Shared} {e : Event} {ms : List Moment} (h : Step name x e y) (r : Run y ms z) :
      Run x (⟨e, y⟩ :: ms) z

/-- The events of a run. -/
def eventsOf (ms : List Moment) : List Event := ms.map (·.event)

theorem eventsOf_append (ms ns : List Moment) : eventsOf (ms ++ ns) = eventsOf ms ++ eventsOf ns :=
  List.map_append

variable {name : String}

theorem Run.append {x y z : Shared} {ms ns : List Moment} (h : Run name x ms y)
    (h' : Run name y ns z) : Run name x (ms ++ ns) z := by
  induction h with
  | stop x => exact h'
  | step hstep _ ih => exact .step hstep (ih h')

/-- A run can be cut at any place. -/
theorem Run.split {x z : Shared} {ms ns : List Moment} (h : Run name x (ms ++ ns) z) :
    ∃ y, Run name x ms y ∧ Run name y ns z := by
  induction ms generalizing x with
  | nil => exact ⟨x, .stop x, h⟩
  | cons m ms ih =>
    cases h with
    | step hstep hrest =>
      obtain ⟨y, hy, hz⟩ := ih hrest
      exact ⟨y, .step hstep hy, hz⟩

/-- Where an event is seen in a run, a step has been made. -/
theorem Run.split_events {x z : Shared} {ms : List Moment} (h : Run name x ms z) {pre post : List Event}
    {e : Event} (hms : eventsOf ms = pre ++ e :: post) :
    ∃ ms₁ ms₂ y y', eventsOf ms₁ = pre ∧ eventsOf ms₂ = post ∧ Run name x ms₁ y ∧ Step name y e y' ∧
      Run name y' ms₂ z := by
  obtain ⟨ms₁, ms', rfl, hpre, hms'⟩ := List.map_eq_append_iff.mp hms
  obtain ⟨m, ms₂, rfl, rfl, hpost⟩ := List.map_eq_cons_iff.mp hms'
  obtain ⟨y, hy, hz⟩ := h.split
  cases hz with
  | step hstep hrest => exact ⟨ms₁, ms₂, y, _, hpre, hpost, hy, hstep, hrest⟩

/-! ## A probe that nobody disturbs -/

/-- The alert of a step. -/
def Event.alert? : Event → Option Log.Entry
  | .warned _ e => some e
  | _ => none

/-- The alerts of a run. -/
def alerts (es : List Event) : List Log.Entry := es.filterMap Event.alert?

theorem alerts_append (es fs : List Event) : alerts (es ++ fs) = alerts es ++ alerts fs :=
  List.filterMap_append

/-- An operation has one alert at most. -/
theorem filter_alerts (name : String) (o : Operation) (s : State) :
    (o.change name s).logs.filter Log.Entry.isAlert =
      ((o.change name s).logs.find? Log.Entry.isAlert).toList := by
  cases o with
  | look => rfl
  | enable => cases s <;> rfl
  | disable reason => cases s <;> rfl

/-- An operation that no other thread disturbs does what its section does, logs the alerts that it has,
    and returns the state that its section left. -/
theorem exists_run_operation (name : String) (z : Shared) (t : Nat) (o : Operation) (f : Frame o) :
    ∃ ms, Run name (z.move t (.entering o f)) ms
        ((z.put (o.change name z.state).state).move t (f.resume (o.change name z.state).state)) ∧
      alerts (eventsOf ms) = (o.change name z.state).logs.filter Log.Entry.isAlert := by
  set y := z.put (o.change name z.state).state
  have henter : Step name (z.move t (.entering o f)) (.entered t o)
      (y.move t (settle o (o.change name z.state) f)) := by
    simpa using (Step.enter (z.move_control_self t (.entering o f)) : Step name _ _ _)
  have hback : Step name (y.move t (.returning o y.state f)) (.returned t o y.state)
      (y.move t (f.resume y.state)) := by
    simpa using (Step.giveBack (y.move_control_self t (.returning o y.state f)) : Step name _ _ _)
  rw [filter_alerts]
  unfold settle at henter
  -- Without an alert the section's own state is returned, with one the state is read once more.
  cases hfind : (o.change name z.state).logs.find? Log.Entry.isAlert with
  | none =>
    rw [hfind] at henter
    exact ⟨_, .step henter (.step hback (.stop _)), rfl⟩
  | some e =>
    rw [hfind] at henter
    have hwarn : Step name (y.move t (.warning o e f)) (.warned t e) (y.move t (.rereading o f)) := by
      simpa using (Step.warn (y.move_control_self t (.warning o e f)) : Step name _ _ _)
    have hread : Step name (y.move t (.rereading o f)) (.reread t)
        (y.move t (.returning o y.state f)) := by
      simpa using (Step.reread (y.move_control_self t (.rereading o f)) : Step name _ _ _)
    exact ⟨_, .step henter (.step hwarn (.step hread (.step hback (.stop _)))), rfl⟩

/-- The steps of a probe up to where it knows if it is needed. -/
theorem exists_run_check (name : String) {x : Shared} {t : Nat} (hidle : x.control t = .idle)
    (hfree : x.holder = none) (q : Query) :
    ∃ ms, Run name x ms ((x.hold (some t)).move t (Frame.resume x.state (.check q))) ∧
      alerts (eventsOf ms) = [] := by
  have hcall : Step name x (.called t (.probe q)) (x.move t (.queueing q)) := .call _ hidle
  have hacquire : Step name (x.move t (.queueing q)) (.acquired t)
      ((x.hold (some t)).move t (.entering .look (.check q))) := by
    simpa using (Step.acquire (x.move_control_self t (.queueing q)) hfree : Step name _ _ _)
  obtain ⟨ms, hrun, halerts⟩ :=
    exists_run_operation name (x.hold (some t)) t .look (.check q)
  exact ⟨_, .step hcall (.step hacquire hrun), halerts⟩

/-- The steps of a probe after its command. -/
theorem exists_run_judge (name : String) (z : Shared) (t : Nat) (q : Query) (o : Program.Outcome) :
    ∃ ms, Run name (z.move t (q.plan name o)) ms
        ((z.put (judge name q.command z.state o).change.state).move t
          (.leaving q (judge name q.command z.state o).result)) ∧
      alerts (eventsOf ms) =
        (judge name q.command z.state o).change.logs.filter Log.Entry.isAlert := by
  rcases plan_agrees name q o z.state with ⟨a, f, hplan, hstate, hlogs, hresult⟩ | ⟨hplan, hchange⟩
  · rw [hplan, hstate, hlogs, ← hresult]
    exact exists_run_operation name z t a f
  · rw [hplan, hchange]
    exact ⟨[], .stop _, rfl⟩

/-- The steps of a probe that knows if it is needed. -/
theorem exists_run_rest (name : String) (z : Shared) (t : Nat) (q : Query) (o : Program.Outcome) :
    ∃ ms, Run name (z.move t (Frame.resume z.state (.check q))) ms
        ((z.put (probe name q.command z.state o).change.state).move t
          (.leaving q (probe name q.command z.state o).result)) ∧
      alerts (eventsOf ms) =
        (probe name q.command z.state o).change.logs.filter Log.Entry.isAlert := by
  -- In a known state, `probe` and the thread's next place both compute.
  obtain ⟨s, holder, control⟩ := z
  set z : Shared := ⟨s, holder, control⟩
  cases s with
  | unprobed =>
    have hlaunch : Step name (z.move t (.starting q)) (.launched t q.launch) (z.move t (.running q)) := by
      simpa using (Step.launch (z.move_control_self t (.starting q)) : Step name _ _ _)
    have hfinish : Step name (z.move t (.running q)) (.ended t o) (z.move t (q.plan name o)) := by
      simpa using Step.finish (z.move_control_self t (.running q)) o
    obtain ⟨ms, hrun, halerts⟩ := exists_run_judge name z t q o
    exact ⟨_, .step hlaunch (.step hfinish hrun), halerts⟩
  | enabled => exact ⟨[], .stop _, rfl⟩
  | disabled reason => exact ⟨[], .stop _, rfl⟩

/-- **A probe that no other thread disturbs** comes to what `probe` says: the same becomes of the state,
    the same alerts are logged, the same is answered, and the probe lock is free again. -/
theorem exists_run_probe (name : String) {x : Shared} {t : Nat} (hidle : x.control t = .idle)
    (hfree : x.holder = none) (q : Query) (o : Program.Outcome) :
    ∃ ms y, Run name x ms y ∧ y.control = x.control ∧ y.holder = none ∧
      y.state = (probe name q.command x.state o).change.state ∧
      alerts (eventsOf ms) = (probe name q.command x.state o).change.logs.filter Log.Entry.isAlert ∧
      .answered t q (probe name q.command x.state o).result ∈ eventsOf ms := by
  obtain ⟨first, hfirst, hquiet⟩ := exists_run_check name hidle hfree q
  obtain ⟨rest, hrest, halerts⟩ := exists_run_rest name (x.hold (some t)) t q o
  set p := probe name q.command x.state o
  have hleave : Step name _ _ _ := Step.leave
    (((x.hold (some t)).put p.change.state).move_control_self t (.leaving q p.result))
  refine ⟨first ++ (rest ++ [_]), _, hfirst.append (hrest.append (.step hleave (.stop _))), ?_, rfl, rfl,
    ?_, by simp [eventsOf]⟩
  · -- The thread is idle again, and no other has moved.
    simp [Shared.move, hidle]
  · rw [eventsOf_append, eventsOf_append, alerts_append, alerts_append, hquiet, halerts]
    exact List.append_nil _

end LockAudit.Lifecycle.Threads
