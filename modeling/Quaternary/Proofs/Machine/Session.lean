import Quaternary.Proofs.Machine.Failure

/-!
# Sessions with a machine

A machine is used from outside by two calls, in any order: one takes a step, the other takes steps
until one halts or fails. A session is a list of replies to such calls, each from the machine that
the one before has left. A call after a failure is a call like any other. The counter has not moved,
so the instruction that failed is tried again.

What holds at every moment of a session follows from what one reply does:

* it counts the instructions that it completes (`Answers.steps_eq`) and only adds to the output
  (`Answers.grown`);
* one without a failure goes on with the run (`Answers.run_of_not_failed`), so the machine depends
  on the number of completed instructions only;
* one that halts, or fails for another reason than the output, leaves a machine that gives the same
  reply again and stays as it is (`Answers.step_again`, `Answers.eq_of_step_self`).
-/

namespace Quaternary

/-- The machine has halted, or has failed for another reason than its output. -/
def Status.IsFinal : Status → Prop
  | .running => False
  | .halted => True
  | .failed e => ∀ cause, e.fault ≠ .outputFailed cause

theorem Status.IsFinal.ne_running {s : Status} (h : s.IsFinal) : s ≠ .running := by
  rintro rfl
  exact h

/-! ## Output only grows -/

/-- The second sink has what the first one has, and maybe more. -/
def Sink.Grown (s s' : Sink) : Prop := ∃ more, s'.written = s.written ++ more

namespace Sink

theorem Grown.refl (s : Sink) : s.Grown s := ⟨.empty, ByteArray.append_empty.symm⟩

theorem Grown.trans {a b c : Sink} (hab : a.Grown b) (hbc : b.Grown c) : a.Grown c := by
  obtain ⟨first, hfirst⟩ := hab
  obtain ⟨second, hsecond⟩ := hbc
  refine ⟨first ++ second, ?_⟩
  rw [hsecond, hfirst, ByteArray.append_assoc]

theorem grown_write (s : Sink) (bytes : ByteArray) : s.Grown (s.write bytes).2 := by
  unfold write
  cases s.capacity with
  | none => exact ⟨bytes, rfl⟩
  | some capacity =>
    by_cases hfits : bytes.size ≤ capacity - s.written.size
    · exact ⟨bytes, by simp [hfits]⟩
    · exact ⟨bytes.extract 0 (capacity - s.written.size), by simp [hfits]⟩

theorem grown_emit (s : Sink) (text : String) : s.Grown (s.emit text).2 := by
  have hwrite := s.grown_write text.toUTF8
  unfold emit
  rcases h : s.write text.toUTF8 with ⟨result, s'⟩
  rw [h] at hwrite
  -- a flush does not touch what is written
  cases result <;> exact hwrite

end Sink

theorem Op.grown_execute (op : Op) (counter : Int) (stack : Stack) (sink : Sink) :
    sink.Grown (op.execute counter stack sink).sink := by
  cases op.behaviour counter stack with
  | silent _ _ hexec | fault _ _ hexec =>
    rw [hexec]
    exact .refl sink
  | output _ v rest text _ hexec =>
    have hemit := sink.grown_emit text
    rw [hexec, execute.output]
    rcases h : sink.emit text with ⟨result, sink'⟩
    rw [h] at hemit
    cases result <;> exact hemit

namespace Machine

variable {p : Program} {m m' start : Machine} {s : Status} {n : Nat}

theorem grown_step (h : m.step p = (s, m')) : m.sink.Grown m'.sink := by
  cases stepped_of_step h with
  | halted => exact .refl m.sink
  | @ok i _ _ _ _ hexec | @failed i _ _ _ _ hexec =>
    have hgrown := i.op.grown_execute m.counter m.stack m.sink
    rw [hexec] at hgrown
    exact hgrown

theorem grown_run (h : start.run p n = (.running, m)) : start.sink.Grown m.sink := by
  refine running_induction (motive := fun _ m => start.sink.Grown m.sink) (.refl _) ?_ h
  intro _ _ _ _ hstep hgrown
  exact hgrown.trans (grown_step hstep)

/-! ## Steps are counted -/

theorem steps_of_step_running (h : m.step p = (.running, m')) : m'.steps = m.steps + 1 := by
  cases stepped_of_step h with
  | ok => rfl

theorem eq_of_step_halted (h : m.step p = (.halted, m')) : m' = m := by
  cases stepped_of_step h with
  | halted => rfl

theorem steps_of_step_stopped (h : m.step p = (s, m')) (hs : s ≠ .running) :
    m'.steps = m.steps := by
  cases stepped_of_step h with
  | halted | failed => rfl
  | ok => exact absurd rfl hs

theorem steps_of_run_running (h : start.run p n = (.running, m)) : m.steps = start.steps + n := by
  refine running_induction (motive := fun n m => m.steps = start.steps + n) rfl ?_ h
  intro n m₁ m₂ _ hstep hsteps
  rw [steps_of_step_running hstep, hsteps, Nat.add_assoc]

/-- A step that ends for good leaves the machine as it was. -/
theorem eq_of_step_final (h : m.step p = (s, m')) (hs : s.IsFinal) : m' = m := by
  cases s with
  | running => exact absurd rfl hs.ne_running
  | halted => exact eq_of_step_halted h
  | failed e =>
    obtain ⟨_, _, _, _, hcounter, hsteps⟩ := exists_error_of_step_failed h
    obtain ⟨_, _, _, heffect⟩ := faultEffect_step h
    obtain ⟨hstack, hsink⟩ := heffect.kept hs
    cases m
    cases m'
    cases hcounter
    cases hsteps
    cases hstack
    cases hsink
    rfl

/-! ## Calls and replies -/

inductive Call where
  /-- Take one step. -/
  | step
  /-- Take steps until one halts or fails. -/
  | execute

/-- What a call has come to. -/
structure Reply where
  call : Call
  status : Status
  /-- How many instructions the call has completed. -/
  completed : Nat
  /-- The machine that the call leaves. -/
  machine : Machine

/-- The machine `m` gives the reply `r` to its call. -/
def Answers (p : Program) (m : Machine) (r : Reply) : Prop :=
  match r.call with
  | .step =>
    m.step p = (r.status, r.machine) ∧ r.completed = if r.status = .running then 1 else 0
  | .execute =>
    r.status ≠ .running ∧
      ∃ m', m.run p r.completed = (.running, m') ∧ m'.step p = (r.status, r.machine)

variable {r : Reply}

/-- A call completes its instructions, and ends there or with a step that stops. -/
theorem Answers.run_completed (h : m.Answers p r) :
    (r.status = .running ∧ m.run p r.completed = (.running, r.machine)) ∨
      (r.status ≠ .running ∧
        ∃ m', m.run p r.completed = (.running, m') ∧ m'.step p = (r.status, r.machine)) := by
  rcases r with ⟨call, status, completed, machine⟩
  cases call with
  | execute => exact Or.inr h
  | step =>
    obtain ⟨hstep, hcompleted⟩ := h
    by_cases hs : status = .running
    · rw [if_pos hs] at hcompleted
      cases hcompleted
      cases hs
      exact Or.inl ⟨rfl, (run_one p m).trans hstep⟩
    · rw [if_neg hs] at hcompleted
      cases hcompleted
      exact Or.inr ⟨hs, m, rfl, hstep⟩

theorem Answers.steps_eq (h : m.Answers p r) : r.machine.steps = m.steps + r.completed := by
  rcases h.run_completed with ⟨-, hrun⟩ | ⟨hs, m', hrun, hstep⟩
  · exact steps_of_run_running hrun
  · rw [steps_of_step_stopped hstep hs, steps_of_run_running hrun]

theorem Answers.grown (h : m.Answers p r) : m.sink.Grown r.machine.sink := by
  rcases h.run_completed with ⟨-, hrun⟩ | ⟨-, m', hrun, hstep⟩
  · exact grown_run hrun
  · exact (grown_run hrun).trans (grown_step hstep)

/-- A call that does not fail leaves the machine to which its completed instructions lead. -/
theorem Answers.run_of_not_failed (h : m.Answers p r) (hs : ∀ e, r.status ≠ .failed e) :
    m.run p r.completed = (.running, r.machine) := by
  rcases h.run_completed with ⟨-, hrun⟩ | ⟨hstop, m', hrun, hstep⟩
  · exact hrun
  · cases hstatus : r.status with
    | running => exact absurd hstatus hstop
    | failed e => exact absurd hstatus (hs e)
    | halted =>
      rw [hstatus] at hstep
      rw [eq_of_step_halted hstep]
      exact hrun

/-- A machine that has ended for good gives the same answer to a further step. -/
theorem Answers.step_again (h : m.Answers p r) (hs : r.status.IsFinal) :
    r.machine.step p = (r.status, r.machine) := by
  rcases h.run_completed with ⟨hrunning, -⟩ | ⟨-, m', -, hstep⟩
  · exact absurd hrunning hs.ne_running
  · have heq := eq_of_step_final hstep hs
    rw [← heq] at hstep
    exact hstep

/-- A machine whose step stops and changes nothing gives the same answer to both calls. -/
theorem answers_of_step_self (h : m.step p = (s, m)) (hs : s ≠ .running) (call : Call) :
    m.Answers p ⟨call, s, 0, m⟩ := by
  cases call with
  | step => exact ⟨h, (if_neg hs).symm⟩
  | execute => exact ⟨hs, m, rfl, h⟩

theorem Answers.eq_of_step_self (h : m.step p = (s, m)) (hs : s ≠ .running)
    (hr : m.Answers p r) : r.status = s ∧ r.machine = m := by
  have hnever : ∀ k m', m.run p (k + 1) ≠ (.running, m') := by
    intro k m' hrun
    rw [run_succ_of_stop h hs] at hrun
    cases hrun
    exact hs rfl
  rcases r with ⟨call, status, completed, machine⟩
  cases call with
  | step =>
    have heq := hr.1.symm.trans h
    cases heq
    exact ⟨rfl, rfl⟩
  | execute =>
    obtain ⟨-, m', hrun, hstep⟩ := hr
    cases completed with
    | zero =>
      cases hrun
      have heq := hstep.symm.trans h
      cases heq
      exact ⟨rfl, rfl⟩
    | succ k => exact absurd hrun (hnever k m')

/-- Executing ends where a run with some budget stops. -/
theorem exists_answers_execute_iff :
    (∃ k, m.Answers p ⟨.execute, s, k, m'⟩) ↔
      s ≠ .running ∧ ∃ budget, m.run p budget = (s, m') := by
  constructor
  · rintro ⟨k, hs, m₁, hrun, hstep⟩
    exact ⟨hs, k + 1, (run_succ_of_running hrun).trans hstep⟩
  · rintro ⟨hs, budget, hrun⟩
    obtain ⟨k, m₁, -, hrun₁, hstep⟩ := exists_step_of_stopped hrun hs
    exact ⟨k, hs, m₁, hrun₁, hstep⟩

/-- Executing after a run is executing from its start. -/
theorem exists_answers_execute_of_run (h : start.run p n = (.running, m)) :
    (∃ k, m.Answers p ⟨.execute, s, k, m'⟩) ↔ ∃ k, start.Answers p ⟨.execute, s, k, m'⟩ := by
  have hadd : ∀ budget, start.run p (n + budget) = m.run p budget := by
    intro budget
    rw [run_add, h]
  rw [exists_answers_execute_iff, exists_answers_execute_iff]
  refine and_congr_right ?_
  intro hs
  constructor
  · rintro ⟨budget, hrun⟩
    exact ⟨n + budget, (hadd budget).trans hrun⟩
  · rintro ⟨budget, hrun⟩
    exact ⟨budget, (hadd budget).symm.trans (run_of_stopped hrun hs (Nat.le_add_left budget n))⟩

/-! ## Sessions -/

/-- The replies to a sequence of calls, the first to the machine `m`. -/
def Session (p : Program) (m : Machine) : List Reply → Prop
  | [] => True
  | r :: rest => m.Answers p r ∧ r.machine.Session p rest

/-- The machine after some replies. -/
def after (m : Machine) : List Reply → Machine
  | [] => m
  | r :: rest => r.machine.after rest

/-- How many instructions some calls have completed. -/
def completedBy : List Reply → Nat
  | [] => 0
  | r :: rest => r.completed + completedBy rest

variable {replies before later : List Reply}

theorem session_append :
    start.Session p (before ++ later) ↔
      start.Session p before ∧ (start.after before).Session p later := by
  induction before generalizing start with
  | nil => simp [Session, after]
  | cons r rest ih => rw [List.cons_append, Session, Session, ih, and_assoc, after]

theorem after_append : start.after (before ++ later) = (start.after before).after later := by
  induction before generalizing start with
  | nil => rfl
  | cons r rest ih => exact ih

theorem Session.steps_after (h : start.Session p replies) :
    (start.after replies).steps = start.steps + completedBy replies := by
  induction replies generalizing start with
  | nil => rfl
  | cons r rest ih =>
    obtain ⟨hr, hrest⟩ := h
    rw [after, ih hrest, hr.steps_eq, completedBy, Nat.add_assoc]

theorem Session.grown (h : start.Session p replies) :
    start.sink.Grown (start.after replies).sink := by
  induction replies generalizing start with
  | nil => exact .refl start.sink
  | cons r rest ih =>
    obtain ⟨hr, hrest⟩ := h
    exact hr.grown.trans (ih hrest)

theorem Session.run_of_not_failed (h : start.Session p replies)
    (hs : ∀ r ∈ replies, ∀ e, r.status ≠ .failed e) :
    start.run p (completedBy replies) = (.running, start.after replies) := by
  induction replies generalizing start with
  | nil => rfl
  | cons r rest ih =>
    obtain ⟨hr, hrest⟩ := h
    have hrun := hr.run_of_not_failed (hs r List.mem_cons_self)
    rw [completedBy, run_add, hrun]
    exact ih hrest fun r' hr' => hs r' (List.mem_cons_of_mem r hr')

theorem Session.eq_of_step_self (h : m.step p = (s, m)) (hs : s ≠ .running)
    (hreplies : m.Session p replies) : ∀ r ∈ replies, r.status = s ∧ r.machine = m := by
  induction replies with
  | nil => simp
  | cons r rest ih =>
    obtain ⟨hr, hrest⟩ := hreplies
    obtain ⟨hstatus, hmachine⟩ := hr.eq_of_step_self h hs
    rw [hmachine] at hrest
    intro r' hr'
    rcases List.mem_cons.mp hr' with rfl | hr'
    · exact ⟨hstatus, hmachine⟩
    · exact ih hrest r' hr'

theorem Session.step_again (h : start.Session p replies) (hlast : replies.getLast? = some r)
    (hs : r.status.IsFinal) :
    (start.after replies).step p = (r.status, start.after replies) := by
  obtain ⟨first, rfl⟩ := List.getLast?_eq_some_iff.mp hlast
  obtain ⟨-, hr, -⟩ := session_append.mp h
  rw [after_append]
  exact hr.step_again hs

/-- What holds of the moment between the replies before it and the later ones. -/
structure Moment (p : Program) (start : Machine) (before later : List Reply) : Prop where
  steps : (start.after before).steps = start.steps + completedBy before
  output : ∃ more, (start.after (before ++ later)).sink.written =
    (start.after before).sink.written ++ more
  /-- If no call has failed, the machine depends on the number of completed instructions only, and
  executing has the end that it has from the start. -/
  determined : (∀ r ∈ before, ∀ e, r.status ≠ .failed e) →
    start.run p (completedBy before) = (.running, start.after before) ∧
      ∀ s m', (∃ k, (start.after before).Answers p ⟨.execute, s, k, m'⟩) ↔
        ∃ k, start.Answers p ⟨.execute, s, k, m'⟩
  /-- If the last call has ended for good, every call has the same answer, and so have all later
  ones, which leave the machine as it is. -/
  frozen : ∀ r, before.getLast? = some r → r.status.IsFinal →
    (∀ call, (start.after before).Answers p ⟨call, r.status, 0, start.after before⟩) ∧
      ∀ r' ∈ later, r'.status = r.status ∧ r'.machine = start.after before

/-- In every session of calls, at every moment: the steps are the completed instructions, the output
is only added to, without a failure the calls have done what a run does, and after an end for good
nothing changes any more. -/
theorem session_moment (h : start.Session p (before ++ later)) : Moment p start before later := by
  obtain ⟨hbefore, hlater⟩ := session_append.mp h
  refine ⟨hbefore.steps_after, ?_, ?_, ?_⟩
  · rw [after_append]
    exact hlater.grown
  · intro hs
    have hrun := hbefore.run_of_not_failed hs
    exact ⟨hrun, fun _ _ => exists_answers_execute_of_run hrun⟩
  · intro r hlast hs
    have hstep := hbefore.step_again hlast hs
    exact ⟨answers_of_step_self hstep hs.ne_running, hlater.eq_of_step_self hstep hs.ne_running⟩

/-- Prints a value, and then misses one for an addition. -/
def printing : Program := ⟨#[⟨1, .load 5⟩, ⟨2, .print⟩, ⟨3, .binary .add⟩]⟩

/-- A step loads the value, executing prints it and fails at the addition, and a further step fails
there again. Executing at once would have failed in the same way. -/
theorem session_moment_printing :
    ∃ first second third : Reply,
      first.call = .step ∧ second.call = .execute ∧ third.call = .step ∧
      Session printing {} ([first, second] ++ [third]) ∧
      second.status = .failed ⟨3, .underflow (.binary .add) 2⟩ ∧
      second.machine.steps = first.completed + second.completed ∧
      third.status = second.status ∧ third.machine = second.machine ∧
      ∃ k, Answers printing {} ⟨.execute, second.status, k, second.machine⟩ := by
  have hsecond : Answers printing (run printing 1 {}).2
      ⟨.execute, .failed ⟨3, .underflow (.binary .add) 2⟩, 1, (run printing 2 {}).2⟩ :=
    ⟨by simp, _, rfl, rfl⟩
  have hsession : Session printing {}
      ([⟨.step, .running, 1, (run printing 1 {}).2⟩,
        ⟨.execute, .failed ⟨3, .underflow (.binary .add) 2⟩, 1, (run printing 2 {}).2⟩] ++
        [⟨.step, .failed ⟨3, .underflow (.binary .add) 2⟩, 0, (run printing 2 {}).2⟩]) :=
    ⟨⟨rfl, rfl⟩, hsecond, ⟨rfl, rfl⟩, trivial⟩
  have hmoment := session_moment hsession
  have hstart : Session printing {}
      ([⟨.step, .running, 1, (run printing 1 {}).2⟩] ++ []) := ⟨⟨rfl, rfl⟩, trivial⟩
  obtain ⟨-, hexecute⟩ := (session_moment hstart).determined (by simp)
  obtain ⟨-, hfrozen⟩ := hmoment.frozen _ rfl fun _ => Fault.noConfusion
  obtain ⟨hstatus, hmachine⟩ := hfrozen _ List.mem_cons_self
  exact ⟨_, _, _, rfl, rfl, rfl, hsession, rfl, hmoment.steps, hstatus, hmachine,
    (hexecute _ _).mp ⟨1, hsecond⟩⟩

end Machine

end Quaternary
