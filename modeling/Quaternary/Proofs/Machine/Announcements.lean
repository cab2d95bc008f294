import Quaternary.Machine.Trace
import Quaternary.Proofs.Machine.Session

/-!
# The log of a run tells how it went

An instruction is announced before it is executed and counted after it has succeeded. So the event
with number `k` shows the machine after its first `k` instructions (`Machine.Announced`), and a run
that completes `k` instructions has logged `k` events when it comes to the next one
(`Machine.runTraced_of_run`). Then either there is none, and the end of the run is logged; or it
succeeds; or it fails, and then it has been announced although it is never counted.
-/

namespace Quaternary.Machine

variable {p : Program} {m m' start : Machine} {n k budget : Nat} {log : Array Event}

/-! ## One step -/

/-- The event shows instruction `i`, to which the counter of `m` points, with the counter and the
depth before it is executed. -/
structure Announces (p : Program) (m : Machine) (i : Instruction) (event : Event) : Prop where
  instruction : m.instruction? p = some i
  eq_step : event = .step i.line m.counter i.op m.stack.length
  fields_eq : event.fields = [("line", i.line.repr), ("pc", m.counter.repr), ("op", i.op.display),
    ("depth", m.stack.length.repr)]

theorem announces_of_instruction? {i : Instruction} (hi : m.instruction? p = some i) :
    Announces p m i (.step i.line m.counter i.op m.stack.length) :=
  ⟨hi, rfl, rfl⟩

theorem Announces.announcement? {i : Instruction} {event : Event} (h : Announces p m i event) :
    m.announcement? p = some event := by
  rw [Machine.announcement?, h.instruction, h.eq_step]
  rfl

theorem runTraced_of_running {i : Instruction} {event : Event} (h : m.step p = (.running, m'))
    (hi : Announces p m i event) :
    m.runTraced p (n + 1) log = m'.runTraced p n (log.push event) := by
  simp only [runTraced, hi.announcement?, h]

theorem runTraced_of_halted (h : m.step p = (.halted, m')) :
    m.runTraced p (n + 1) log = (.halted, m', log) := by
  cases stepped_of_step h with
  | halted hi =>
    have hnone : m.announcement? p = none := by rw [announcement?, hi]; rfl
    simp only [runTraced, hnone, h]

theorem runTraced_of_failed {e : RuntimeError} {i : Instruction} {event : Event}
    (h : m.step p = (.failed e, m')) (hi : Announces p m i event) :
    m.runTraced p (n + 1) log = (.failed e, m', log.push event) := by
  simp only [runTraced, hi.announcement?, h]

/-- All that a run adds to its log is steps. -/
theorem callsite_of_mem_runTraced {e : Event} (h : e ∈ (m.runTraced p n log).2.2) :
    e ∈ log ∨ e.callsite = Event.stepCallsite := by
  induction n generalizing m log with
  | zero => exact Or.inl h
  | succ n ih =>
    have hpushed (i : Instruction)
        (hmem : e ∈ log.push (.step i.line m.counter i.op m.stack.length)) :
        e ∈ log ∨ e.callsite = Event.stepCallsite := by
      rcases Array.mem_push.mp hmem with hmem | rfl
      · exact Or.inl hmem
      · exact Or.inr rfl
    rcases hstep : m.step p with ⟨s, m'⟩
    cases s with
    | running =>
      obtain ⟨i, hi, -⟩ := counter_of_step_running hstep
      rw [runTraced_of_running hstep (announces_of_instruction? hi)] at h
      rcases ih h with hmem | hsite
      · exact hpushed i hmem
      · exact Or.inr hsite
    | halted =>
      rw [runTraced_of_halted hstep] at h
      exact Or.inl h
    | failed cause =>
      obtain ⟨i, hi, -⟩ := exists_error_of_step_failed hstep
      rw [runTraced_of_failed hstep (announces_of_instruction? hi)] at h
      exact hpushed i h

/-- Logging changes nothing in a run. -/
theorem runTraced_eq_run (p : Program) (n : Nat) (m : Machine) (log : Array Event) :
    ∃ log', m.runTraced p n log = ((m.run p n).1, (m.run p n).2, log') := by
  induction n generalizing m log with
  | zero => exact ⟨log, rfl⟩
  | succ n ih =>
    rcases hstep : m.step p with ⟨s, m'⟩
    cases s with
    | running =>
      rw [run_succ_of_step hstep]
      simp only [runTraced, hstep]
      exact ih m' _
    | halted | failed e =>
      rw [run_succ_of_stop hstep (by simp)]
      simp only [runTraced, hstep]
      exact ⟨_, rfl⟩

/-! ## The events of a run -/

/-- The event with number `k` announces the instruction that the run from `start` comes to after its
first `k`. -/
def Announced (p : Program) (start : Machine) (events : List Event) : Prop :=
  ∀ k event, events[k]? = some event →
    ∃ m i, start.run p k = (.running, m) ∧ Announces p m i event

theorem Announced.concat {events : List Event} (h : Announced p start events)
    (hrun : start.run p events.length = (.running, m)) {i : Instruction} {event : Event}
    (hi : Announces p m i event) : Announced p start (events ++ [event]) := by
  intro k event' hk
  by_cases hlt : k < events.length
  · rw [List.getElem?_append_left hlt] at hk
    exact h k event' hk
  · obtain ⟨hbound, -⟩ := List.getElem?_eq_some_iff.mp hk
    rw [List.length_append, List.length_singleton] at hbound
    obtain rfl : k = events.length := by omega
    obtain rfl : event = event' := by simpa using hk
    exact ⟨m, i, hrun, hi⟩

theorem Announced.halted_not_mem {events : List Event} (h : Announced p start events)
    (steps : Nat) (counter : Int) (depth : Nat) : .halted steps counter depth ∉ events := by
  intro hmem
  obtain ⟨k, hk⟩ := List.mem_iff_getElem?.mp hmem
  obtain ⟨m, i, -, hi⟩ := h k _ hk
  cases hi.eq_step

/-- A run that completes `k` instructions has logged an event for each, and goes on from there. -/
theorem runTraced_of_run (h : start.run p k = (.running, m)) :
    ∃ events, Announced p start events ∧ events.length = k ∧
      ∀ n log, start.runTraced p (k + n) log = m.runTraced p n (log ++ events.toArray) := by
  refine running_induction (motive := fun k m => ∃ events, Announced p start events ∧
    events.length = k ∧
      ∀ n log, start.runTraced p (k + n) log = m.runTraced p n (log ++ events.toArray)) ?_ ?_ h
  · refine ⟨[], ?_, rfl, ?_⟩
    · intro k event hk
      cases hk
    · intro n log
      simp
  · rintro k m₁ m₂ hrun hstep ⟨events, hevents, rfl, htraced⟩
    obtain ⟨i, hi, -⟩ := counter_of_step_running hstep
    have hannounces := announces_of_instruction? hi
    refine ⟨events ++ [_], hevents.concat hrun hannounces, by simp, ?_⟩
    intro n log
    rw [Nat.add_assoc, Nat.add_comm 1 n, htraced, runTraced_of_running hstep hannounces]
    simp

/-! ## The whole log -/

/-- All that is logged by a run of up to `budget` steps. -/
def runLog (p : Program) (budget : Nat) (start : Machine) : List Event :=
  match start.runTraced p budget #[] with
  | (status, m, log) => log.toList ++ m.closingEvents status

theorem runLog_of_halted (hrun : start.run p k = (.running, m)) (hstep : m.step p = (.halted, m'))
    (hk : k < budget) :
    ∃ events, Announced p start events ∧ events.length = k ∧
      runLog p budget start =
        events ++ [.halted m'.steps m'.counter m'.stack.length] := by
  obtain ⟨d, rfl⟩ := Nat.exists_eq_add_of_lt hk
  obtain ⟨events, hevents, hlength, htraced⟩ := runTraced_of_run hrun
  refine ⟨events, hevents, hlength, ?_⟩
  rw [runLog, Nat.add_assoc, htraced, runTraced_of_halted hstep]
  simp [closingEvents]

theorem runLog_of_failed {e : RuntimeError} (hrun : start.run p k = (.running, m))
    (hstep : m.step p = (.failed e, m')) (hk : k < budget) :
    ∃ events i event, Announced p start (events ++ [event]) ∧ events.length = k ∧
      Announces p m i event ∧ i.line = e.line ∧ runLog p budget start = events ++ [event] := by
  obtain ⟨d, rfl⟩ := Nat.exists_eq_add_of_lt hk
  obtain ⟨events, hevents, rfl, htraced⟩ := runTraced_of_run hrun
  obtain ⟨i, hi, hline, -⟩ := exists_error_of_step_failed hstep
  have hannounces := announces_of_instruction? hi
  refine ⟨events, i, _, hevents.concat hrun hannounces, rfl, hannounces, hline, ?_⟩
  rw [runLog, Nat.add_assoc, htraced, runTraced_of_failed hstep hannounces]
  simp [closingEvents]

/-- The log of a run that ends announces the instructions that are tried, in their order. If the run
halts, these are as many as its steps, and the state that it has come to is logged last, with a
counter outside of the program. If it fails, there is one more than its steps, the last one is that
of the instruction that fails, and no end is logged. -/
theorem runLog_announces {stack : Stack} {sink : Sink} {s : Status}
    (h : run p budget { stack, sink } = (s, m)) (hs : s ≠ .running) :
    ∃ announced, Announced p { stack, sink } announced ∧
      (s = .halted →
        announced.length = m.steps ∧
        runLog p budget { stack, sink } =
          announced ++ [.halted m.steps m.counter m.stack.length] ∧
        ¬ (0 ≤ m.counter ∧ m.counter < p.size)) ∧
      ∀ e, s = .failed e →
        announced.length = m.steps + 1 ∧
        runLog p budget { stack, sink } = announced ∧
        (∃ before i event, announced.getLast? = some event ∧ Announces p before i event ∧
          before.step p = (.failed e, m) ∧ i.line = e.line) ∧
        ∀ steps counter depth, .halted steps counter depth ∉ runLog p budget { stack, sink } := by
  obtain ⟨k, before, hk, hrun, hstep⟩ := exists_step_of_stopped h hs
  have hsteps : m.steps = k := by
    rw [steps_of_step_stopped hstep hs, steps_of_run_running hrun]
    exact Nat.zero_add k
  cases s with
  | running => exact absurd rfl hs
  | halted =>
    obtain ⟨events, hevents, hlength, hlog⟩ := runLog_of_halted hrun hstep hk
    refine ⟨events, hevents, ?_, fun e he => Status.noConfusion he⟩
    intro _
    refine ⟨hlength.trans hsteps.symm, hlog, ?_⟩
    rintro ⟨hlow, hhigh⟩
    cases stepped_of_step hstep with
    | halted hnone =>
      rw [instruction?, if_pos hlow, Program.get?, Array.getElem?_eq_none_iff] at hnone
      unfold Program.size at hhigh
      omega
  | failed e =>
    obtain ⟨events, i, event, hevents, hlength, hannounces, hline, hlog⟩ :=
      runLog_of_failed hrun hstep hk
    refine ⟨events ++ [event], hevents, fun he => Status.noConfusion he, ?_⟩
    rintro e' ⟨⟩
    refine ⟨?_, hlog, ?_, ?_⟩
    · rw [List.length_append, List.length_singleton, hlength, hsteps]
    · exact ⟨before, i, event, List.getLast?_concat, hannounces, hstep, hline⟩
    · rw [hlog]
      exact hevents.halted_not_mem

/-- Counts down from two. -/
def countdown : Program :=
  ⟨#[⟨1, .load 2⟩, ⟨3, .immediate .sub 1⟩, ⟨4, .dup⟩, ⟨5, .jump .nonZero 2⟩]⟩

/-- Counting down is announced instruction by instruction, through both rounds of the loop, and ends
behind the program. An addition of one value is announced, and fails. -/
theorem runLog_announces_countdown :
    (∃ announced, announced.length = 7 ∧ Announced countdown {} announced ∧
      runLog countdown 8 {} = announced ++ [.halted 7 4 1]) ∧
    ∃ before i event, (runLog ⟨#[⟨2, .load 1⟩, ⟨4, .binary .add⟩]⟩ 2 {}).length = 2 ∧
      (runLog ⟨#[⟨2, .load 1⟩, ⟨4, .binary .add⟩]⟩ 2 {}).getLast? = some event ∧
      Announces ⟨#[⟨2, .load 1⟩, ⟨4, .binary .add⟩]⟩ before i event ∧ i.line = 4 := by
  constructor
  · have hrun : run countdown 8 {} = (.halted, _) := rfl
    obtain ⟨announced, hannounced, hhalted, -⟩ := runLog_announces hrun (by simp)
    obtain ⟨hlength, hlog, -⟩ := hhalted rfl
    exact ⟨announced, hlength, hannounced, hlog⟩
  · have hrun : run ⟨#[⟨2, .load 1⟩, ⟨4, .binary .add⟩]⟩ 2 {} =
        (.failed ⟨4, .underflow (.binary .add) 2⟩, _) := rfl
    obtain ⟨announced, -, -, hfailed⟩ := runLog_announces hrun (by simp)
    obtain ⟨hlength, hlog, ⟨before, i, event, hlast, hannounces, -, hline⟩, -⟩ := hfailed _ rfl
    rw [hlog]
    exact ⟨before, i, event, hlength, hlast, hannounces, hline⟩

end Quaternary.Machine
