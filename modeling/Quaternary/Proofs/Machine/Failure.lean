import Quaternary.Proofs.Machine.Safety

/-!
# What a failure leaves behind

An operation that fails leaves the stack and the sink as they were, with one exception: a value
that the sink refuses has been taken from the stack. `FaultEffect` says this of one operation,
and `fault_effect` that it holds of every failing operation and of every failing step, which
leaves the counter and the number of steps alone as well.

It holds also where an operation is put together from its parts, that is, where operands are taken
from the stack and have to be pushed back in their order, or are looked at before they are taken
(`Op.executeTrapping`).
-/

namespace Quaternary

/-- What a fault of an operation may do to the stack and to the sink. -/
structure FaultEffect (op : Op) (fault : Fault) (stack stack' : Stack) (sink sink' : Sink) :
    Prop where
  /-- A fault other than of the output changes nothing. -/
  kept : (∀ cause, fault ≠ .outputFailed cause) → stack' = stack ∧ sink' = sink
  /-- Only a printing operation has an output fault, and it loses the value on top. -/
  printed : ∀ cause, fault = .outputFailed cause →
    (op = .print ∨ op = .printChar) ∧ ∃ v, stack = v :: stack'

namespace Op

theorem execute_output_stack (counter : Int) (sink : Sink) (text : String) (rest : Stack) :
    (execute.output counter sink text rest).stack = rest := by
  unfold execute.output
  split <;> rfl

theorem execute_output_error {counter : Int} {sink : Sink} {text : String} {rest : Stack}
    {fault : Fault} (h : (execute.output counter sink text rest).result = .error fault) :
    ∃ cause, fault = .outputFailed cause := by
  unfold execute.output at h
  split at h
  · cases h
  · cases h
    exact ⟨_, rfl⟩

theorem faultEffect_execute {op : Op} {counter : Int} {stack : Stack} {sink : Sink}
    {fault : Fault} (h : (op.execute counter stack sink).result = .error fault) :
    FaultEffect op fault stack (op.execute counter stack sink).stack sink
      (op.execute counter stack sink).sink := by
  cases op.behaviour counter stack with
  | silent counter' stack' hexec =>
    rw [hexec] at h
    cases h
  | fault f hf hexec =>
    rw [hexec] at h ⊢
    cases h
    exact ⟨fun _ => ⟨rfl, rfl⟩, fun cause hcause => absurd hcause (hf cause)⟩
  | output hop v rest text hstack hexec =>
    rw [hexec] at h ⊢
    obtain ⟨cause, rfl⟩ := execute_output_error h
    refine ⟨fun hne => absurd rfl (hne cause), ?_⟩
    intro _ _
    rw [execute_output_stack]
    exact ⟨hop, v, hstack⟩

end Op

namespace Machine

theorem faultEffect_step {p : Program} {m m' : Machine} {e : RuntimeError}
    (h : m.step p = (.failed e, m')) :
    ∃ i, m.instruction? p = some i ∧ i.line = e.line ∧
      FaultEffect i.op e.fault m.stack m'.stack m.sink m'.sink := by
  obtain ⟨i, hi, hline, hexec, -, -⟩ := exists_error_of_step_failed h
  refine ⟨i, hi, hline, ?_⟩
  have hresult : (i.op.execute m.counter m.stack m.sink).result = .error e.fault := by rw [hexec]
  have heffect := Op.faultEffect_execute hresult
  rw [hexec] at heffect
  exact heffect

/-- A failing operation and a failing step change nothing, except that a value that could not be
printed is gone from the stack. Below the greatest counter the same is true part by part: no part
traps, and what has been taken before a fault has been put back. -/
theorem fault_effect :
    (∀ (op : Op) (counter : Int) (stack : Stack) (sink : Sink) (fault : Fault),
      (op.execute counter stack sink).result = .error fault →
        FaultEffect op fault stack (op.execute counter stack sink).stack sink
          (op.execute counter stack sink).sink) ∧
    (∀ (op : Op) (counter : Int) (stack : Stack) (sink : Sink), counter < Value.greatest →
      ∃ outcome, op.executeTrapping counter stack sink = .ok outcome ∧
        ∀ fault, outcome.result = .error fault →
          FaultEffect op fault stack outcome.stack sink outcome.sink) ∧
    (∀ (p : Program) (m m' : Machine) (e : RuntimeError),
      m.step p = (.failed e, m') ∨ m.stepTrapping p = .ok (.failed e, m') →
        m'.counter = m.counter ∧ m'.steps = m.steps ∧
          ∃ i, m.instruction? p = some i ∧ i.line = e.line ∧
            FaultEffect i.op e.fault m.stack m'.stack m.sink m'.sink) := by
  refine ⟨?_, ?_, ?_⟩
  · intro op counter stack sink fault h
    exact Op.faultEffect_execute h
  · intro op counter stack sink hcounter
    exact ⟨_, Op.executeTrapping_eq_ok hcounter op stack sink, fun _ => Op.faultEffect_execute⟩
  · intro p m m' e h
    have hstep : m.step p = (.failed e, m') := by
      rcases h with hstep | htrapping
      · exact hstep
      · exact (eq_step_of_stepTrapping htrapping).symm
    obtain ⟨_, _, _, _, hcounter, hsteps⟩ := exists_error_of_step_failed hstep
    exact ⟨hcounter, hsteps, faultEffect_step hstep⟩

/-- An addition that overflows keeps both operands in their order, although part by part they are
taken and pushed back, and a step that prints to a full sink loses exactly the value on top. -/
theorem fault_effect_overflow_and_full :
    ((Op.binary .add).execute 3 [Int64.ofInt Value.greatest, 1, 7] {}).stack =
        [Int64.ofInt Value.greatest, 1, 7] ∧
      (∃ outcome, (Op.binary .add).executeTrapping 3 [Int64.ofInt Value.greatest, 1, 7] {} =
        .ok outcome ∧ outcome.stack = [Int64.ofInt Value.greatest, 1, 7]) ∧
      (step ⟨#[⟨4, .print⟩]⟩ { stack := [5, 7], sink := { capacity := some 0 } }).2.stack =
        [7] ∧
      ∃ s m, stepTrapping ⟨#[⟨4, .print⟩]⟩
        { stack := [5, 7], sink := { capacity := some 0 } } = .ok (s, m) ∧ m.stack = [7] := by
  obtain ⟨hexecute, htrapping, hstep⟩ := fault_effect
  refine ⟨?_, ?_, ?_, ?_⟩
  · have h := hexecute (.binary .add) 3 [Int64.ofInt Value.greatest, 1, 7] {}
      (.overflow (.binary .add)) rfl
    exact (h.kept fun _ => Fault.noConfusion).1
  · obtain ⟨outcome, houtcome, heffect⟩ := htrapping (.binary .add) 3
      [Int64.ofInt Value.greatest, 1, 7] {} (by decide)
    obtain rfl : _ = outcome := Except.ok.inj houtcome
    exact ⟨_, houtcome, ((heffect (.overflow (.binary .add)) rfl).kept fun _ =>
      Fault.noConfusion).1⟩
  · obtain ⟨-, -, i, -, -, heffect⟩ := hstep ⟨#[⟨4, .print⟩]⟩
      { stack := [5, 7], sink := { capacity := some 0 } } _ _ (Or.inl rfl)
    obtain ⟨-, v, hstack⟩ := heffect.printed _ rfl
    exact (List.cons.inj hstack).2.symm
  · obtain ⟨-, -, i, -, -, heffect⟩ := hstep ⟨#[⟨4, .print⟩]⟩
      { stack := [5, 7], sink := { capacity := some 0 } } _ _ (Or.inr rfl)
    obtain ⟨-, v, hstack⟩ := heffect.printed _ rfl
    exact ⟨_, _, rfl, (List.cons.inj hstack).2.symm⟩

end Machine

end Quaternary
