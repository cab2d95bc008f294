import Quaternary.Proofs.Ideal.Machine
import Quaternary.Proofs.Machine.Step

/-!
# The machine over values follows the machine over all integers

Both machines are started on the same numbers. As long as every exact result is a value, they
make the same steps; the first result that is no value is where the machine over values
overflows, and it overflows nowhere else.

The counters agree with one exception. A jump to the least value leaves the counter over values
there, since there is nothing below, while the exact counter is one less. Both are negative, so
neither machine makes another step.

* `Op.simulated`: one operation, by its cases.
* `Machine.StepSimulated`: one step from states that agree.
* `Machine.run_simulated`: a whole run, by induction on its length.
-/

namespace Quaternary

/-- What the exact machine calls a fault. It has no overflow. -/
def Fault.ideal? : Fault → Option Ideal.Fault
  | .underflow opcode required => some (.underflow opcode required)
  | .divisionByZero => some .divisionByZero
  | .notACharacter code => some (.notACharacter code.toInt)
  | .overflow _ => none
  | .outputFailed cause => some (.outputFailed cause)

/-- The same end of a step or of a run, with the same line and the same fault. -/
def Status.Matches : Status → Ideal.Status → Prop
  | .running, .running | .halted, .halted => True
  | .failed e, .failed line fault => e.line = line ∧ e.fault.ideal? = some fault
  | _, _ => False

theorem Status.Matches.running_iff {s : Status} {s' : Ideal.Status} (h : s.Matches s') :
    s = .running ↔ s' = .running := by
  cases s <;> cases s' <;> simp_all [Status.Matches]

/-! ## One operation -/

theorem Ideal.floor_div_eq_fdiv (a b : Int) : ⌊(a / b : ℚ)⌋ = a.fdiv b := by
  have hnat (a : Int) (n : Nat) : ⌊(a / n : ℚ)⌋ = a.fdiv n := by
    rw [Rat.floor_intCast_div_natCast, Int.fdiv_eq_ediv_of_nonneg a (Int.natCast_nonneg n)]
  obtain ⟨n, rfl | rfl⟩ := b.eq_nat_or_neg
  · exact hnat a n
  · -- changing both signs changes neither quotient
    rw [← Int.neg_fdiv_neg, neg_neg, ← hnat, Int.cast_neg, Int.cast_neg, Int.cast_natCast, div_neg,
      neg_div]

theorem Ideal.arith_eq_exact (f : Arith) (a b : Int) : Ideal.arith f a b = f.exact a b := by
  cases f with
  | add | sub | mul => rfl
  | div => exact Ideal.floor_div_eq_fdiv a b

theorem Ideal.holds_toInt (c : Cond) (v : Value) : Ideal.holds c v.toInt = c.holds v := by
  have hzero : (v.toInt == 0) = (v == 0) := by
    rw [Bool.eq_iff_iff, beq_iff_eq, beq_iff_eq]
    exact Value.eq_zero_iff.symm
  cases c with
  | nonZero => exact congrArg not hzero
  | zero => exact hzero

/-- The three ways in which an operation on values and the same operation on integers can end:
with the same success, with the same fault, or with an overflow of the first where the second
has a result that is no value. -/
inductive Op.Simulated (op : Op) (counter : Int) (stack : Stack) (sink : Sink) : Prop where
  | ok (next next' : Int) (stack' : Stack) (sink' : Sink)
      (h : op.execute counter stack sink = ⟨.ok next, stack', sink'⟩)
      (hideal : Ideal.execute op counter (stack.map Int64.toInt) sink =
        ⟨.ok next', stack'.map Int64.toInt, sink'⟩)
      (hnext : next = next' ∨ ∃ c target, op = .jump c target ∧ target.toInt = Value.least ∧
        c.holds (stack.headD 0) = true ∧ next < 0 ∧ next' < 0)
  | error (f : Fault) (f' : Ideal.Fault) (stack' : Stack) (sink' : Sink)
      (h : op.execute counter stack sink = ⟨.error f, stack', sink'⟩)
      (hideal : Ideal.execute op counter (stack.map Int64.toInt) sink =
        ⟨.error f', stack'.map Int64.toInt, sink'⟩)
      (hfault : f.ideal? = some f')
  | overflow (r : Int) (rest : List Int)
      (hop : (∃ f, op = .binary f) ∨ ∃ f c, op = .immediate f c)
      (h : op.execute counter stack sink = ⟨.error (.overflow op.opcode), stack, sink⟩)
      (hideal : Ideal.execute op counter (stack.map Int64.toInt) sink =
        ⟨.ok (counter + 1), r :: rest, sink⟩)
      (hr : r < Value.least ∨ Value.greatest < r)

namespace Op

theorem Simulated.of_compute {op : Op} {counter : Int} {stack rest : Stack} {sink : Sink}
    {f : Arith} {a b : Value} (hop : (∃ f, op = .binary f) ∨ ∃ f c, op = .immediate f c)
    (h : op.execute counter stack sink = execute.compute op counter stack sink f a b rest)
    (hideal : Ideal.execute op counter (stack.map Int64.toInt) sink =
      Ideal.execute.compute counter (stack.map Int64.toInt) sink f a.toInt b.toInt
        (rest.map Int64.toInt)) :
    op.Simulated counter stack sink := by
  unfold execute.compute at h
  unfold Ideal.execute.compute at hideal
  rw [Ideal.arith_eq_exact] at hideal
  unfold Arith.apply at h
  by_cases hzero : f = .div ∧ b = 0
  · rw [if_pos hzero] at h
    rw [if_pos ⟨hzero.1, Value.eq_zero_iff.mp hzero.2⟩] at hideal
    exact .error .divisionByZero _ stack sink h hideal rfl
  · rw [if_neg hzero] at h
    rw [if_neg fun hz => hzero ⟨hz.1, Value.eq_zero_iff.mpr hz.2⟩] at hideal
    -- the exact result decides: either it is a value or the operation overflows
    cases hv : Value.ofInt? (f.exact a.toInt b.toInt) with
    | some v =>
      rw [hv] at h
      rw [← Value.ofInt?_eq_some_iff.mp hv] at hideal
      exact .ok _ _ (v :: rest) sink h hideal (Or.inl rfl)
    | none =>
      rw [hv] at h
      exact .overflow _ _ hop h hideal (Value.ofInt?_eq_none_iff.mp hv)

theorem Simulated.of_output {op : Op} {counter : Int} {stack : Stack} {sink : Sink}
    (text : String) (rest : Stack)
    (h : op.execute counter stack sink = execute.output counter sink text rest)
    (hideal : Ideal.execute op counter (stack.map Int64.toInt) sink =
      Ideal.execute.output counter sink text (rest.map Int64.toInt)) :
    op.Simulated counter stack sink := by
  unfold execute.output at h
  unfold Ideal.execute.output at hideal
  rcases hemit : sink.emit text with ⟨result, sink'⟩
  rw [hemit] at h hideal
  cases result with
  | ok _ => exact .ok _ _ rest sink' h hideal (Or.inl rfl)
  | error cause => exact .error _ _ rest sink' h hideal rfl

theorem Simulated.of_underflow {op : Op} {counter : Int} {stack : Stack} {sink : Sink}
    (h : op.execute counter stack sink = execute.underflow op stack sink)
    (hideal : Ideal.execute op counter (stack.map Int64.toInt) sink =
      Ideal.execute.underflow op (stack.map Int64.toInt) sink) :
    op.Simulated counter stack sink :=
  .error _ _ stack sink h hideal rfl

/-- Saturation shows at the least value only, where the counter is negative either way. -/
theorem landing_eq_or (target : Value) :
    landing target = target.toInt - 1 ∨
      target.toInt = Value.least ∧ landing target < 0 ∧ target.toInt - 1 < 0 := by
  unfold landing
  by_cases hleast : target.toInt = Value.least
  · rw [if_pos hleast, hleast]
    exact Or.inr ⟨rfl, by decide, by decide⟩
  · rw [if_neg hleast]
    exact Or.inl rfl

theorem simulated (op : Op) (counter : Int) (stack : Stack) (sink : Sink) :
    op.Simulated counter stack sink := by
  cases op with
  | binary f =>
    match stack with
    | [] | [_] => exact .of_underflow rfl rfl
    | a :: b :: rest => exact .of_compute (Or.inl ⟨f, rfl⟩) rfl rfl
  | immediate f c =>
    match stack with
    | [] => exact .of_underflow rfl rfl
    | a :: rest => exact .of_compute (Or.inr ⟨f, c, rfl⟩) rfl rfl
  | print =>
    match stack with
    | [] => exact .of_underflow rfl rfl
    | v :: rest => exact .of_output v.decimal rest rfl rfl
  | printChar =>
    match stack with
    | [] => exact .of_underflow rfl rfl
    | v :: rest =>
      have hsame : Ideal.char? v.toInt = Value.char? v := rfl
      cases hchar : Value.char? v with
      | none =>
        rw [hchar] at hsame
        refine .error (.notACharacter v) _ (v :: rest) sink ?_ ?_ rfl
        · rw [execute_printChar, hchar]
        · rw [List.map_cons, Ideal.execute_printChar, hsame]
      | some c =>
        rw [hchar] at hsame
        refine .of_output (String.singleton c) rest ?_ ?_
        · rw [execute_printChar, hchar]
        · rw [List.map_cons, Ideal.execute_printChar, hsame]
  | jump c target =>
    have hhead : (stack.map Int64.toInt).headD 0 = (stack.headD 0).toInt := by
      cases stack <;> rfl
    have hideal : Ideal.execute (.jump c target) counter (stack.map Int64.toInt) sink =
        ⟨.ok (if c.holds (stack.headD 0) then target.toInt - 1 else counter + 1),
          stack.tail.map Int64.toInt, sink⟩ := by
      rw [Ideal.execute_jump, hhead, Ideal.holds_toInt, List.map_tail]
    refine .ok _ _ stack.tail sink rfl hideal ?_
    by_cases htaken : c.holds (stack.headD 0) = true
    · rw [if_pos htaken, if_pos htaken]
      refine (landing_eq_or target).imp_right ?_
      rintro ⟨hleast, hnext, hnext'⟩
      exact ⟨c, target, rfl, hleast, htaken, hnext, hnext'⟩
    · rw [if_neg htaken, if_neg htaken]
      exact Or.inl rfl
  | dup =>
    match stack with
    | [] => exact .of_underflow rfl rfl
    | v :: rest => exact .ok _ _ (v :: v :: rest) sink rfl rfl (Or.inl rfl)
  | reverse count =>
    by_cases hdepth : count.toInt.toNat ≤ stack.length
    · have hdepth' : count.toInt.toNat ≤ (stack.map Int64.toInt).length := by
        rwa [List.length_map]
      refine .ok _ _ (stack.reverseTop count.toInt.toNat) sink (if_pos hdepth) ?_ (Or.inl rfl)
      rw [Ideal.execute_reverse hdepth', Stack.reverseTop, List.map_append, List.map_reverse,
        List.map_take, List.map_drop]
    · have hdepth' : ¬ count.toInt.toNat ≤ (stack.map Int64.toInt).length := by
        rwa [List.length_map]
      exact .of_underflow (if_neg hdepth) (if_neg hdepth')
  | load v => exact .ok _ _ (v :: stack) sink rfl rfl (Or.inl rfl)

end Op

namespace Machine

/-! ## One step -/

/-- The machine over all integers in the same state. -/
def ideal (m : Machine) : Ideal.Machine where
  stack := m.stack.map Int64.toInt
  counter := m.counter
  steps := m.steps
  sink := m.sink

/-- The same numbers on the stack, the same number of steps, and the same output and flushes. -/
structure Agrees (m : Machine) (i : Ideal.Machine) : Prop where
  stack : m.stack.map Int64.toInt = i.stack
  steps : m.steps = i.steps
  sink : m.sink = i.sink

/-- The next step takes a jump to the least value. -/
def JumpsToLeast (p : Program) (m : Machine) : Prop :=
  ∃ line c target, m.instruction? p = some ⟨line, .jump c target⟩ ∧
    target.toInt = Value.least ∧ c.holds (m.stack.headD 0) = true

/-- The next step fails with an overflow that names its instruction, and changes nothing. -/
def Overflows (p : Program) (m : Machine) : Prop :=
  ∃ i, m.instruction? p = some i ∧ m.step p = (.failed ⟨i.line, .overflow i.op.opcode⟩, m)

/-- The two ways in which a step and the exact step can go together. -/
inductive StepSimulated (p : Program) (m : Machine) (i : Ideal.Machine) : Prop where
  | agree (s : Status) (s' : Ideal.Status) (m' : Machine) (i' : Ideal.Machine)
      (h : m.step p = (s, m')) (hideal : i.step p = (s', i')) (hs : s.Matches s')
      (hagrees : m'.Agrees i')
      (hcounter : m'.counter = i'.counter ∨
        s = .running ∧ m.JumpsToLeast p ∧ m'.counter < 0 ∧ i'.counter < 0)
  | overflow (h : m.Overflows p) (r : Int) (hresult : i.result? p = some r)
      (hr : r < Value.least ∨ Value.greatest < r)

theorem step_simulated {p : Program} {m : Machine} {i : Ideal.Machine} (hagrees : m.Agrees i)
    (hcounter : m.counter = i.counter) : StepSimulated p m i := by
  have hinstruction : i.instruction? p = m.instruction? p := by
    rw [instruction?, Ideal.Machine.instruction?, hcounter]
  cases hm : m.instruction? p with
  | none =>
    rw [hm] at hinstruction
    exact .agree _ _ _ _ (step_halted hm) (Ideal.Machine.step_halted hinstruction) trivial hagrees
      (Or.inl hcounter)
  | some instr =>
    rw [hm] at hinstruction
    cases instr.op.simulated m.counter m.stack m.sink with
    | ok next next' stack' sink' h hideal hnext =>
      rw [hagrees.stack, hagrees.sink, hcounter] at hideal
      refine .agree _ _ _ _ (step_ok hm h) (Ideal.Machine.step_ok hinstruction hideal) trivial
        ⟨rfl, congrArg (· + 1) hagrees.steps, rfl⟩ ?_
      refine hnext.imp_right ?_
      rintro ⟨c, target, hop, hleast, htaken, hneg, hneg'⟩
      refine ⟨rfl, ⟨instr.line, c, target, ?_, hleast, htaken⟩, hneg, hneg'⟩
      rw [hm, ← hop]
    | error f f' stack' sink' h hideal hfault =>
      rw [hagrees.stack, hagrees.sink, hcounter] at hideal
      exact .agree _ _ _ _ (step_error hm h) (Ideal.Machine.step_error hinstruction hideal)
        ⟨rfl, hfault⟩ ⟨rfl, hagrees.steps, rfl⟩ (Or.inl hcounter)
    | overflow r rest hop h hideal hr =>
      rw [hagrees.stack, hagrees.sink, hcounter] at hideal
      refine .overflow ⟨instr, hm, step_error hm h⟩ r ?_ hr
      exact Ideal.Machine.result?_of_step hinstruction hop
        (Ideal.Machine.step_ok hinstruction hideal)

/-- Where the exact step leads to a state that agrees with one over values, its result is a
value. -/
theorem Agrees.result_mem {p : Program} {m' : Machine} {i i' : Ideal.Machine} {s : Ideal.Status}
    (hagrees : m'.Agrees i') (h : i.step p = (s, i')) {r : Int} (hr : i.result? p = some r) :
    Value.least ≤ r ∧ r ≤ Value.greatest := by
  obtain ⟨i'', hstep, hhead⟩ := Ideal.Machine.step_of_result? hr
  rw [h] at hstep
  cases hstep
  rw [← hagrees.stack, List.head?_map, Option.map_eq_some_iff] at hhead
  obtain ⟨v, -, rfl⟩ := hhead
  exact ⟨Value.least_le_toInt v, Value.toInt_le_greatest v⟩

end Machine

end Quaternary
