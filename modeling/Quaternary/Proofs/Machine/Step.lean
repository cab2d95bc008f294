import Quaternary.Machine

/-!
# What one step can do

An operation meets the sink in one way only, by printing one text. `Op.behaviour` says so: on a
given counter and stack an operation either succeeds without the sink, or has a fault that
leaves stack and sink alone, or takes the top value and prints a text, and then the sink alone
decides between success and an output fault.

A step is described by the outcome of the instruction at the counter (`Machine.step_ok`,
`Machine.step_error`, `Machine.step_halted`; conversely `Machine.stepped_of_step`), and a run by its
last step (`Machine.run_succ_of_running`). Only a jump moves the counter elsewhere than to the next
instruction (`Machine.counter_of_step_running`).
-/

namespace Quaternary

namespace Op

/-- What an operation does on a counter and a stack, whatever the sink. -/
inductive Behaviour (op : Op) (counter : Int) (stack : Stack) : Prop where
  /-- It succeeds and leaves the sink alone. -/
  | silent (counter' : Int) (stack' : Stack)
      (h : ∀ sink, op.execute counter stack sink = ⟨.ok counter', stack', sink⟩)
  /-- It has a fault of its own and leaves stack and sink alone. -/
  | fault (f : Fault) (hf : ∀ cause, f ≠ .outputFailed cause)
      (h : ∀ sink, op.execute counter stack sink = ⟨.error f, stack, sink⟩)
  /-- It takes the top value and prints a text. -/
  | output (hop : op = .print ∨ op = .printChar) (v : Value) (rest : Stack) (text : String)
      (hstack : stack = v :: rest)
      (h : ∀ sink, op.execute counter stack sink = execute.output counter sink text rest)

theorem execute_binary (f : Arith) (counter : Int) (a b : Value) (rest : Stack) (sink : Sink) :
    (binary f).execute counter (a :: b :: rest) sink =
      execute.compute (binary f) counter (a :: b :: rest) sink f a b rest :=
  rfl

theorem execute_immediate (f : Arith) (c : Value) (counter : Int) (a : Value) (rest : Stack)
    (sink : Sink) :
    (immediate f c).execute counter (a :: rest) sink =
      execute.compute (immediate f c) counter (a :: rest) sink f a c rest :=
  rfl

theorem execute_printChar (counter : Int) (v : Value) (rest : Stack) (sink : Sink) :
    printChar.execute counter (v :: rest) sink =
      match Value.char? v with
      | some c => execute.output counter sink (String.singleton c) rest
      | none => ⟨.error (.notACharacter v), v :: rest, sink⟩ :=
  rfl

theorem execute_reverse {count : Value} {stack : Stack} (h : count.toInt.toNat ≤ stack.length)
    (counter : Int) (sink : Sink) :
    (reverse count).execute counter stack sink =
      ⟨.ok (counter + 1), stack.reverseTop count.toInt.toNat, sink⟩ :=
  if_pos h

theorem Behaviour.of_compute {op : Op} {counter : Int} {stack rest : Stack} {f : Arith}
    {a b : Value}
    (h : ∀ sink, op.execute counter stack sink =
      execute.compute op counter stack sink f a b rest) :
    op.Behaviour counter stack := by
  unfold execute.compute at h
  cases happly : f.apply a b with
  | ok v =>
    refine .silent (counter + 1) (v :: rest) ?_
    intro sink
    rw [h, happly]
  | error e =>
    refine .fault (.ofArith op.opcode e) ?_ ?_
    · intro cause
      cases e <;> simp [Fault.ofArith]
    · intro sink
      rw [h, happly]

theorem Behaviour.of_underflow {op : Op} {counter : Int} {stack : Stack}
    (h : ∀ sink, op.execute counter stack sink = execute.underflow op stack sink) :
    op.Behaviour counter stack :=
  .fault (.underflow op.opcode op.required) (fun _ => Fault.noConfusion) h

theorem behaviour (op : Op) (counter : Int) (stack : Stack) : op.Behaviour counter stack := by
  cases op with
  | binary f =>
    match stack with
    | [] | [_] => exact .of_underflow fun _ => rfl
    | a :: b :: rest => exact .of_compute (f := f) (a := a) (b := b) fun _ => rfl
  | immediate f c =>
    match stack with
    | [] => exact .of_underflow fun _ => rfl
    | a :: rest => exact .of_compute (f := f) (a := a) (b := c) fun _ => rfl
  | print =>
    match stack with
    | [] => exact .of_underflow fun _ => rfl
    | v :: rest => exact .output (Or.inl rfl) v rest v.decimal rfl fun _ => rfl
  | printChar =>
    match stack with
    | [] => exact .of_underflow fun _ => rfl
    | v :: rest =>
      cases hchar : Value.char? v with
      | none =>
        refine .fault (.notACharacter v) (fun _ => Fault.noConfusion) ?_
        intro sink
        rw [execute_printChar, hchar]
      | some c =>
        refine .output (Or.inr rfl) v rest (String.singleton c) rfl ?_
        intro sink
        rw [execute_printChar, hchar]
  | jump c target => exact .silent _ _ fun _ => rfl
  | dup =>
    match stack with
    | [] => exact .of_underflow fun _ => rfl
    | v :: rest => exact .silent _ _ fun _ => rfl
  | reverse count =>
    by_cases hdepth : count.toInt.toNat ≤ stack.length
    · exact .silent _ _ (execute_reverse hdepth counter)
    · exact .of_underflow fun _ => if_neg hdepth
  | load v => exact .silent _ _ fun _ => rfl

/-! ## The next counter -/

theorem counter_of_compute {op : Op} {counter counter' : Int} {stack rest : Stack} {sink : Sink}
    {f : Arith} {a b : Value}
    (h : (execute.compute op counter stack sink f a b rest).result = .ok counter') :
    counter' = counter + 1 := by
  unfold execute.compute at h
  cases happly : f.apply a b with
  | ok v =>
    rw [happly] at h
    exact (Except.ok.inj h).symm
  | error e =>
    rw [happly] at h
    cases h

theorem counter_of_output {counter counter' : Int} {sink : Sink} {text : String} {rest : Stack}
    (h : (execute.output counter sink text rest).result = .ok counter') :
    counter' = counter + 1 := by
  unfold execute.output at h
  split at h
  · exact (Except.ok.inj h).symm
  · cases h

/-- An operation that succeeds moves the counter by one, unless it is a jump that is taken. -/
theorem counter_of_execute {op : Op} {counter counter' : Int} {stack : Stack} {sink : Sink}
    (h : (op.execute counter stack sink).result = .ok counter') :
    counter' = counter + 1 ∨ ∃ c target, op = .jump c target ∧ counter' = landing target := by
  cases op with
  | binary f =>
    match stack, h with
    | a :: b :: rest, h => exact Or.inl (counter_of_compute h)
  | immediate f c =>
    match stack, h with
    | a :: rest, h => exact Or.inl (counter_of_compute h)
  | print =>
    match stack, h with
    | v :: rest, h => exact Or.inl (counter_of_output h)
  | printChar =>
    match stack, h with
    | v :: rest, h =>
      rw [execute_printChar] at h
      split at h
      · exact Or.inl (counter_of_output h)
      · cases h
  | jump c target =>
    have hcounter : (if c.holds (stack.headD 0) then landing target else counter + 1) = counter' :=
      Except.ok.inj h
    by_cases htaken : c.holds (stack.headD 0) = true
    · rw [if_pos htaken] at hcounter
      exact Or.inr ⟨c, target, rfl, hcounter.symm⟩
    · rw [if_neg htaken] at hcounter
      exact Or.inl hcounter.symm
  | dup =>
    match stack, h with
    | v :: rest, h => exact Or.inl (Except.ok.inj h).symm
  | reverse count =>
    by_cases hdepth : count.toInt.toNat ≤ stack.length
    · rw [execute_reverse hdepth] at h
      exact Or.inl (Except.ok.inj h).symm
    · have herror : (reverse count).execute counter stack sink = _ := if_neg hdepth
      rw [herror] at h
      cases h
  | load v => exact Or.inl (Except.ok.inj h).symm

end Op

namespace Machine

variable {p : Program} {m m' : Machine}

theorem instruction?_eq_some_iff {i : Instruction} :
    m.instruction? p = some i ↔
      0 ≤ m.counter ∧ m.counter < p.size ∧ p.get? m.counter.toNat = some i := by
  unfold instruction?
  constructor
  · intro h
    split at h
    · next hcounter =>
      obtain ⟨hindex, -⟩ := Array.getElem?_eq_some_iff.mp h
      have hsize : m.counter < p.size := by
        unfold Program.size
        omega
      exact ⟨hcounter, hsize, h⟩
    · cases h
  · rintro ⟨hcounter, -, hget⟩
    rw [if_pos hcounter, hget]

theorem mem_of_instruction? {i : Instruction} (h : m.instruction? p = some i) :
    i ∈ p.instructions :=
  Array.mem_of_getElem? (instruction?_eq_some_iff.mp h).2.2

theorem step_halted (h : m.instruction? p = none) : m.step p = (.halted, m) := by
  rw [step, h]

theorem step_ok {i : Instruction} {counter : Int} {stack : Stack} {sink : Sink}
    (hi : m.instruction? p = some i)
    (h : i.op.execute m.counter m.stack m.sink = ⟨.ok counter, stack, sink⟩) :
    m.step p = (.running, { stack, counter, sink, steps := m.steps + 1 }) := by
  simp only [step, hi, h]

theorem step_error {i : Instruction} {fault : Fault} {stack : Stack} {sink : Sink}
    (hi : m.instruction? p = some i)
    (h : i.op.execute m.counter m.stack m.sink = ⟨.error fault, stack, sink⟩) :
    m.step p = (.failed ⟨i.line, fault⟩, { m with stack, sink }) := by
  simp only [step, hi, h]

/-- All that a step can do. -/
inductive Stepped (p : Program) (m : Machine) : Status → Machine → Prop where
  | halted (h : m.instruction? p = none) : Stepped p m .halted m
  | ok {i : Instruction} {counter : Int} {stack : Stack} {sink : Sink}
      (hi : m.instruction? p = some i)
      (h : i.op.execute m.counter m.stack m.sink = ⟨.ok counter, stack, sink⟩) :
      Stepped p m .running { stack, counter, sink, steps := m.steps + 1 }
  | failed {i : Instruction} {fault : Fault} {stack : Stack} {sink : Sink}
      (hi : m.instruction? p = some i)
      (h : i.op.execute m.counter m.stack m.sink = ⟨.error fault, stack, sink⟩) :
      Stepped p m (.failed ⟨i.line, fault⟩) { m with stack, sink }

theorem stepped_of_step {s : Status} (h : m.step p = (s, m')) : Stepped p m s m' := by
  cases hi : m.instruction? p with
  | none =>
    rw [step_halted hi] at h
    cases h
    exact .halted hi
  | some i =>
    rcases hexec : i.op.execute m.counter m.stack m.sink with ⟨result, stack, sink⟩
    cases result with
    | ok counter =>
      rw [step_ok hi hexec] at h
      cases h
      exact .ok hi hexec
    | error fault =>
      rw [step_error hi hexec] at h
      cases h
      exact .failed hi hexec

/-- A step that succeeds moves the counter by one, or to the landing of a jump at the counter. -/
theorem counter_of_step_running (h : m.step p = (.running, m')) :
    ∃ i, m.instruction? p = some i ∧
      (m'.counter = m.counter + 1 ∨
        ∃ c target, i.op = .jump c target ∧ m'.counter = Op.landing target) := by
  cases stepped_of_step h with
  | @ok i counter _ _ hi hexec =>
    have hresult : (i.op.execute m.counter m.stack m.sink).result = .ok counter := by rw [hexec]
    exact ⟨i, hi, Op.counter_of_execute hresult⟩

/-- A step that fails has an instruction at the counter, whose fault it reports, and keeps the
counter and the number of steps. -/
theorem exists_error_of_step_failed {e : RuntimeError} (h : m.step p = (.failed e, m')) :
    ∃ i, m.instruction? p = some i ∧ i.line = e.line ∧
      i.op.execute m.counter m.stack m.sink = ⟨.error e.fault, m'.stack, m'.sink⟩ ∧
      m'.counter = m.counter ∧ m'.steps = m.steps := by
  cases stepped_of_step h with
  | failed hi hexec => exact ⟨_, hi, rfl, hexec, rfl, rfl⟩

/-! ## The last step of a run -/

theorem run_one (p : Program) (m : Machine) : m.run p 1 = m.step p := by
  rcases h : m.step p with ⟨s, m'⟩
  by_cases hs : s = .running
  · subst hs
    exact run_succ_of_step h 0
  · exact run_succ_of_stop h hs 0

/-- A run ends where a step leads out of the program. -/
theorem run_of_step_out (h : m.step p = (.running, m')) (hout : m'.instruction? p = none)
    (budget : Nat) : m.run p (budget + 2) = (.halted, m') := by
  rw [run_succ_of_step h]
  apply run_succ_of_stop
  · exact step_halted hout
  · simp

theorem run_succ_of_running {n : Nat} (h : m.run p n = (.running, m')) :
    m.run p (n + 1) = m'.step p := by
  rw [run_add, h]
  exact run_one p m'

/-- A run that has stopped stays where it is. -/
theorem run_of_stopped {n k : Nat} {s : Status} (h : m.run p n = (s, m')) (hs : s ≠ .running)
    (hk : n ≤ k) : m.run p k = (s, m') := by
  obtain ⟨d, rfl⟩ := Nat.exists_eq_add_of_le hk
  rw [run_add, h]
  cases s with
  | running => exact absurd rfl hs
  | halted => rfl
  | failed e => rfl

theorem stopped_unique {n k : Nat} {s s' : Status} {m₁ m₂ : Machine} (h₁ : m.run p n = (s, m₁))
    (hs : s ≠ .running) (h₂ : m.run p k = (s', m₂)) (hs' : s' ≠ .running) :
    s = s' ∧ m₁ = m₂ := by
  have heq := (run_of_stopped h₁ hs (Nat.le_add_right n k)).symm.trans
    (run_of_stopped h₂ hs' (Nat.le_add_left k n))
  cases heq
  exact ⟨rfl, rfl⟩

/-- A run that has stopped did so in one of its steps. -/
theorem exists_step_of_stopped {n : Nat} {s : Status} (h : m.run p n = (s, m'))
    (hs : s ≠ .running) :
    ∃ k m₁, k < n ∧ m.run p k = (.running, m₁) ∧ m₁.step p = (s, m') := by
  induction n with
  | zero =>
    cases h
    exact absurd rfl hs
  | succ n ih =>
    rcases hrun : m.run p n with ⟨s₁, m₁⟩
    by_cases hs₁ : s₁ = .running
    · subst hs₁
      rw [run_succ_of_running hrun] at h
      exact ⟨n, m₁, Nat.lt_succ_self n, hrun, h⟩
    · rw [run_of_stopped hrun hs₁ (Nat.le_succ n)] at h
      obtain ⟨k, m₂, hk, hrun₂, hstep⟩ := ih (hrun.trans h)
      exact ⟨k, m₂, Nat.lt_succ_of_lt hk, hrun₂, hstep⟩

theorem exists_running_of_le {n k : Nat} (h : m.run p n = (.running, m')) (hk : k ≤ n) :
    ∃ m₁, m.run p k = (.running, m₁) := by
  rcases hrun : m.run p k with ⟨s, m₁⟩
  cases s with
  | running => exact ⟨m₁, rfl⟩
  | halted | failed e =>
    rw [run_of_stopped hrun (by simp) hk] at h
    cases h

/-- What holds at the start and is kept by every step that succeeds holds as long as a run goes
on. -/
theorem running_induction {motive : Nat → Machine → Prop} (zero : motive 0 m)
    (succ : ∀ n m₁ m₂, m.run p n = (.running, m₁) → m₁.step p = (.running, m₂) → motive n m₁ →
      motive (n + 1) m₂)
    {n : Nat} (h : m.run p n = (.running, m')) : motive n m' := by
  induction n generalizing m' with
  | zero =>
    cases h
    exact zero
  | succ n ih =>
    obtain ⟨m₁, hrun⟩ := exists_running_of_le h (Nat.le_succ n)
    rw [run_succ_of_running hrun] at h
    exact succ n m₁ m' hrun h (ih hrun)

end Machine

end Quaternary
