import Quaternary.Proofs.Machine.Step

/-!
# Values below the stack

An operation looks at the values that it requires and at none below them. `Machine.onto` puts
further values below the stack of a machine; as long as no operation of the run misses a value,
these stay where they are and change nothing else (`Machine.run_onto`). This holds for a fault as
well, since a failing operation leaves the operands in their place.

There is one exception. A jump takes an empty stack for a zero, so it requires nothing and yet
looks at the top. Values below an empty stack would be seen by it, and might turn it the other way.
`Machine.JumpsOnEmpty` singles these steps out.
-/

namespace Quaternary

theorem Stack.reverseTop_append {n : Nat} {s : Stack} (h : n ≤ s.length) (base : Stack) :
    reverseTop n (s ++ base) = reverseTop n s ++ base := by
  rw [reverseTop, reverseTop, List.take_append_of_le_length h, List.drop_append_of_le_length h,
    List.append_assoc]

/-! ## One operation -/

/-- The outcome with further values below the stack. -/
def Outcome.onto (o : Outcome) (base : Stack) : Outcome := { o with stack := o.stack ++ base }

namespace Op

variable {op : Op} {counter : Int} {stack rest : Stack} {sink : Sink}

/-- An operation that misses a value has an underflow, whatever else is wrong. -/
theorem execute_of_length_lt (h : stack.length < op.required) (counter : Int) (sink : Sink) :
    op.execute counter stack sink = ⟨.error (.underflow op.opcode op.required), stack, sink⟩ := by
  cases op with
  | binary f =>
    match stack, h with
    | [], _ | [_], _ => rfl
    | _ :: _ :: rest, h =>
      simp only [required, List.length_cons] at h
      omega
  | immediate | print | printChar | dup =>
    match stack, h with
    | [], _ => rfl
    | _ :: rest, h =>
      simp only [required, List.length_cons] at h
      omega
  | reverse count =>
    simp only [required] at h
    exact if_neg (Nat.not_le_of_lt h)
  | jump c target => exact absurd h (Nat.not_lt_zero _)
  | load v => exact absurd h (Nat.not_lt_zero _)

theorem compute_append (f : Arith) (a b : Value) (base : Stack) :
    execute.compute op counter (stack ++ base) sink f a b (rest ++ base) =
      (execute.compute op counter stack sink f a b rest).onto base := by
  unfold execute.compute
  cases f.apply a b with
  | ok v => rfl
  | error e => rfl

theorem output_append (text : String) (base : Stack) :
    execute.output counter sink text (rest ++ base) =
      (execute.output counter sink text rest).onto base := by
  unfold execute.output
  split <;> rfl

/-- An operation that has the values that it requires does not look below them. A jump has to have
a value even though it requires none. -/
theorem execute_append (hdepth : op.required ≤ stack.length)
    (hjump : op.isJump = true → stack ≠ []) (counter : Int) (sink : Sink) (base : Stack) :
    op.execute counter (stack ++ base) sink = (op.execute counter stack sink).onto base := by
  cases op with
  | binary f =>
    match stack, hdepth with
    | a :: b :: rest, _ => exact compute_append f a b base
  | immediate f c =>
    match stack, hdepth with
    | a :: rest, _ => exact compute_append f a c base
  | print =>
    match stack, hdepth with
    | v :: rest, _ => exact output_append v.decimal base
  | printChar =>
    match stack, hdepth with
    | v :: rest, _ =>
      rw [List.cons_append, execute_printChar, execute_printChar]
      cases Value.char? v with
      | none => rfl
      | some c => exact output_append (String.singleton c) base
  | jump c target =>
    match stack, hjump rfl with
    | v :: rest, _ => rfl
  | dup =>
    match stack, hdepth with
    | v :: rest, _ => rfl
  | reverse count =>
    have hcount : count.toInt.toNat ≤ stack.length := hdepth
    have hlong : count.toInt.toNat ≤ (stack ++ base).length := by
      rw [List.length_append]
      exact Nat.le_add_right_of_le hcount
    rw [execute_reverse hcount, execute_reverse hlong, Stack.reverseTop_append hcount]
    rfl
  | load v => rfl

end Op

namespace Machine

variable {p : Program} {m m' start : Machine} {n : Nat}

/-! ## One step -/

/-- The machine with further values below its stack. -/
def onto (m : Machine) (base : Stack) : Machine := { m with stack := m.stack ++ base }

/-- The next step is a jump on an empty stack. -/
def JumpsOnEmpty (p : Program) (m : Machine) : Prop :=
  m.stack = [] ∧ ∃ i, m.instruction? p = some i ∧ i.op.isJump = true

theorem execute_onto {i : Instruction} (hi : m.instruction? p = some i)
    (hjump : ¬ m.JumpsOnEmpty p)
    (hresult : ∀ opcode required,
      (i.op.execute m.counter m.stack m.sink).result ≠ .error (.underflow opcode required))
    (base : Stack) :
    i.op.execute m.counter (m.stack ++ base) m.sink =
      (i.op.execute m.counter m.stack m.sink).onto base := by
  apply Op.execute_append
  · apply Nat.le_of_not_lt
    intro hlt
    apply hresult i.op.opcode i.op.required
    rw [Op.execute_of_length_lt hlt]
  · intro hop hempty
    exact hjump ⟨hempty, i, hi, hop⟩

/-- A step that is no jump on an empty stack and has no underflow is the same with further values
below the stack. -/
theorem step_onto {s : Status} (h : m.step p = (s, m')) (hjump : ¬ m.JumpsOnEmpty p)
    (hfault : ∀ e, s = .failed e → ∀ opcode required, e.fault ≠ .underflow opcode required)
    (base : Stack) : (m.onto base).step p = (s, m'.onto base) := by
  cases stepped_of_step h with
  | halted hi => exact step_halted hi
  | ok hi hexec =>
    have honto := execute_onto hi hjump (by simp [hexec]) base
    rw [hexec] at honto
    exact step_ok hi honto
  | failed hi hexec =>
    have honto := execute_onto hi hjump (by simpa [hexec] using hfault _ rfl) base
    rw [hexec] at honto
    exact step_error hi honto

/-! ## A run -/

theorem run_onto (h : start.run p n = (.running, m))
    (hjumps : ∀ k < n, ∀ m', start.run p k = (.running, m') → ¬ m'.JumpsOnEmpty p)
    (base : Stack) : (start.onto base).run p n = (.running, m.onto base) := by
  refine running_induction (motive := fun n m =>
    (∀ k < n, ∀ m', start.run p k = (.running, m') → ¬ m'.JumpsOnEmpty p) →
      (start.onto base).run p n = (.running, m.onto base)) (fun _ => rfl) ?_ h hjumps
  intro n m₁ m₂ hrun hstep ih hjumps
  have honto := ih fun k hk => hjumps k (Nat.lt_succ_of_lt hk)
  rw [run_succ_of_running honto]
  refine step_onto hstep (hjumps n (Nat.lt_succ_self n) m₁ hrun) ?_ base
  rintro e ⟨⟩

theorem not_jumpsOnEmpty_of_failed {e : RuntimeError} (h : m.step p = (.failed e, m')) :
    ¬ m.JumpsOnEmpty p := by
  rintro ⟨-, i, hi, hop⟩
  obtain ⟨j, hj, -, hexec, -, -⟩ := exists_error_of_step_failed h
  obtain rfl : i = j := Option.some.inj (hi.symm.trans hj)
  rcases i with ⟨line, op⟩
  cases op with
  | jump c target => cases hexec
  | _ => cases hop

/-- While a run makes no jump on an empty stack, it goes on in the same way with further values
below the stack, which stay below the stack of every step. If the next step fails, other than by an
underflow, it fails in the same way too. -/
theorem run_framed (base : Stack) (h : start.run p n = (.running, m))
    (hjumps : ∀ k < n, ∀ m', start.run p k = (.running, m') → ¬ m'.JumpsOnEmpty p) :
    (∀ k ≤ n, ∃ m', start.run p k = (.running, m') ∧
      (start.onto base).run p k = (.running, m'.onto base)) ∧
    ∀ (e : RuntimeError) (m' : Machine), m.step p = (.failed e, m') →
      (∀ opcode required, e.fault ≠ .underflow opcode required) →
        (m.onto base).step p = (.failed e, m'.onto base) := by
  constructor
  · intro k hk
    obtain ⟨m', hrun⟩ := exists_running_of_le h hk
    exact ⟨m', hrun, run_onto hrun (fun j hj => hjumps j (Nat.lt_of_lt_of_le hj hk)) base⟩
  · intro e m' hstep hfault
    refine step_onto hstep (not_jumpsOnEmpty_of_failed hstep) ?_ base
    rintro _ ⟨⟩
    exact hfault

/-- Divides the value that is given by zero. -/
def division : Program := ⟨#[⟨1, .load 0⟩, ⟨2, .reverse 2⟩, ⟨3, .binary .div⟩]⟩

/-- A division by zero over two further values. The run up to it brings the operands into their
order above these values, and the fault leaves all four. -/
theorem run_framed_division :
    run division 2 (onto { stack := [4] } [7, 9]) =
        (.running, { stack := [4, 0, 7, 9], counter := 2, steps := 2 }) ∧
      step division { stack := [4, 0, 7, 9], counter := 2, steps := 2 } =
        (.failed ⟨3, .divisionByZero⟩, { stack := [4, 0, 7, 9], counter := 2, steps := 2 }) := by
  have hrun : run division 2 { stack := [4] } =
      (.running, { stack := [4, 0], counter := 2, steps := 2 }) := rfl
  have hjumps : ∀ k < 2, ∀ m', run division k { stack := [4] } = (.running, m') →
      ¬ m'.JumpsOnEmpty division := by
    intro k hk m' hk'
    match k, hk with
    | 0, _ | 1, _ =>
      cases hk'
      rintro ⟨⟨⟩, -⟩
  obtain ⟨hsteps, hfails⟩ := run_framed [7, 9] hrun hjumps
  obtain ⟨m', hm', honto⟩ := hsteps 2 (Nat.le_refl 2)
  cases hm'
  exact ⟨honto, hfails ⟨3, .divisionByZero⟩ _ rfl fun _ _ => Fault.noConfusion⟩

/-- The values below decide a jump on an empty stack. -/
example : (run ⟨#[⟨1, .jump .zero 5⟩]⟩ 1 {}).2.counter = 4 ∧
    (run ⟨#[⟨1, .jump .zero 5⟩]⟩ 1 (onto {} [7])).2.counter = 1 :=
  ⟨rfl, rfl⟩

end Machine

end Quaternary
