import Quaternary.Proofs.Machine.Frame
import Quaternary.Proofs.Machine.Straight

/-!
# Operands from the argument and from the stack

An operation with an argument computes on the top of the stack and its argument. The same can be
done with both operands on the stack. Loading the argument puts it on top, in the place of the first
operand; where the order counts, the two operands then change places (`Arith.onStack`).

Both ways come to the same (`Machine.immediate_agrees_onStack`): they leave the same stack, or fail
for the same kind of reason. They do not fail with the same fault, as they name their own opcodes,
and an empty stack is noticed by an operation that asks for one value, or for two.
-/

namespace Quaternary

/-- The operations that compute `f` on the top of the stack and on `c`. -/
def Arith.onStack (c : Value) : Arith → List Op
  | .add => [.load c, .binary .add]
  | .sub => [.load c, .reverse 2, .binary .sub]
  | .mul => [.load c, .binary .mul]
  | .div => [.load c, .reverse 2, .binary .div]

theorem Arith.isJump_of_mem_onStack {f : Arith} {c : Value} {op : Op} (h : op ∈ f.onStack c) :
    op.isJump = false := by
  cases f <;> simp only [onStack, List.mem_cons, List.not_mem_nil, or_false] at h <;>
    rcases h with rfl | rfl | rfl <;> rfl

theorem Arith.apply_add_comm (a b : Value) : Arith.add.apply a b = Arith.add.apply b a := by
  simp only [apply, exact, Int.add_comm]
  rfl

theorem Arith.apply_mul_comm (a b : Value) : Arith.mul.apply a b = Arith.mul.apply b a := by
  simp only [apply, exact, Int.mul_comm]
  rfl

/-- Two faults of the same kind, of the kinds that arithmetic has. -/
inductive Fault.Akin : Fault → Fault → Prop where
  | underflow (o o' : Opcode) (n n' : Nat) : Akin (.underflow o n) (.underflow o' n')
  | divisionByZero : Akin .divisionByZero .divisionByZero
  | overflow (o o' : Opcode) : Akin (.overflow o) (.overflow o')

theorem Fault.akin_ofArith (o o' : Opcode) (e : Arith.Error) :
    Akin (.ofArith o e) (.ofArith o' e) := by
  cases e with
  | divisionByZero => exact .divisionByZero
  | overflow => exact .overflow o o'

namespace Machine

variable {p q : Program} {m start : Machine} {op : Op} {f : Arith} {a b c : Value} {rest : Stack}

/-! ## The operations in order -/

theorem inOrder_compute
    (h : op.execute m.counter m.stack m.sink =
      Op.execute.compute op m.counter m.stack m.sink f a b rest) :
    inOrder [op] m =
      match f.apply a b with
      | .ok v =>
        (none, { m with stack := v :: rest, counter := m.counter + 1, steps := m.steps + 1 })
      | .error e => (some (.ofArith op.opcode e), m) := by
  unfold Op.execute.compute at h
  cases happly : f.apply a b with
  | ok v =>
    rw [happly] at h
    exact inOrder_cons_ok h []
  | error e =>
    rw [happly] at h
    exact inOrder_cons_error h []

theorem execute_reverse_two (counter : Int) (rest : Stack) (sink : Sink) :
    (Op.reverse 2).execute counter (c :: a :: rest) sink =
      ⟨.ok (counter + 1), a :: c :: rest, sink⟩ := by
  have hdepth : Int.toNat (Int64.toInt 2) ≤ (c :: a :: rest).length :=
    Nat.le_add_left 2 rest.length
  exact Op.execute_reverse hdepth counter sink

/-- The operations before the last put the operands on the stack, in an order that gives the same
result. -/
theorem exists_inOrder_onStack (f : Arith) (c a : Value) (rest : Stack) (sink : Sink) :
    ∃ (m : Machine) (x y : Value), m.stack = x :: y :: rest ∧ m.sink = sink ∧
      f.apply x y = f.apply a c ∧
      inOrder (f.onStack c) { stack := a :: rest, sink } = inOrder [.binary f] m := by
  have hloaded : ∀ later, inOrder (.load c :: later) { stack := a :: rest, sink } =
      inOrder later { stack := c :: a :: rest, counter := 1, steps := 1, sink } := fun _ => rfl
  have hreversed : ∀ later,
      inOrder (.reverse 2 :: later) { stack := c :: a :: rest, counter := 1, steps := 1, sink } =
        inOrder later { stack := a :: c :: rest, counter := 2, steps := 2, sink } :=
    fun later => inOrder_cons_ok (execute_reverse_two 1 rest sink) later
  cases f with
  | add => exact ⟨_, c, a, rfl, rfl, Arith.apply_add_comm c a, hloaded _⟩
  | mul => exact ⟨_, c, a, rfl, rfl, Arith.apply_mul_comm c a, hloaded _⟩
  | sub => exact ⟨_, a, c, rfl, rfl, rfl, (hloaded _).trans (hreversed _)⟩
  | div => exact ⟨_, a, c, rfl, rfl, rfl, (hloaded _).trans (hreversed _)⟩

/-- On an empty stack the argument is the only operand, which either the change of places or the
operation itself notices. -/
theorem exists_inOrder_onStack_nil (f : Arith) (c : Value) (sink : Sink) :
    ∃ (o : Opcode) (n : Nat) (m : Machine), m.sink = sink ∧
      inOrder (f.onStack c) { stack := [], sink } = (some (.underflow o n), m) := by
  cases f with
  | add | mul | sub | div => exact ⟨_, _, _, rfl, rfl⟩

/-! ## The programs -/

/-- Both programs end without having printed, and halt with the same stack or fail for the same kind
of reason. -/
inductive AgreeFrom (p q : Program) (start : Machine) : Prop where
  | halted {m m' : Machine} (hp : start.Ends p .halted m) (hq : start.Ends q .halted m')
      (hstack : m.stack = m'.stack) (hsink : m.sink = start.sink) (hsink' : m'.sink = start.sink)
  | failed {e e' : RuntimeError} {m m' : Machine} (hp : start.Ends p (.failed e) m)
      (hq : start.Ends q (.failed e') m') (hakin : e.fault.Akin e'.fault)
      (hsink : m.sink = start.sink) (hsink' : m'.sink = start.sink)

theorem AgreeFrom.of_faults {fault fault' : Fault} {m m' : Machine}
    (hp : start.EndsAs p m (some fault)) (hq : start.EndsAs q m' (some fault'))
    (hakin : fault.Akin fault') (hsink : m.sink = start.sink) (hsink' : m'.sink = start.sink) :
    AgreeFrom p q start := by
  obtain ⟨line, hp⟩ := hp
  obtain ⟨line', hq⟩ := hq
  exact .failed hp hq hakin hsink hsink'

/-- A program of one operation with an argument, and a program that computes the same on the stack,
come to the same from every stack, whatever their lines are. -/
theorem immediate_agrees_onStack (f : Arith) (c : Value) (hp : p.ops = [.immediate f c])
    (hq : q.ops = f.onStack c) (stack : Stack) (sink : Sink) : AgreeFrom p q { stack, sink } := by
  have hends : EndsAs p { stack, sink } _ _ :=
    ends_of_inOrder (hp ▸ pointsTo_start p stack sink) (by simp [Op.isJump])
  have hends' : EndsAs q { stack, sink } _ _ :=
    ends_of_inOrder (hq ▸ pointsTo_start q stack sink) fun _ => Arith.isJump_of_mem_onStack
  cases stack with
  | nil =>
    obtain ⟨o, n, m, hsink, hinOrder⟩ := exists_inOrder_onStack_nil f c sink
    rw [hinOrder] at hends'
    exact .of_faults hends hends' (.underflow (.immediate f) o 1 n) rfl hsink
  | cons a rest =>
    obtain ⟨m, x, y, hstack, hsink, hsame, hinOrder⟩ := exists_inOrder_onStack f c a rest sink
    have hbinary : (Op.binary f).execute m.counter m.stack m.sink =
        Op.execute.compute (.binary f) m.counter m.stack m.sink f x y rest := by
      rw [hstack]
      rfl
    rw [hinOrder, inOrder_compute hbinary, hsame] at hends'
    rw [inOrder_compute (Op.execute_immediate f c 0 a rest sink)] at hends
    -- the same computation decides how both end
    cases happly : f.apply a c with
    | ok v =>
      rw [happly] at hends hends'
      exact .halted hends hends' rfl rfl hsink
    | error e =>
      rw [happly] at hends hends'
      exact .of_faults hends hends' (Fault.akin_ofArith _ _ e) rfl hsink

/-- A subtraction, against a program on lines of its own, and a division by zero, which fails in
both programs from a stack of two values as from an empty one. -/
theorem immediate_agrees_onStack_ten :
    AgreeFrom ⟨#[⟨1, .immediate .sub 3⟩]⟩ ⟨#[⟨4, .load 3⟩, ⟨6, .reverse 2⟩, ⟨9, .binary .sub⟩]⟩
        { stack := [10, 5] } ∧
      AgreeFrom ⟨#[⟨1, .immediate .div 0⟩]⟩ division { stack := [10, 5] } ∧
      AgreeFrom ⟨#[⟨1, .immediate .div 0⟩]⟩ division {} :=
  ⟨immediate_agrees_onStack .sub 3 rfl rfl [10, 5] {},
    immediate_agrees_onStack .div 0 rfl rfl [10, 5] {},
    immediate_agrees_onStack .div 0 rfl rfl [] {}⟩

end Machine

end Quaternary
