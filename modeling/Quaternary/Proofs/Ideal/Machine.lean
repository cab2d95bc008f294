import Mathlib.Data.Rat.Floor
import Quaternary.Machine

/-!
# The machine over all integers

The same machine with unbounded numbers: arithmetic is exact (`arith`), the counter after a jump
is the target less one, and no result is too large. The programs, the sink, the depths that
operations require, the rules for characters and the divisor zero are those of
`Quaternary.Machine`. A number that is no value can stand on the stack, so a fault may name one.

`Machine.ExceedsAt` marks the steps of a run with a result that 64 bits do not hold.
-/

namespace Quaternary.Ideal

inductive Fault where
  | underflow (opcode : Opcode) (required : Nat)
  | divisionByZero
  | notACharacter (code : Int)
  | outputFailed (cause : String)
  deriving DecidableEq, Repr

structure Outcome where
  result : Except Fault Int
  stack : List Int
  sink : Sink

def char? (v : Int) : Option Char :=
  if 0 ≤ v ∧ v.toNat.isValidChar then some (Char.ofNat v.toNat) else none

def holds : Cond → Int → Bool
  | .nonZero, v => v != 0
  | .zero, v => v == 0

/-- The exact result of an operation. A quotient is the floor of the rational one. -/
def arith : Arith → Int → Int → Int
  | .add, a, b => a + b
  | .sub, a, b => a - b
  | .mul, a, b => a * b
  | .div, a, b => ⌊(a / b : ℚ)⌋

def execute (op : Op) (counter : Int) (stack : List Int) (sink : Sink) : Outcome :=
  match op, stack with
  | .binary f, a :: b :: rest => compute f a b rest
  | .immediate f c, a :: rest => compute f a c.toInt rest
  | .print, v :: rest => output v.repr rest
  | .printChar, v :: rest =>
    match char? v with
    | some c => output (String.singleton c) rest
    | none => ⟨.error (.notACharacter v), stack, sink⟩
  | .jump c target, _ =>
    ⟨.ok (if holds c (stack.headD 0) then target.toInt - 1 else counter + 1), stack.tail, sink⟩
  | .dup, v :: rest => ⟨.ok (counter + 1), v :: v :: rest, sink⟩
  | .reverse count, _ =>
    if count.toInt.toNat ≤ stack.length then
      ⟨.ok (counter + 1),
        (stack.take count.toInt.toNat).reverse ++ stack.drop count.toInt.toNat, sink⟩
    else
      underflow
  | .load v, _ => ⟨.ok (counter + 1), v.toInt :: stack, sink⟩
  | _, _ => underflow
where
  /-- The exact result takes the place of the operands. Only a zero divisor has none. -/
  compute (f : Arith) (a b : Int) (rest : List Int) : Outcome :=
    if f = .div ∧ b = 0 then
      ⟨.error .divisionByZero, stack, sink⟩
    else
      ⟨.ok (counter + 1), arith f a b :: rest, sink⟩
  output (text : String) (rest : List Int) : Outcome :=
    match sink.emit text with
    | (.ok _, sink) => ⟨.ok (counter + 1), rest, sink⟩
    | (.error cause, sink) => ⟨.error (.outputFailed cause), rest, sink⟩
  underflow : Outcome := ⟨.error (.underflow op.opcode op.required), stack, sink⟩

theorem execute_printChar (counter v : Int) (rest : List Int) (sink : Sink) :
    execute .printChar counter (v :: rest) sink =
      match char? v with
      | some c => execute.output counter sink (String.singleton c) rest
      | none => ⟨.error (.notACharacter v), v :: rest, sink⟩ :=
  rfl

theorem execute_jump (c : Cond) (target : Value) (counter : Int) (stack : List Int) (sink : Sink) :
    execute (.jump c target) counter stack sink =
      ⟨.ok (if holds c (stack.headD 0) then target.toInt - 1 else counter + 1),
        stack.tail, sink⟩ :=
  rfl

theorem execute_reverse {count : Value} {stack : List Int}
    (h : count.toInt.toNat ≤ stack.length) (counter : Int) (sink : Sink) :
    execute (.reverse count) counter stack sink =
      ⟨.ok (counter + 1),
        (stack.take count.toInt.toNat).reverse ++ stack.drop count.toInt.toNat, sink⟩ :=
  if_pos h

structure Machine where
  stack : List Int := []
  counter : Int := 0
  steps : Nat := 0
  sink : Sink := {}

inductive Status where
  | running
  | halted
  | failed (line : Nat) (fault : Fault)
  deriving DecidableEq, Repr

namespace Machine

def instruction? (p : Program) (m : Machine) : Option Instruction :=
  if 0 ≤ m.counter then p.get? m.counter.toNat else none

def step (p : Program) (m : Machine) : Status × Machine :=
  match m.instruction? p with
  | none => (.halted, m)
  | some i =>
    match execute i.op m.counter m.stack m.sink with
    | ⟨.ok counter, stack, sink⟩ =>
      (.running, { stack, counter, sink, steps := m.steps + 1 })
    | ⟨.error fault, stack, sink⟩ => (.failed i.line fault, { m with stack, sink })

/-- What the machine has come to after a number of steps, or where it stopped before. -/
def run (p : Program) (m : Machine) : Nat → Status × Machine
  | 0 => (.running, m)
  | n + 1 =>
    match run p m n with
    | (.running, m') => m'.step p
    | stopped => stopped

/-- The exact result of the next step, if it does arithmetic and has one. -/
def result? (p : Program) (m : Machine) : Option Int :=
  match m.instruction? p, m.step p with
  | some ⟨_, .binary _⟩, (.running, m') | some ⟨_, .immediate ..⟩, (.running, m') =>
    m'.stack.head?
  | _, _ => none

/-- The run from `m` takes its first `n` steps, and the exact result of the step after them is
no value. -/
def ExceedsAt (p : Program) (m : Machine) (n : Nat) : Prop :=
  ∃ m' r, m.run p n = (.running, m') ∧ m'.result? p = some r ∧
    (r < Value.least ∨ Value.greatest < r)

/-- The step after the first `n` is the first one of the run whose exact result is no value. -/
def FirstExceedsAt (p : Program) (m : Machine) (n : Nat) : Prop :=
  m.ExceedsAt p n ∧ ∀ k < n, ¬ m.ExceedsAt p k

variable {p : Program} {m m' : Machine}

theorem run_succ_of_running {n : Nat} (h : m.run p n = (.running, m')) :
    m.run p (n + 1) = m'.step p := by
  rw [run, h]

theorem run_succ_of_stopped {n : Nat} {s : Status} (h : m.run p n = (s, m'))
    (hs : s ≠ .running) : m.run p (n + 1) = (s, m') := by
  rw [run, h]
  cases s with
  | running => exact absurd rfl hs
  | halted => rfl
  | failed line fault => rfl

theorem step_halted (h : m.instruction? p = none) : m.step p = (.halted, m) := by
  rw [step, h]

theorem step_ok {i : Instruction} {counter : Int} {stack : List Int} {sink : Sink}
    (hi : m.instruction? p = some i)
    (h : execute i.op m.counter m.stack m.sink = ⟨.ok counter, stack, sink⟩) :
    m.step p = (.running, { stack, counter, sink, steps := m.steps + 1 }) := by
  simp only [step, hi, h]

theorem step_error {i : Instruction} {fault : Fault} {stack : List Int} {sink : Sink}
    (hi : m.instruction? p = some i)
    (h : execute i.op m.counter m.stack m.sink = ⟨.error fault, stack, sink⟩) :
    m.step p = (.failed i.line fault, { m with stack, sink }) := by
  simp only [step, hi, h]

theorem step_of_result? {r : Int} (h : m.result? p = some r) :
    ∃ m', m.step p = (.running, m') ∧ m'.stack.head? = some r := by
  unfold result? at h
  split at h
  · next hstep => exact ⟨_, hstep, h⟩
  · next hstep => exact ⟨_, hstep, h⟩
  · cases h

theorem result?_of_step {line : Nat} {op : Op} (hi : m.instruction? p = some ⟨line, op⟩)
    (hop : (∃ f, op = .binary f) ∨ ∃ f c, op = .immediate f c)
    (hstep : m.step p = (.running, m')) : m.result? p = m'.stack.head? := by
  rw [result?, hi, hstep]
  obtain ⟨f, rfl⟩ | ⟨f, c, rfl⟩ := hop
  · rfl
  · rfl

end Machine

end Quaternary.Ideal
