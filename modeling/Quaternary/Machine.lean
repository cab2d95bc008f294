import Quaternary.Execution
import Quaternary.Program

/-!
# The machine

A machine has a stack, a counter and a sink, and it counts its steps. It executes the
instruction that the counter points to until the counter points to none, be it below or above
the program. A step that fails leaves the counter and the number of steps as they were, so a
later step tries the same instruction again.
-/

namespace Quaternary

structure Machine where
  stack : Stack := []
  counter : Int := 0
  /-- The number of instructions executed so far. It is not bounded: that a counter of 64 bits would
  overflow after `2 ^ 64` steps is left out of account. -/
  steps : Nat := 0
  sink : Sink := {}

/-- How a step, or a run of several, ends. -/
inductive Status where
  /-- The machine may go on. -/
  | running
  /-- The counter points to no instruction. -/
  | halted
  | failed (e : RuntimeError)
  deriving DecidableEq, Repr

namespace Machine

/-- The instruction that the counter points to. -/
def instruction? (p : Program) (m : Machine) : Option Instruction :=
  if 0 ≤ m.counter then p.get? m.counter.toNat else none

/-- Executes the instruction that the counter points to. -/
def step (p : Program) (m : Machine) : Status × Machine :=
  match m.instruction? p with
  | none => (.halted, m)
  | some i =>
    match i.op.execute m.counter m.stack m.sink with
    | ⟨.ok counter, stack, sink⟩ =>
      (.running, { stack, counter, sink, steps := m.steps + 1 })
    | ⟨.error fault, stack, sink⟩ => (.failed ⟨i.line, fault⟩, { m with stack, sink })

/-- Takes up to `budget` steps, and stops early where one halts or fails. -/
def run (p : Program) : Nat → Machine → Status × Machine
  | 0, m => (.running, m)
  | budget + 1, m =>
    match m.step p with
    | (.running, m') => run p budget m'
    | (.halted, m') => (.halted, m')
    | (.failed e, m') => (.failed e, m')

theorem run_succ_of_step {p : Program} {m m' : Machine} (h : m.step p = (.running, m')) (n : Nat) :
    m.run p (n + 1) = m'.run p n := by
  rw [run, h]

theorem run_succ_of_stop {p : Program} {m m' : Machine} {s : Status} (h : m.step p = (s, m'))
    (hs : s ≠ .running) (n : Nat) : m.run p (n + 1) = (s, m') := by
  rw [run, h]
  cases s with
  | running => exact absurd rfl hs
  | halted => rfl
  | failed e => rfl

/-- A run may be interrupted anywhere. -/
theorem run_add (p : Program) (m : Machine) (j k : Nat) :
    m.run p (j + k) =
      match m.run p j with
      | (.running, m') => m'.run p k
      | stopped => stopped := by
  induction j generalizing m with
  | zero => rw [Nat.zero_add]; rfl
  | succ j ih =>
    rw [Nat.succ_add]
    rcases h : m.step p with ⟨s, m'⟩
    by_cases hs : s = .running
    · subst hs
      rw [run_succ_of_step h, run_succ_of_step h, ih]
    · rw [run_succ_of_stop h hs, run_succ_of_stop h hs]
      cases s with
      | running => exact absurd rfl hs
      | halted => rfl
      | failed e => rfl

end Machine

end Quaternary
