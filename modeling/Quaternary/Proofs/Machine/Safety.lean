import Quaternary.Proofs.Machine.Step

/-!
# No part of a step is used where it has no meaning

A step is made of parts that are partial: the counter is moved by one, which leads out of the values
from the greatest of them; a value is taken from the top of the stack or looked at there, which needs
one; the order of some top values is reversed, which needs that many. None of the parts makes sure of
its own condition. `Op.executeTrapping` puts an operation together from them, and from the tests that
come before them, in the order in which they are used. A part that is used against its condition
traps.

`Op.executeTrapping_eq_ok`: below the greatest value, no operation traps on any stack, since the
depth is tested first, and the outcome is that of `Op.execute`. So it remains to see which counters
come up (`Machine.WithinReach`): they stay in the program or just behind its end, or are where a jump
of the program has led. A counter that leads out of the program is never the counter of an
instruction, so the counter of an instruction can always be moved by one.
-/

namespace Quaternary

/-- The part of a step that is used against its condition. -/
inductive Trap where
  /-- The counter cannot be moved on. -/
  | counter
  /-- There is no value to take. -/
  | take
  /-- There is no value to look at. -/
  | top
  /-- There are not so many values to reverse, or none is asked for. -/
  | reverse
  deriving DecidableEq, Repr

namespace Stack

/-- The top value and the stack without it. -/
def takeTop : Stack → Except Trap (Value × Stack)
  | [] => .error .take
  | v :: rest => .ok (v, rest)

def top : Stack → Except Trap Value
  | [] => .error .top
  | v :: _ => .ok v

/-- Reverses the order of the top `n` values, of which there has to be at least one. -/
def reverseExactly (n : Nat) (s : Stack) : Except Trap Stack :=
  if 1 ≤ n ∧ n ≤ s.length then .ok (s.reverseTop n) else .error .reverse

end Stack

namespace Op

def nextCounter (counter : Int) : Except Trap Int :=
  if counter < Value.greatest then .ok (counter + 1) else .error .counter

/-- Executes an operation part by part. The next counter is needed in any case, and is computed
first. -/
def executeTrapping (op : Op) (counter : Int) (stack : Stack) (sink : Sink) :
    Except Trap Outcome := do
  let next ← nextCounter counter
  match op with
  | .binary f =>
    requiring 2 do
      let (a, rest) ← stack.takeTop
      let (b, rest) ← rest.takeTop
      match f.apply a b with
      | .ok v => return ⟨.ok next, rest.push v, sink⟩
      | .error e => return ⟨.error (.ofArith op.opcode e), (rest.push b).push a, sink⟩
  | .immediate f c =>
    requiring 1 do
      let a ← stack.top
      match f.apply a c with
      | .ok v =>
        let (_, rest) ← stack.takeTop
        return ⟨.ok next, rest.push v, sink⟩
      | .error e => return ⟨.error (.ofArith op.opcode e), stack, sink⟩
  | .print =>
    requiring 1 do
      let (v, rest) ← stack.takeTop
      return printing next v.decimal rest
  | .printChar =>
    requiring 1 do
      let v ← stack.top
      match Value.char? v with
      | some c =>
        let (_, rest) ← stack.takeTop
        return printing next (String.singleton c) rest
      | none => return ⟨.error (.notACharacter v), stack, sink⟩
  | .jump c target =>
    let (v?, rest) := stack.pop
    return ⟨.ok (if c.holds (v?.getD 0) then landing target else next), rest, sink⟩
  | .dup =>
    requiring 1 do
      let v ← stack.top
      return ⟨.ok next, stack.push v, sink⟩
  | .reverse count =>
    if 0 < count.toInt then
      requiring count.toInt.toNat do
        let reversed ← stack.reverseExactly count.toInt.toNat
        return ⟨.ok next, reversed, sink⟩
    else
      return ⟨.ok next, stack, sink⟩
  | .load v => return ⟨.ok next, stack.push v, sink⟩
where
  /-- Goes on if the stack has at least `n` values. -/
  requiring (n : Nat) (rest : Except Trap Outcome) : Except Trap Outcome :=
    if stack.length < n then .ok ⟨.error (.underflow op.opcode n), stack, sink⟩ else rest
  printing (next : Int) (text : String) (rest : Stack) : Outcome :=
    match sink.emit text with
    | (.ok _, sink) => ⟨.ok next, rest, sink⟩
    | (.error cause, sink) => ⟨.error (.outputFailed cause), rest, sink⟩

theorem requiring_of_le {op : Op} {stack : Stack} {sink : Sink} {n : Nat}
    (h : n ≤ stack.length) (rest : Except Trap Outcome) :
    executeTrapping.requiring op stack sink n rest = rest :=
  if_neg (Nat.not_lt_of_le h)

theorem requiring_of_lt {op : Op} {stack : Stack} {sink : Sink} {n : Nat}
    (h : stack.length < n) (rest : Except Trap Outcome) :
    executeTrapping.requiring op stack sink n rest =
      .ok ⟨.error (.underflow op.opcode n), stack, sink⟩ :=
  if_pos h

/-- Where the counter can be moved on, an operation does not trap, and has the outcome that it has
without regard to its parts. -/
theorem executeTrapping_eq_ok {counter : Int} (h : counter < Value.greatest) (op : Op)
    (stack : Stack) (sink : Sink) :
    op.executeTrapping counter stack sink = .ok (op.execute counter stack sink) := by
  have hnext : nextCounter counter = .ok (counter + 1) := if_pos h
  simp only [executeTrapping, hnext, bind, Except.bind, pure, Except.pure]
  cases op with
  | binary f =>
    rcases stack with _ | ⟨a, _ | ⟨b, rest⟩⟩
    · rfl
    · rfl
    · have hdepth : 2 ≤ (a :: b :: rest).length := Nat.le_add_left 2 rest.length
      simp only [requiring_of_le hdepth, Stack.takeTop, execute_binary, execute.compute]
      cases f.apply a b <;> rfl
  | immediate f c =>
    cases stack with
    | nil => rfl
    | cons a rest =>
      have hdepth : 1 ≤ (a :: rest).length := Nat.le_add_left 1 rest.length
      simp only [requiring_of_le hdepth, Stack.top, Stack.takeTop, execute_immediate,
        execute.compute]
      cases f.apply a c <;> rfl
  | print => cases stack <;> rfl
  | printChar =>
    cases stack with
    | nil => rfl
    | cons v rest =>
      have hdepth : 1 ≤ (v :: rest).length := Nat.le_add_left 1 rest.length
      simp only [requiring_of_le hdepth, Stack.top, Stack.takeTop, execute_printChar]
      cases Value.char? v <;> rfl
  | jump c target => cases stack <;> rfl
  | dup => cases stack <;> rfl
  | reverse count =>
    by_cases hdepth : count.toInt.toNat ≤ stack.length
    · rw [execute_reverse hdepth]
      by_cases hpos : 0 < count.toInt
      · have hreverse : stack.reverseExactly count.toInt.toNat =
            .ok (stack.reverseTop count.toInt.toNat) := if_pos ⟨by omega, hdepth⟩
        simp only [hpos, if_true, requiring_of_le hdepth, hreverse]
      · -- nothing is reversed, which is what reversing no value comes to
        have hzero : count.toInt.toNat = 0 := by omega
        simp only [hpos, if_false, hzero, Stack.reverseTop_zero]
    · have herror : (reverse count).execute counter stack sink = _ := if_neg hdepth
      have hpos : 0 < count.toInt := by omega
      rw [herror]
      simp only [hpos, if_true, requiring_of_lt (Nat.lt_of_not_le hdepth)]
      rfl
  | load v => rfl

/-- An operation that does not trap has the outcome that it has without regard to its parts. -/
theorem eq_execute_of_executeTrapping {op : Op} {counter : Int} {stack : Stack} {sink : Sink}
    {outcome : Outcome} (h : op.executeTrapping counter stack sink = .ok outcome) :
    outcome = op.execute counter stack sink := by
  by_cases hcounter : counter < Value.greatest
  · rw [executeTrapping_eq_ok hcounter] at h
    exact (Except.ok.inj h).symm
  · have hnext : nextCounter counter = .error .counter := if_neg hcounter
    simp only [executeTrapping, hnext, bind, Except.bind] at h
    cases h

end Op

namespace Machine

variable {p : Program} {m m' start : Machine}

/-- Takes a step part by part. -/
def stepTrapping (p : Program) (m : Machine) : Except Trap (Status × Machine) :=
  match m.instruction? p with
  | none => .ok (.halted, m)
  | some i =>
    match i.op.executeTrapping m.counter m.stack m.sink with
    | .error trap => .error trap
    | .ok ⟨.ok counter, stack, sink⟩ =>
      .ok (.running, { stack, counter, sink, steps := m.steps + 1 })
    | .ok ⟨.error fault, stack, sink⟩ => .ok (.failed ⟨i.line, fault⟩, { m with stack, sink })

theorem stepTrapping_eq_ok
    (h : ∀ i, m.instruction? p = some i → m.counter < Value.greatest) :
    m.stepTrapping p = .ok (m.step p) := by
  cases hi : m.instruction? p with
  | none => rw [stepTrapping, hi, step_halted hi]
  | some i =>
    have hexec := i.op.executeTrapping_eq_ok (h i hi) m.stack m.sink
    rcases houtcome : i.op.execute m.counter m.stack m.sink with ⟨result, stack, sink⟩
    rw [houtcome] at hexec
    cases result with
    | ok counter =>
      rw [step_ok hi houtcome]
      simp only [stepTrapping, hi, hexec]
    | error fault =>
      rw [step_error hi houtcome]
      simp only [stepTrapping, hi, hexec]

theorem eq_step_of_stepTrapping {outcome : Status × Machine}
    (h : m.stepTrapping p = .ok outcome) : outcome = m.step p := by
  cases hi : m.instruction? p with
  | none =>
    rw [stepTrapping, hi] at h
    rw [step_halted hi]
    exact (Except.ok.inj h).symm
  | some i =>
    simp only [stepTrapping, hi] at h
    cases hexec : i.op.executeTrapping m.counter m.stack m.sink with
    | error trap =>
      rw [hexec] at h
      cases h
    | ok executed =>
      have houtcome := Op.eq_execute_of_executeTrapping hexec
      rw [hexec] at h
      rcases executed with ⟨result, stack, sink⟩
      cases result with
      | ok counter =>
        rw [step_ok hi houtcome.symm]
        exact (Except.ok.inj h).symm
      | error fault =>
        rw [step_error hi houtcome.symm]
        exact (Except.ok.inj h).symm

/-! ## The counters that come up -/

/-- The machines that come up when steps are taken one after the other, also after a step that
failed. -/
inductive Reachable (p : Program) (start : Machine) : Machine → Prop where
  | start : Reachable p start start
  | step {m : Machine} (h : Reachable p start m) : Reachable p start (m.step p).2

/-- The counter is in the program or just behind its end, or where a jump of the program leads. -/
def WithinReach (p : Program) (m : Machine) : Prop :=
  0 ≤ m.counter ∧ m.counter ≤ p.size ∨
    ∃ i ∈ p.instructions, ∃ c target, i.op = .jump c target ∧ m.counter = Op.landing target

theorem WithinReach.step (h : m.WithinReach p) : (m.step p).2.WithinReach p := by
  rcases hstep : m.step p with ⟨s, m'⟩
  change m'.WithinReach p
  cases s with
  | running =>
    obtain ⟨i, hi, hnext | ⟨c, target, hop, hlanding⟩⟩ := counter_of_step_running hstep
    · obtain ⟨hlow, hhigh, -⟩ := instruction?_eq_some_iff.mp hi
      left
      omega
    · exact Or.inr ⟨i, mem_of_instruction? hi, c, target, hop, hlanding⟩
  | halted =>
    cases stepped_of_step hstep
    exact h
  | failed e =>
    obtain ⟨_, _, _, _, hcounter, _⟩ := exists_error_of_step_failed hstep
    unfold WithinReach
    rw [hcounter]
    exact h

theorem withinReach_of_reachable (hstart : start.WithinReach p) (h : Reachable p start m) :
    m.WithinReach p := by
  induction h with
  | start => exact hstart
  | step _ ih => exact ih.step

/-- What the next step of a machine is safe from. -/
structure Safe (p : Program) (m : Machine) : Prop where
  withinReach : m.WithinReach p
  /-- An operation is executed only at a counter that is an index of the program. -/
  index : ∀ i, m.instruction? p = some i →
    0 ≤ m.counter ∧ m.counter < p.size ∧ m.counter + 1 ≤ Value.greatest
  untrapped : m.stepTrapping p = .ok (m.step p)

theorem counter_lt_greatest (hsize : (p.size : Int) ≤ Value.greatest) {i : Instruction}
    (hi : m.instruction? p = some i) : m.counter < Value.greatest := by
  obtain ⟨-, hhigh, -⟩ := instruction?_eq_some_iff.mp hi
  omega

/-- However many steps have been taken from the first instruction, successfully or not, the counter
is within reach, an operation is executed only at an index of the program, and no part of its
execution traps. -/
theorem reachable_safe {stack : Stack} {sink : Sink} (hsize : (p.size : Int) ≤ Value.greatest)
    (h : Reachable p { stack, sink } m) : m.Safe p := by
  have hstart : WithinReach p { stack, sink } := by
    left
    exact ⟨Int.le_refl 0, Int.natCast_nonneg p.size⟩
  refine ⟨withinReach_of_reachable hstart h, ?_, ?_⟩
  · intro i hi
    obtain ⟨hlow, hhigh, -⟩ := instruction?_eq_some_iff.mp hi
    exact ⟨hlow, hhigh, counter_lt_greatest hsize hi⟩
  · exact stepTrapping_eq_ok fun _ => counter_lt_greatest hsize

/-- Prints a value, and then jumps as far up as can be. -/
def leaving : Program := ⟨#[⟨1, .print⟩, ⟨2, .jump .zero (Int64.ofInt Value.least)⟩]⟩

/-- The first flush fails, and the step after it prints the other value. The jump finds an empty
stack, and leads to the least counter. -/
theorem reachable_safe_leaving :
    ∃ first third : Machine,
      Reachable leaving { stack := [7, 5], sink := { failingFlush := some 1 } } first ∧
      Reachable leaving { stack := [7, 5], sink := { failingFlush := some 1 } } third ∧
      first.counter = 0 ∧ first.stack = [5] ∧
      first.stepTrapping leaving = .ok (first.step leaving) ∧
      third.counter = Value.least ∧ third.WithinReach leaving := by
  have hfirst : Reachable leaving { stack := [7, 5], sink := { failingFlush := some 1 } } _ :=
    .step .start
  have hthird : Reachable leaving { stack := [7, 5], sink := { failingFlush := some 1 } } _ :=
    .step (.step hfirst)
  exact ⟨_, _, hfirst, hthird, rfl, rfl, (reachable_safe (by decide) hfirst).untrapped, rfl,
    (reachable_safe (by decide) hthird).withinReach⟩

end Machine

end Quaternary
