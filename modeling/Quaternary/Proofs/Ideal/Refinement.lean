import Quaternary.Proofs.Ideal.Simulation

/-!
# Runs over values refine runs over all integers

`Machine.run_refines_ideal` compares the run of a machine over values with the run of the
machine over all integers from the same state, for any program, stack, sink and number of steps.

* While every exact result is a value, the two runs have the same stack, output, flushes, number
  of steps and end (`Corresponds`). Their counters are equal unless both machines have just left
  the program by a jump to the least value (`Escaped`).
* The first step whose exact result is no value is the step at which the machine over values
  overflows.
* It overflows at no other step.

The induction is on the number of steps (`run_simulated`): a run either still corresponds to the
exact run or has met the first result that is no value, and then it has stopped there.
-/

namespace Quaternary.Machine

/-- A jump to the least value, taken within the first `n` steps, has led to `m` and to `i`. Both
counters are below the program, and neither machine takes another step. -/
structure Escaped (p : Program) (start : Machine) (n : Nat) (m : Machine) (i : Ideal.Machine) :
    Prop where
  jumped : ∃ k before, k < n ∧ start.run p k = (.running, before) ∧ before.JumpsToLeast p ∧
    before.step p = (.running, m)
  below : m.counter < 0 ∧ i.counter < 0
  halted : m.step p = (.halted, m) ∧ i.step p = (.halted, i)

/-- What the run of `n` steps from `start` has in common with the exact run. -/
structure Corresponds (p : Program) (start : Machine) (n : Nat) (r : Status × Machine)
    (r' : Ideal.Status × Ideal.Machine) : Prop where
  status : r.1.Matches r'.1
  agrees : r.2.Agrees r'.2
  counter : r.2.counter = r'.2.counter ∨ Escaped p start n r.2 r'.2

/-- The run takes its first `n` steps, and the one after them overflows. -/
def OverflowsAt (p : Program) (start : Machine) (n : Nat) : Prop :=
  ∃ m, start.run p n = (.running, m) ∧ m.Overflows p

variable {p : Program} {start : Machine} {n : Nat}

theorem instruction?_of_counter_neg {m : Machine} (h : m.counter < 0) :
    m.instruction? p = none := by
  rw [instruction?, if_neg (by omega)]

theorem ideal_instruction?_of_counter_neg {i : Ideal.Machine} (h : i.counter < 0) :
    i.instruction? p = none := by
  rw [Ideal.Machine.instruction?, if_neg (by omega)]

theorem Escaped.mono {m : Machine} {i : Ideal.Machine} (h : Escaped p start n m i) {k : Nat}
    (hk : n ≤ k) : Escaped p start k m i := by
  obtain ⟨⟨j, before, hj, hrun, hjumps, hstep⟩, below, halted⟩ := h
  exact ⟨⟨j, before, by omega, hrun, hjumps, hstep⟩, below, halted⟩

theorem Corresponds.initial (p : Program) (start : Machine) :
    Corresponds p start 0 (start.run p 0) (start.ideal.run p 0) :=
  ⟨trivial, ⟨rfl, rfl, rfl⟩, Or.inl rfl⟩

theorem not_exceedsAt_of_stopped {i i' : Ideal.Machine} {s : Ideal.Status}
    (h : i.run p n = (s, i')) (hs : s ≠ .running) : ¬ i.ExceedsAt p n := by
  rintro ⟨i'', r, hrun, -, -⟩
  rw [h] at hrun
  cases hrun
  exact hs rfl

/-- The exact run does not exceed the range at a step to a state that agrees with one over
values. -/
theorem not_exceedsAt_of_agrees {i i₁ i₂ : Ideal.Machine} {m : Machine} {s : Ideal.Status}
    (h : i.run p n = (.running, i₁)) (hstep : i₁.step p = (s, i₂)) (hagrees : m.Agrees i₂) :
    ¬ i.ExceedsAt p n := by
  rintro ⟨i'', r, hrun, hresult, hr⟩
  rw [h] at hrun
  cases hrun
  have := hagrees.result_mem hstep hresult
  omega

/-- One more step of runs that correspond: they correspond again and the exact result is a
value, or this step is the one that overflows. -/
theorem Corresponds.step
    (h : Corresponds p start n (start.run p n) (start.ideal.run p n)) :
    (Corresponds p start (n + 1) (start.run p (n + 1)) (start.ideal.run p (n + 1)) ∧
        ¬ start.ideal.ExceedsAt p n) ∨
      start.OverflowsAt p n ∧ start.ideal.ExceedsAt p n := by
  rcases hm : start.run p n with ⟨s, m⟩
  rcases hi : start.ideal.run p n with ⟨s', i⟩
  rw [hm, hi] at h
  have hstatus : s.Matches s' := h.status
  have hagrees : m.Agrees i := h.agrees
  have hcounter := h.counter
  by_cases hs : s = .running
  · obtain rfl := hs
    obtain rfl := hstatus.running_iff.mp rfl
    rw [run_succ_of_running hm, Ideal.Machine.run_succ_of_running hi]
    rcases hcounter with hcounter | hescaped
    · cases step_simulated (p := p) hagrees hcounter with
      | agree s₁ s₁' m₁ i₁ hstep hideal hmatch hagrees₁ hcounter₁ =>
        refine Or.inl ⟨?_, not_exceedsAt_of_agrees hi hideal hagrees₁⟩
        rw [hstep, hideal]
        refine ⟨hmatch, hagrees₁, hcounter₁.imp_right ?_⟩
        rintro ⟨rfl, hjumps, hneg, hneg'⟩
        exact ⟨⟨n, m, Nat.lt_succ_self n, hm, hjumps, hstep⟩, ⟨hneg, hneg'⟩,
          step_halted (instruction?_of_counter_neg hneg),
          Ideal.Machine.step_halted (ideal_instruction?_of_counter_neg hneg')⟩
      | overflow hoverflows r hresult hr =>
        exact Or.inr ⟨⟨m, hm, hoverflows⟩, ⟨i, r, hi, hresult, hr⟩⟩
    · -- both machines are below the program and halt
      refine Or.inl ⟨?_, not_exceedsAt_of_agrees hi hescaped.halted.2 hagrees⟩
      rw [hescaped.halted.1, hescaped.halted.2]
      exact ⟨trivial, hagrees, Or.inr (hescaped.mono (Nat.le_succ n))⟩
  · have hs' : s' ≠ .running := fun h => hs (hstatus.running_iff.mpr h)
    refine Or.inl ⟨?_, not_exceedsAt_of_stopped hi hs'⟩
    rw [run_of_stopped hm hs (Nat.le_succ n), Ideal.Machine.run_succ_of_stopped hi hs']
    exact ⟨hstatus, hagrees, hcounter.imp_right fun hescaped => hescaped.mono (Nat.le_succ n)⟩

/-- A run corresponds to the exact run, none of whose results was out of range, or it has
overflowed at the first one that was. -/
theorem run_simulated (p : Program) (start : Machine) (n : Nat) :
    (Corresponds p start n (start.run p n) (start.ideal.run p n) ∧
        ∀ k < n, ¬ start.ideal.ExceedsAt p k) ∨
      ∃ k < n, start.OverflowsAt p k ∧ start.ideal.FirstExceedsAt p k := by
  induction n with
  | zero => exact Or.inl ⟨.initial p start, by simp⟩
  | succ n ih =>
    rcases ih with ⟨hcorresponds, hwithin⟩ | ⟨k, hk, hfirst⟩
    · rcases hcorresponds.step with ⟨hnext, hresult⟩ | ⟨hoverflows, hexceeds⟩
      · refine Or.inl ⟨hnext, ?_⟩
        intro k hk
        rcases Nat.lt_succ_iff_lt_or_eq.mp hk with hk | rfl
        · exact hwithin k hk
        · exact hresult
      · exact Or.inr ⟨n, Nat.lt_succ_self n, hoverflows, hexceeds, hwithin⟩
    · exact Or.inr ⟨k, by omega, hfirst⟩

theorem Corresponds.status_ne_overflow {r : Status × Machine} {r' : Ideal.Status × Ideal.Machine}
    (h : Corresponds p start n r r') {line : Nat} {opcode : Opcode} :
    r.1 ≠ .failed ⟨line, .overflow opcode⟩ := by
  intro hr
  have hmatches := h.status
  rw [hr] at hmatches
  cases hs : r'.1 with
  | running | halted =>
    rw [hs] at hmatches
    exact hmatches
  | failed line' fault =>
    rw [hs] at hmatches
    cases hmatches.2

theorem OverflowsAt.run_succ (h : start.OverflowsAt p n) :
    ∃ line opcode m, start.run p (n + 1) = (.failed ⟨line, .overflow opcode⟩, m) := by
  obtain ⟨m, hrun, i, -, hstep⟩ := h
  exact ⟨i.line, i.op.opcode, m, (run_succ_of_running hrun).trans hstep⟩

theorem OverflowsAt.not_lt {k : Nat} (hk : start.OverflowsAt p k) (hn : start.OverflowsAt p n) :
    ¬ k < n := by
  intro hlt
  obtain ⟨line, opcode, m, hrun⟩ := hk.run_succ
  obtain ⟨m', hrunning, -⟩ := hn
  rw [run_of_stopped hrun (by simp) hlt] at hrunning
  cases hrunning

theorem OverflowsAt.unique {k : Nat} (hk : start.OverflowsAt p k) (hn : start.OverflowsAt p n) :
    k = n :=
  Nat.le_antisymm (Nat.not_lt.mp (hn.not_lt hk)) (Nat.not_lt.mp (hk.not_lt hn))

/-- While every exact result is a value, a run has the stack, the output, the flushes, the number
of steps and the end of the exact run, and its counter but for a jump to the least value. The
first step with another exact result is the step that overflows, with the line and the opcode
of its instruction and without any change. No other step overflows. -/
theorem run_refines_ideal (p : Program) (start : Machine) :
    (∀ n, (∀ k < n, ¬ start.ideal.ExceedsAt p k) →
      Corresponds p start n (start.run p n) (start.ideal.run p n)) ∧
    (∀ n, start.ideal.FirstExceedsAt p n ↔ start.OverflowsAt p n) ∧
    (∀ n line opcode, (start.run p n).1 = .failed ⟨line, .overflow opcode⟩ →
      ∃ k < n, start.ideal.FirstExceedsAt p k) := by
  refine ⟨?_, ?_, ?_⟩
  · intro n hwithin
    rcases run_simulated p start n with ⟨hcorresponds, -⟩ | ⟨k, hk, -, hfirst⟩
    · exact hcorresponds
    · exact absurd hfirst.1 (hwithin k hk)
  · intro n
    constructor
    · rintro ⟨hexceeds, hbefore⟩
      rcases run_simulated p start (n + 1) with ⟨-, hwithin⟩ | ⟨k, hk, hoverflows, hfirst⟩
      · exact absurd hexceeds (hwithin n (Nat.lt_succ_self n))
      · rcases Nat.lt_succ_iff_lt_or_eq.mp hk with hk | rfl
        · exact absurd hfirst.1 (hbefore k hk)
        · exact hoverflows
    · intro hoverflows
      obtain ⟨line, opcode, m, hrun⟩ := hoverflows.run_succ
      rcases run_simulated p start (n + 1) with ⟨hcorresponds, -⟩ | ⟨k, hk, hoverflows', hfirst⟩
      · exact absurd (congrArg Prod.fst hrun) hcorresponds.status_ne_overflow
      · obtain rfl := hoverflows'.unique hoverflows
        exact hfirst
  · intro n line opcode hfailed
    rcases run_simulated p start n with ⟨hcorresponds, -⟩ | ⟨k, hk, -, hfirst⟩
    · exact absurd hfailed hcorresponds.status_ne_overflow
    · exact ⟨k, hk, hfirst⟩

/-- Adding one to the greatest value is an overflow at the second step, which is the first one
with a result that is no value. -/
theorem run_refines_ideal_increment :
    OverflowsAt ⟨#[⟨1, .load (Int64.ofInt Value.greatest)⟩, ⟨2, .immediate .add 1⟩]⟩ {} 1 ∧
      Ideal.Machine.FirstExceedsAt
        ⟨#[⟨1, .load (Int64.ofInt Value.greatest)⟩, ⟨2, .immediate .add 1⟩]⟩ (ideal {}) 1 := by
  have h : OverflowsAt ⟨#[⟨1, .load (Int64.ofInt Value.greatest)⟩, ⟨2, .immediate .add 1⟩]⟩ {} 1 :=
    ⟨_, rfl, ⟨2, .immediate .add 1⟩, rfl, rfl⟩
  exact ⟨h, ((run_refines_ideal _ {}).2.1 1).mpr h⟩

end Quaternary.Machine
