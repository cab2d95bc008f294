import Quaternary.Proofs.Machine.Step
import Quaternary.Proofs.Program.Idle

/-!
# Where a jump lands

The target of a jump is meant as a line number, but it counts instructions. A jump to `t` that is
taken goes to the instruction at index `t - 1`. In a program that was read from a text, the line
of that instruction is `t` plus the number of idle lines above it: idle lines make a jump land
further down, never further up. A target that is the place of no instruction ends the run, also if
the text has an instruction on that line.
-/

namespace Quaternary

theorem Op.landing_of_one_le {target : Value} (h : 1 ≤ target.toInt) :
    landing target = target.toInt - 1 := by
  have hleast : target.toInt ≠ Value.least := by
    unfold Value.least
    omega
  rw [landing, if_neg hleast]

theorem Op.landing_neg {target : Value} (h : target.toInt < 1) : landing target < 0 := by
  unfold landing Value.least
  split <;> omega

namespace Machine

variable {source : String} {p : Program} {m : Machine} {target : Value}

theorem step_jump {line : Nat} {c : Cond}
    (hjump : m.instruction? p = some ⟨line, .jump c target⟩)
    (htaken : c.holds (m.stack.headD 0) = true) :
    m.step p = (.running,
      { m with stack := m.stack.tail, counter := Op.landing target, steps := m.steps + 1 }) := by
  apply step_ok hjump
  change Outcome.mk (.ok (if c.holds (m.stack.headD 0) then Op.landing target else _)) _ _ = _
  rw [if_pos htaken]

/-- The instruction that a counter points to after a jump to a place of the program. -/
theorem instruction?_of_landing (hm : m.counter = Op.landing target) (hlow : 1 ≤ target.toInt) :
    m.instruction? p = p.get? (target.toInt.toNat - 1) := by
  have hcounter : m.counter = target.toInt - 1 := hm.trans (Op.landing_of_one_le hlow)
  have hindex : m.counter.toNat = target.toInt.toNat - 1 := by omega
  rw [instruction?, if_pos (by omega), hindex]

theorem instruction?_of_landing_outside (hm : m.counter = Op.landing target)
    (houtside : target.toInt < 1 ∨ p.size < target.toInt) : m.instruction? p = none := by
  by_cases hlow : 1 ≤ target.toInt
  · rw [instruction?_of_landing hm hlow]
    apply Array.getElem?_eq_none
    unfold Program.size at houtside
    omega
  · have hneg : Op.landing target < 0 := Op.landing_neg (by omega)
    rw [instruction?, if_neg (by omega)]

/-- The instruction at index `t - 1` and the idle lines above it. -/
theorem exists_get?_of_target (h : Program.ofSource source = .ok p) (hlow : 1 ≤ target.toInt)
    (hhigh : target.toInt ≤ p.size) :
    ∃ i, p.get? (target.toInt.toNat - 1) = some i ∧
      i.line = target.toInt + ((sourceLines source).take (i.line - 1)).countP Line.isIdle := by
  have hindex : target.toInt.toNat - 1 < p.instructions.size := by
    unfold Program.size at hhigh
    omega
  have hget : p.get? (target.toInt.toNat - 1) = some _ := Array.getElem?_eq_getElem hindex
  have hline := Program.line_of_get? h hget
  refine ⟨_, hget, ?_⟩
  omega

/-- A jump that is taken goes to the instruction whose place is the target. Its line is below the
target by the number of idle lines above it, so it is the target itself exactly if there are none.
A target that is no place of the program ends the run. -/
theorem jump_lands (h : Program.ofSource source = .ok p) {line : Nat} {c : Cond}
    (hjump : m.instruction? p = some ⟨line, .jump c target⟩)
    (htaken : c.holds (m.stack.headD 0) = true) :
    ∃ m', m.step p = (.running, m') ∧
      (1 ≤ target.toInt ∧ target.toInt ≤ p.size →
        ∃ i, p.get? (target.toInt.toNat - 1) = some i ∧ m'.instruction? p = some i ∧
          target.toInt ≤ i.line ∧
          i.line - target.toInt = ((sourceLines source).take (i.line - 1)).countP Line.isIdle ∧
          (i.line = target.toInt ↔
            ∀ text ∈ (sourceLines source).take (i.line - 1), Line.isIdle text = false)) ∧
      (target.toInt < 1 ∨ p.size < target.toInt →
        ∀ budget, m.run p (budget + 2) = (.halted, m')) := by
  have hstep := step_jump hjump htaken
  refine ⟨_, hstep, ?_, ?_⟩
  · rintro ⟨hlow, hhigh⟩
    obtain ⟨i, hget, hline⟩ := exists_get?_of_target h hlow hhigh
    refine ⟨i, hget, (instruction?_of_landing rfl hlow).trans hget, by omega, by omega, ?_⟩
    have hzero : i.line = target.toInt ↔
        ((sourceLines source).take (i.line - 1)).countP Line.isIdle = 0 := by omega
    rw [hzero, List.countP_eq_zero]
    simp only [Bool.not_eq_true]
  · intro houtside budget
    rw [run_succ_of_step hstep]
    apply run_succ_of_stop
    · exact step_halted (instruction?_of_landing_outside rfl houtside)
    · simp

/-- Below a comment, a jump to line two lands on line three, and a jump to line three ends the
run although there is an instruction on that line. -/
theorem jump_lands_below_comment :
    Program.ofSource "33\n32 11\n21 12" = .ok ⟨#[⟨2, .load 1⟩, ⟨3, .jump .nonZero 2⟩]⟩ ∧
      (∃ m' i, step ⟨#[⟨2, .load 1⟩, ⟨3, .jump .nonZero 2⟩]⟩ { stack := [1], counter := 1 } =
          (.running, m') ∧
        m'.instruction? ⟨#[⟨2, .load 1⟩, ⟨3, .jump .nonZero 2⟩]⟩ = some i ∧
        i.line - (2 : Int) = 1) ∧
      Program.ofSource "33\n32 11\n21 13" = .ok ⟨#[⟨2, .load 1⟩, ⟨3, .jump .nonZero 3⟩]⟩ ∧
      ∃ m', ∀ budget,
        run ⟨#[⟨2, .load 1⟩, ⟨3, .jump .nonZero 3⟩]⟩ (budget + 2) { stack := [1], counter := 1 } =
          (.halted, m') := by
  have hlanding : Program.ofSource "33\n32 11\n21 12" =
      .ok ⟨#[⟨2, .load 1⟩, ⟨3, .jump .nonZero 2⟩]⟩ := rfl
  have hleaving : Program.ofSource "33\n32 11\n21 13" =
      .ok ⟨#[⟨2, .load 1⟩, ⟨3, .jump .nonZero 3⟩]⟩ := rfl
  refine ⟨hlanding, ?_, hleaving, ?_⟩
  · have hjump : instruction? ⟨#[⟨2, .load 1⟩, ⟨3, .jump .nonZero 2⟩]⟩
        { stack := [1], counter := 1 } = some ⟨3, .jump .nonZero 2⟩ := rfl
    obtain ⟨m', hstep, hinside, -⟩ := jump_lands hlanding hjump rfl
    obtain ⟨i, hget, hi, -, hskew, -⟩ := hinside (by decide)
    cases hget
    exact ⟨m', _, hstep, hi, hskew⟩
  · have hjump : instruction? ⟨#[⟨2, .load 1⟩, ⟨3, .jump .nonZero 3⟩]⟩
        { stack := [1], counter := 1 } = some ⟨3, .jump .nonZero 3⟩ := rfl
    obtain ⟨m', -, -, houtside⟩ := jump_lands hleaving hjump rfl
    exact ⟨m', houtside (by decide)⟩

end Machine

end Quaternary
