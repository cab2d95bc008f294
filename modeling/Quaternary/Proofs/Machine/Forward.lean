import Quaternary.Proofs.Machine.Landing
import Quaternary.Proofs.Machine.Session
import Quaternary.Proofs.Machine.Traceback

/-!
# Programs without a jump back

A run has no bound on its steps, and a loop need not end. But where every jump leads further down, or
out of the program by a target that is not positive, the counter grows with every step until it
leaves the program (`Machine.counter_of_run_forward`). The run then ends after at most as many steps
as there are instructions, and no instruction is executed twice.

The same holds for a text in which every jump names a line below its own. Idle lines cannot spoil
this: an instruction has at most as many instructions above it as lines, and so a jump lands on the
line that it names or further down (`Program.forward_of_text`).
-/

namespace Quaternary

namespace Program

variable {source : String} {p : Program}

/-- Every jump leads to a greater index, or has a target that is not positive. -/
def Forward (p : Program) : Prop :=
  ∀ (index : Nat) (i : Instruction) (c : Cond) (target : Value),
    p.get? index = some i → i.op = .jump c target →
      target.toInt ≤ 0 ∨ index < target.toInt - 1

/-- Every jump on a line of the text names a line below its own, or a number that is not
positive. -/
def ForwardText (source : String) : Prop :=
  ∀ (number : Nat) (i : Instruction) (c : Cond) (target : Value),
    i.StandsOn source number → i.op = .jump c target →
      target.toInt ≤ 0 ∨ number < target.toInt

theorem forward_of_text (h : ofSource source = .ok p) (htext : ForwardText source) :
    p.Forward := by
  intro index i c target hget hop
  have hstands : i.StandsOn source i.line :=
    (mem_instructions_iff h).mp ⟨Array.mem_of_getElem? hget, rfl⟩
  have hline := line_of_get? h hget
  have hbelow := htext i.line i c target hstands hop
  omega

end Program

namespace Machine

variable {p : Program} {m m' m₁ m₂ start : Machine} {j k n : Nat}

theorem counter_of_step_forward (hp : p.Forward) (h : m.step p = (.running, m')) :
    m'.counter < 0 ∨ m.counter < m'.counter := by
  obtain ⟨i, hi, hnext | ⟨c, target, hop, hlanding⟩⟩ := counter_of_step_running h
  · right
    omega
  · obtain ⟨hlow, -, hget⟩ := instruction?_eq_some_iff.mp hi
    rcases hp _ i c target hget hop with hout | hbelow
    · left
      rw [hlanding]
      apply Op.landing_neg
      omega
    · right
      rw [hlanding, Op.landing_of_one_le (by omega)]
      omega

/-- A run that still goes on has left the program at its top, or has gone down by at least one
instruction with every step. -/
theorem counter_of_run_forward (hp : p.Forward) (h : start.run p n = (.running, m)) :
    m.counter < 0 ∨ start.counter + n ≤ m.counter := by
  refine running_induction
    (motive := fun n m => m.counter < 0 ∨ start.counter + n ≤ m.counter) ?_ ?_ h
  · right
    simp
  · intro n m₁ m₂ _ hstep hcounter
    have hgrows := counter_of_step_forward hp hstep
    -- a machine that takes a step is not outside of the program
    obtain ⟨i, hi, -⟩ := counter_of_step_running hstep
    obtain ⟨hlow, -, -⟩ := instruction?_eq_some_iff.mp hi
    omega

theorem counter_lt_of_forward (hp : p.Forward) (hjk : j < k)
    (h₁ : start.run p j = (.running, m₁)) (h₂ : start.run p k = (.running, m₂))
    {i : Instruction} (hi : m₂.instruction? p = some i) : m₁.counter < m₂.counter := by
  obtain ⟨d, rfl⟩ := Nat.exists_eq_add_of_le (Nat.le_of_lt hjk)
  rw [run_add, h₁] at h₂
  have hcounter := counter_of_run_forward hp h₂
  obtain ⟨hlow, -, -⟩ := instruction?_eq_some_iff.mp hi
  omega

/-- After as many steps as there are instructions the counter has left the program, so the run has
stopped before, or halts now. -/
theorem exists_answers_of_forward (hp : p.Forward) (hstart : 0 ≤ start.counter) :
    ∃ s k m', k ≤ p.size ∧ start.Answers p ⟨.execute, s, k, m'⟩ := by
  rcases hrun : start.run p (p.size + 1) with ⟨s, m'⟩
  by_cases hs : s = .running
  · subst hs
    obtain ⟨m, hm⟩ := exists_running_of_le hrun (Nat.le_succ p.size)
    rw [run_succ_of_running hm] at hrun
    obtain ⟨i, hi, -⟩ := counter_of_step_running hrun
    obtain ⟨hlow, hhigh, -⟩ := instruction?_eq_some_iff.mp hi
    have hcounter := counter_of_run_forward hp hm
    omega
  · obtain ⟨k, m, hk, hm, hstep⟩ := exists_step_of_stopped hrun hs
    exact ⟨s, k, m', Nat.le_of_lt_succ hk, hs, m, hm, hstep⟩

/-- Executing ends after at most as many steps as there are instructions, and goes through the
instructions from top to bottom. -/
structure EndsInOrder (p : Program) (start : Machine) : Prop where
  ends : ∃ s k m', k ≤ p.size ∧ start.Answers p ⟨.execute, s, k, m'⟩
  increasing : ∀ (j k : Nat) (m₁ m₂ : Machine) (i : Instruction), j < k →
    start.run p j = (.running, m₁) → start.run p k = (.running, m₂) →
      m₂.instruction? p = some i → m₁.counter < m₂.counter

theorem endsInOrder_of_forward (hp : p.Forward) (stack : Stack) (sink : Sink) :
    EndsInOrder p { stack, sink } := by
  constructor
  · apply exists_answers_of_forward hp
    exact Int.le_refl 0
  · intro j k m₁ m₂ i hjk h₁ h₂ hi
    exact counter_lt_of_forward hp hjk h₁ h₂ hi

/-- A program in which no jump leads back always ends, from any stack and with any sink, and goes
through its instructions from top to bottom. So does a program that was read from a text in which
every jump names a line below its own or a number that is not positive. -/
theorem forward_ends :
    (∀ p : Program, p.Forward →
      ∀ (stack : Stack) (sink : Sink), EndsInOrder p { stack, sink }) ∧
    (∀ (source : String) (p : Program), Program.ofSource source = .ok p →
      Program.ForwardText source →
        ∀ (stack : Stack) (sink : Sink), EndsInOrder p { stack, sink }) := by
  constructor
  · intro p hp stack sink
    exact endsInOrder_of_forward hp stack sink
  · intro source p h htext stack sink
    exact endsInOrder_of_forward (Program.forward_of_text h htext) stack sink

/-- A program whose jump leads out at the top, and a text with idle lines whose jump, from line three
to line four, lands on line six. -/
theorem forward_ends_skipping :
    Program.Forward ⟨#[⟨0, .load 1⟩, ⟨0, .jump .nonZero (-5)⟩]⟩ ∧
      EndsInOrder ⟨#[⟨0, .load 1⟩, ⟨0, .jump .nonZero (-5)⟩]⟩ {} ∧
      Program.ofSource "33 skip\n32 11\n21 110\n\n20\n32 12" =
        .ok ⟨#[⟨2, .load 1⟩, ⟨3, .jump .nonZero 4⟩, ⟨5, .print⟩, ⟨6, .load 2⟩]⟩ ∧
      Program.ForwardText "33 skip\n32 11\n21 110\n\n20\n32 12" ∧
      EndsInOrder ⟨#[⟨2, .load 1⟩, ⟨3, .jump .nonZero 4⟩, ⟨5, .print⟩, ⟨6, .load 2⟩]⟩ {} := by
  have hforward : Program.Forward ⟨#[⟨0, .load 1⟩, ⟨0, .jump .nonZero (-5)⟩]⟩ := by
    intro index i c target hget hop
    left
    have hmem : i ∈ #[⟨0, .load 1⟩, ⟨0, .jump .nonZero (-5)⟩] := Array.mem_of_getElem? hget
    simp only [List.mem_toArray, List.mem_cons, List.not_mem_nil, or_false] at hmem
    rcases hmem with rfl | rfl
    · cases hop
    · cases hop
      decide
  have hsource : Program.ofSource "33 skip\n32 11\n21 110\n\n20\n32 12" =
      .ok ⟨#[⟨2, .load 1⟩, ⟨3, .jump .nonZero 4⟩, ⟨5, .print⟩, ⟨6, .load 2⟩]⟩ := rfl
  have htext : Program.ForwardText "33 skip\n32 11\n21 110\n\n20\n32 12" := by
    intro number i c target hstands hop
    right
    obtain ⟨hmem, rfl⟩ := (Program.mem_instructions_iff hsource).mpr hstands
    simp only [List.mem_toArray, List.mem_cons, List.not_mem_nil, or_false] at hmem
    rcases hmem with rfl | rfl | rfl | rfl <;> cases hop
    decide
  exact ⟨hforward, forward_ends.1 _ hforward [] {}, hsource, htext,
    forward_ends.2 _ _ hsource htext [] {}⟩

end Machine

end Quaternary
