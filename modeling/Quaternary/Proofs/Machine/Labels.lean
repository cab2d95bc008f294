import Quaternary.Proofs.Machine.Step
import Quaternary.Proofs.Program.Idle

/-!
# Line numbers are labels

A step looks at the operation that the counter points to. The line number of the instruction goes
into the error if the step fails, and has no other effect; the target of a jump is an index, even
though it is meant as a line. Two programs with the same operations therefore run in lockstep
(`run_alike`): the same machine at every step, and the same end but for the line of an error.

A text with a further idle line has the same operations on moved lines, so it runs as before, and
only errors below the new line name another line (`run_ignores_lines`).
-/

namespace Quaternary

/-- How runs of two programs that have come to the same machine end alike. Errors have the same
fault, and each names the line to which the counter points in its own program. -/
def Status.Alike (p q : Program) (m : Machine) : Status → Status → Prop
  | .running, .running | .halted, .halted => True
  | .failed e, .failed e' =>
    e.fault = e'.fault ∧ (m.instruction? p).map (·.line) = some e.line ∧
      (m.instruction? q).map (·.line) = some e'.line
  | _, _ => False

/-- The status with another number for the line of an error. -/
def Status.relabel (f : Nat → Nat) : Status → Status
  | .running => .running
  | .halted => .halted
  | .failed e => .failed ⟨f e.line, e.fault⟩

theorem Status.Alike.running_iff {p q : Program} {m : Machine} {s s' : Status}
    (h : Status.Alike p q m s s') : s = .running ↔ s' = .running := by
  cases s <;> cases s' <;> simp_all [Status.Alike]

namespace Machine

variable {p q : Program}

/-! ## Programs with the same operations -/

theorem map_op_instruction? (p : Program) (m : Machine) :
    (m.instruction? p).map (·.op) = if 0 ≤ m.counter then p.ops[m.counter.toNat]? else none := by
  unfold instruction? Program.get? Program.ops
  split
  · simp
  · rfl

theorem step_alike (h : p.ops = q.ops) (m : Machine) :
    ∃ s s' m', m.step p = (s, m') ∧ m.step q = (s', m') ∧ Status.Alike p q m' s s' := by
  have hops : (m.instruction? p).map (·.op) = (m.instruction? q).map (·.op) := by
    rw [map_op_instruction?, map_op_instruction?, h]
  cases hp : m.instruction? p with
  | none =>
    have hq : m.instruction? q = none := by simpa [hp] using hops.symm
    exact ⟨_, _, m, step_halted hp, step_halted hq, trivial⟩
  | some i =>
    obtain ⟨j, hq, hop⟩ : ∃ j, m.instruction? q = some j ∧ j.op = i.op := by
      simpa [hp] using hops.symm
    rcases hexec : i.op.execute m.counter m.stack m.sink with ⟨result, stack, sink⟩
    have hexec' := hexec
    rw [← hop] at hexec'
    cases result with
    | ok counter => exact ⟨_, _, _, step_ok hp hexec, step_ok hq hexec', trivial⟩
    | error fault =>
      -- the counter stays, and still points to the two instructions
      refine ⟨_, _, _, step_error hp hexec, step_error hq hexec', rfl, ?_, ?_⟩
      · exact congrArg (Option.map (·.line)) hp
      · exact congrArg (Option.map (·.line)) hq

theorem run_alike (h : p.ops = q.ops) (m : Machine) (n : Nat) :
    ∃ s s' m', m.run p n = (s, m') ∧ m.run q n = (s', m') ∧ Status.Alike p q m' s s' := by
  induction n generalizing m with
  | zero => exact ⟨_, _, m, rfl, rfl, trivial⟩
  | succ n ih =>
    obtain ⟨s, s', m', hp, hq, halike⟩ := step_alike h m
    by_cases hs : s = .running
    · obtain rfl := hs
      obtain rfl := halike.running_iff.mp rfl
      rw [run_succ_of_step hp, run_succ_of_step hq]
      exact ih m'
    · have hs' : s' ≠ .running := fun h' => hs (halike.running_iff.mpr h')
      exact ⟨s, s', m', run_succ_of_stop hp hs n, run_succ_of_stop hq hs' n, halike⟩

/-! ## Other line numbers -/

theorem instruction?_relabel (f : Nat → Nat) (p : Program) (m : Machine) :
    m.instruction? (p.relabel f) = (m.instruction? p).map (·.relabel f) := by
  unfold instruction? Program.get? Program.relabel
  split
  · simp
  · rfl

theorem eq_relabel_of_alike {f : Nat → Nat} {m : Machine} {s s' : Status}
    (h : Status.Alike p (p.relabel f) m s s') : s' = s.relabel f := by
  cases s with
  | running => exact h.running_iff.mp rfl
  | halted =>
    cases s' with
    | halted => rfl
    | running | failed => cases h
  | failed e =>
    cases s' with
    | running | halted => cases h
    | failed e' =>
      obtain ⟨hfault, hline, hline'⟩ := h
      rw [instruction?_relabel] at hline'
      obtain ⟨i, hi, hi'⟩ := Option.map_eq_some_iff.mp hline
      rw [hi] at hline'
      have hnumber : f i.line = e'.line := Option.some.inj hline'
      rw [Status.relabel, ← hi', hfault, hnumber]

theorem run_relabel (f : Nat → Nat) (p : Program) (m : Machine) (n : Nat) :
    m.run (p.relabel f) n = ((m.run p n).1.relabel f, (m.run p n).2) := by
  obtain ⟨s, s', m', hp, hq, halike⟩ := run_alike (p.ops_relabel f).symm m n
  rw [hp, hq, eq_relabel_of_alike halike]

/-- Programs with the same operations have the same machine after any number of steps, and end
alike. A further idle line in a source text moves the instructions, the error and the runtime
error below it by one line, and changes nothing else. -/
theorem run_ignores_lines :
    (∀ p q : Program, p.ops = q.ops → ∀ (start : Machine) (n : Nat),
      (start.run p n).2 = (start.run q n).2 ∧
        Status.Alike p q (start.run p n).2 (start.run p n).1 (start.run q n).1) ∧
    ∀ (source : String) (k : Nat) (text : List Char), '\n' ∉ text → Line.isIdle text = true →
      Program.ofSource (Program.insertLine k text source) =
        ((Program.ofSource source).mapError (·.relabel (Program.moved k))).map
          (·.relabel (Program.moved k)) ∧
      ∀ (start : Machine) (n : Nat),
        (Program.ofSource (Program.insertLine k text source)).map (fun q => start.run q n) =
          ((Program.ofSource source).mapError (·.relabel (Program.moved k))).map fun p =>
            ((start.run p n).1.relabel (Program.moved k), (start.run p n).2) := by
  constructor
  · intro p q h start n
    obtain ⟨s, s', m', hp, hq, halike⟩ := run_alike h start n
    rw [hp, hq]
    exact ⟨rfl, halike⟩
  · intro source k text hnewline hidle
    have hread := Program.ofSource_insertLine hnewline hidle k source
    refine ⟨hread, ?_⟩
    intro start n
    rw [hread]
    cases Program.ofSource source with
    | error e => rfl
    | ok p => exact congrArg Except.ok (run_relabel (Program.moved k) p start n)

/-- The same operation on lines one and nine fails with the same fault on its own line. A comment
after the first line of a text with a division by zero moves the division and its error from line
two to line three. -/
theorem run_ignores_lines_comment :
    Status.Alike ⟨#[⟨1, .print⟩]⟩ ⟨#[⟨9, .print⟩]⟩ {} (.failed ⟨1, .underflow .print 1⟩)
        (.failed ⟨9, .underflow .print 1⟩) ∧
      Line.isIdle "33 halve".toList = true ∧
      Program.ofSource (Program.insertLine 1 "33 halve".toList "32 110\n13 10") =
        .ok ⟨#[⟨1, .load 4⟩, ⟨3, .immediate .div 0⟩]⟩ ∧
      (Program.ofSource (Program.insertLine 1 "33 halve".toList "32 110\n13 10")).map
          (fun q => ({} : Machine).run q 5) =
        .ok (.failed ⟨3, .divisionByZero⟩, { stack := [4], counter := 1, steps := 1 }) := by
  have hsource : Program.ofSource "32 110\n13 10" =
      .ok ⟨#[⟨1, .load 4⟩, ⟨2, .immediate .div 0⟩]⟩ := rfl
  obtain ⟨hread, hrun⟩ := run_ignores_lines.2 "32 110\n13 10" 1 "33 halve".toList (by decide) rfl
  rw [hsource] at hread hrun
  have halike := run_ignores_lines.1 ⟨#[⟨1, .print⟩]⟩ ⟨#[⟨9, .print⟩]⟩ rfl {} 1
  refine ⟨halike.2, rfl, hread.trans ?_, hrun {} 5⟩
  apply congrArg Except.ok
  simp [Program.relabel, Instruction.relabel, Program.moved]

end Machine

end Quaternary
