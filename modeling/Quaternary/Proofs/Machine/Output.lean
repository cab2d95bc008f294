import Quaternary.Proofs.Machine.Frame
import Quaternary.Proofs.Machine.Printing
import Quaternary.Proofs.Value.Decimal

/-!
# The output of any number of steps

Steps may be taken one after the other whatever comes of each (`Machine.advance`). A step that fails
may have printed: if a flush fails, the text has been written, and the next step executes the same
instruction on the next value. A run takes such steps up to the first that stops it
(`Machine.exists_advance_of_run`).

`Machine.printedBy` lists the texts of the first steps. Which text a step has is said by what can be
seen of it (`Machine.SendsExactly`): there is one exactly if a printing instruction does not fail
for want of a value or of a character, and it is the decimal form of the value that is popped, or
the character with this code. Any other step leaves the sink alone. By induction on the number of
steps, a sink without a capacity holds the texts one behind the other in UTF-8, and has been flushed
once for each (`Machine.sink_advance`).
-/

namespace Quaternary

theorem Value.toNat_of_char? {v : Value} {c : Char} (h : Value.char? v = some c) :
    (c.toNat : Int) = v.toInt := by
  simp only [char?, Option.ite_none_right_eq_some, Option.some.injEq] at h
  obtain ⟨⟨hnonneg, hvalid⟩, rfl⟩ := h
  have hcode : (Char.ofNat v.toInt.toNat).toNat = v.toInt.toNat := by
    rw [Char.ofNat, dif_pos hvalid]
    rfl
  omega

/-- A printing operation without a text has no value to print, or none that is a character. -/
theorem Op.execute_printing_of_not_printed {op : Op} {stack : Stack}
    (hop : op = .print ∨ op = .printChar) (h : op.printed? stack = none) (counter : Int)
    (sink : Sink) :
    op.execute counter stack sink = ⟨.error (.underflow op.opcode op.required), stack, sink⟩ ∨
      ∃ v, op.execute counter stack sink = ⟨.error (.notACharacter v), stack, sink⟩ := by
  cases stack with
  | nil =>
    left
    apply execute_of_length_lt
    rcases hop with rfl | rfl <;> simp [required]
  | cons v rest =>
    right
    rcases hop with rfl | rfl
    · cases h
    · have hchar : Value.char? v = none := Option.map_eq_none_iff.mp h
      exact ⟨v, by rw [execute_printChar, hchar]⟩

namespace Machine

variable {p : Program} {m start : Machine} {i : Instruction} {text : String}

/-! ## One step -/

/-- The next step executes the printing instruction `i`: it does not fail for want of a value or of
a character. Its output may still fail. -/
structure ExecutesPrint (p : Program) (m : Machine) (i : Instruction) : Prop where
  instruction : m.instruction? p = some i
  op : i.op = .print ∨ i.op = .printChar
  depth : ∀ opcode required, (m.step p).1 ≠ .failed ⟨i.line, .underflow opcode required⟩
  character : ∀ code, (m.step p).1 ≠ .failed ⟨i.line, .notACharacter code⟩

/-- Which text the next step sends to the sink. -/
structure SendsExactly (p : Program) (m : Machine) : Prop where
  executed : (m.printed? p).isSome ↔ ∃ i, m.ExecutesPrint p i
  number : ∀ i text, m.instruction? p = some i → i.op = .print → m.printed? p = some text →
    ∃ v, m.stack = v :: (m.step p).2.stack ∧
      ∀ form, DecimalForm v.toInt form ↔ form = text.toList
  character : ∀ i text, m.instruction? p = some i → i.op = .printChar →
    m.printed? p = some text →
      ∃ v c, m.stack = v :: (m.step p).2.stack ∧ text = String.singleton c ∧
        (c.toNat : Int) = v.toInt
  silent : (∀ i, ¬ m.ExecutesPrint p i) → (m.step p).2.sink = m.sink

/-- A step with a text takes the value from the stack, and fails with its output or not at all. -/
theorem PrintStep.step_outcome {v : Value} {rest : Stack} (h : PrintStep p m text i v rest) :
    (m.step p).2.stack = rest ∧
      ((m.step p).1 = .running ∨
        ∃ cause, (m.step p).1 = .failed ⟨i.line, .outputFailed cause⟩) := by
  rcases hemit : m.sink.emit text with ⟨result, sink'⟩
  cases result with
  | ok _ =>
    have hstep : m.step p = _ := h.taken hemit
    rw [hstep]
    exact ⟨rfl, Or.inl rfl⟩
  | error cause =>
    have hstep : m.step p = _ := h.refused hemit
    rw [hstep]
    exact ⟨rfl, Or.inr ⟨cause, rfl⟩⟩

theorem executesPrint_of_printed? (h : m.printed? p = some text) : ∃ i, m.ExecutesPrint p i := by
  obtain ⟨i, v, rest, hprint⟩ := exists_printStep h
  obtain ⟨-, hrunning | ⟨cause, hfailed⟩⟩ := hprint.step_outcome
  · exact ⟨i, hprint.instruction, hprint.op, by simp [hrunning], by simp [hrunning]⟩
  · exact ⟨i, hprint.instruction, hprint.op, by simp [hfailed], by simp [hfailed]⟩

theorem ExecutesPrint.isSome_printed? (h : m.ExecutesPrint p i) : (m.printed? p).isSome := by
  have hprinted : m.printed? p = i.op.printed? m.stack := by
    rw [printed?, h.instruction, Option.bind_some]
  cases hop : i.op.printed? m.stack with
  | some text => rw [hprinted, hop, Option.isSome_some]
  | none =>
    -- then the step has one of the two faults that are excluded
    exfalso
    rcases Op.execute_printing_of_not_printed h.op hop m.counter m.sink with hexec | ⟨v, hexec⟩
    · exact h.depth _ _ (congrArg Prod.fst (step_error h.instruction hexec))
    · exact h.character v (congrArg Prod.fst (step_error h.instruction hexec))

/-- The text of a step is that of its instruction on the value that the step pops. -/
theorem exists_popped_of_printed? (hi : m.instruction? p = some i) (h : m.printed? p = some text) :
    ∃ v, m.stack = v :: (m.step p).2.stack ∧
      i.op.printed? (v :: (m.step p).2.stack) = some text := by
  obtain ⟨j, v, rest, hprint⟩ := exists_printStep h
  rw [printed?, hi, Option.bind_some, hprint.stack] at h
  obtain ⟨hstack, -⟩ := hprint.step_outcome
  rw [hstack]
  exact ⟨v, hprint.stack, h⟩

theorem isSome_printed?_iff : (m.printed? p).isSome ↔ ∃ i, m.ExecutesPrint p i := by
  constructor
  · intro hsome
    obtain ⟨text, htext⟩ := Option.isSome_iff_exists.mp hsome
    exact executesPrint_of_printed? htext
  · rintro ⟨i, hi⟩
    exact hi.isSome_printed?

theorem sendsExactly (p : Program) (m : Machine) : m.SendsExactly p where
  executed := isSome_printed?_iff
  number := by
    intro i text hi hop htext
    obtain ⟨v, hstack, hprinted⟩ := exists_popped_of_printed? hi htext
    rw [hop] at hprinted
    obtain rfl : v.decimal = text := Option.some.inj hprinted
    exact ⟨v, hstack, fun _ => Value.decimalForm_iff⟩
  character := by
    intro i text hi hop htext
    obtain ⟨v, hstack, hprinted⟩ := exists_popped_of_printed? hi htext
    rw [hop] at hprinted
    obtain ⟨c, hchar, hsingle⟩ := Option.map_eq_some_iff.mp hprinted
    exact ⟨v, c, hstack, hsingle.symm, Value.toNat_of_char? hchar⟩
  silent := by
    intro hidle
    have hnone : m.printed? p = none := by
      rw [← Option.not_isSome_iff_eq_none, isSome_printed?_iff]
      rintro ⟨i, hi⟩
      exact hidle i hi
    obtain ⟨s, m', hstep⟩ := step_of_not_printed hnone
    have hself : m.step p = (s, { m' with sink := m.sink }) := hstep m.sink
    rw [hself]

/-! ## Steps one after the other -/

/-- The machine after `n` steps, taken one after the other also after one that failed. -/
def advance (p : Program) (m : Machine) : Nat → Machine
  | 0 => m
  | n + 1 => ((m.advance p n).step p).2

/-- The texts that the first `n` of these steps print, in their order. -/
def printedBy (p : Program) (start : Machine) (n : Nat) : List String :=
  (List.range n).filterMap fun k => (start.advance p k).printed? p

theorem printedBy_succ (p : Program) (start : Machine) (n : Nat) :
    start.printedBy p (n + 1) =
      start.printedBy p n ++ ((start.advance p n).printed? p).toList :=
  filterMap_range_succ (fun k => (start.advance p k).printed? p) n

/-- A sink without a capacity has taken every text, also one after which the flush failed. -/
theorem sink_advance (h : start.sink.capacity = none) (n : Nat) :
    (start.advance p n).sink = start.sink.holding (start.printedBy p n) := by
  induction n with
  | zero => exact (Sink.holding_nil start.sink).symm
  | succ n ih =>
    have hcapacity : (start.advance p n).sink.capacity = none := by
      rw [ih]
      exact h
    rw [advance, sink_step hcapacity, ih, printedBy_succ, Sink.holding_append]

theorem exists_advance_of_run (p : Program) (start : Machine) (n : Nat) :
    ∃ k ≤ n, (start.run p n).2 = start.advance p k := by
  induction n with
  | zero => exact ⟨0, Nat.le_refl 0, rfl⟩
  | succ n ih =>
    obtain ⟨k, hk, hadvance⟩ := ih
    rcases hrun : start.run p n with ⟨s, m⟩
    rw [hrun] at hadvance
    by_cases hs : s = .running
    · subst hs
      refine ⟨k + 1, Nat.succ_le_succ hk, ?_⟩
      rw [run_succ_of_running hrun, advance, ← hadvance]
    · -- the run has stopped, so it takes no further step
      refine ⟨k, Nat.le_succ_of_le hk, ?_⟩
      rw [run_of_stopped hrun hs (Nat.le_succ n)]
      exact hadvance

/-- What the sink has received after any number of steps from `start`. -/
structure OutputExactly (p : Program) (start : Machine) : Prop where
  /-- In each step, whatever the machine. -/
  step : ∀ m : Machine, m.SendsExactly p
  written : ∀ n, (start.advance p n).sink.written =
    start.sink.written ++ (String.join (start.printedBy p n)).toUTF8
  valid : ∀ n, start.sink.written.IsValidUTF8 → (start.advance p n).sink.written.IsValidUTF8
  flushes : ∀ n, (start.advance p n).sink.flushes =
    start.sink.flushes + (start.printedBy p n).length
  /-- A run takes such steps. -/
  run : ∀ n, ∃ k ≤ n, (start.run p n).2 = start.advance p k

/-- However many steps have been taken, successfully or not, a sink without a capacity has received
the texts of the printing instructions that were executed, in their order and in UTF-8, and one
flush for each; and nothing else has reached it. -/
theorem output_exact (h : start.sink.capacity = none) : OutputExactly p start := by
  have hwritten : ∀ n, (start.advance p n).sink.written =
      start.sink.written ++ (String.join (start.printedBy p n)).toUTF8 := by
    intro n
    rw [sink_advance h]
    rfl
  refine ⟨sendsExactly p, hwritten, ?_, ?_, exists_advance_of_run p start⟩
  · intro n hvalid
    rw [hwritten]
    exact hvalid.append (String.join (start.printedBy p n)).isValidUTF8
  · intro n
    rw [sink_advance h]
    rfl

/-- Prints a number, and then two characters. -/
def mixed : Program := ⟨#[⟨1, .print⟩, ⟨2, .printChar⟩, ⟨3, .printChar⟩]⟩

/-- Two numbers, the code of a character and that of none, and a sink that fails its first flush. -/
def mixedStart : Machine where
  stack := [7, Int64.minValue, 233, 0xD800]
  sink := { failingFlush := some 1 }

/-- The first flush fails after the text has been written, so the first instruction prints both
numbers. The last value is no character, however often it is tried. -/
theorem output_exact_mixed :
    mixedStart.sink.capacity = none ∧
      (mixedStart.advance mixed 5).sink.written = "7-9223372036854775808é".toUTF8 ∧
      (mixedStart.advance mixed 5).sink.flushes = 3 := by
  have hexact : OutputExactly mixed mixedStart := output_exact rfl
  have hprinted : mixedStart.printedBy mixed 5 = ["7", "-9223372036854775808", "é"] := rfl
  have hwritten := hexact.written 5
  have hflushes := hexact.flushes 5
  rw [hprinted] at hwritten hflushes
  exact ⟨rfl, hwritten, hflushes⟩

end Machine

end Quaternary
