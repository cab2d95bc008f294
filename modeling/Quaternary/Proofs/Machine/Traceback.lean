import Quaternary.Proofs.Machine.Faults
import Quaternary.Proofs.Program.Idle

/-!
# From an error back to the text

Reading a text keeps all of its instructions, and only these: an instruction is in the program
exactly if its line, read under its own number, holds it (`Program.mem_instructions_iff`). A run
keeps the instruction that fails at the counter, since a failing step moves nothing. So the line
that an error names is the line of the text that holds the instruction at the counter, and where
the fault names an opcode, it is the opcode of that instruction
(`Machine.instruction?_of_run_failed`, `Op.CanFault.opcode_eq`).
-/

namespace Quaternary

/-! ## Instructions and the lines of a text -/

/-- The line of a text with the given number. Lines are counted from one. -/
def lineAt? (source : String) : Nat → Option (List Char)
  | 0 => none
  | k + 1 => (sourceLines source)[k]?

/-- Line `number` of the text holds the instruction. -/
def Instruction.StandsOn (source : String) (number : Nat) (i : Instruction) : Prop :=
  ∃ text, lineAt? source number = some text ∧ Instruction.ofLine? text number = .ok (some i)

theorem mem_numberedLines_iff {source : String} {text : List Char} {number : Nat} :
    (text, number) ∈ numberedLines source ↔ lineAt? source number = some text := by
  rw [numberedLines_eq_zipIdx, List.mk_mem_zipIdx_iff_le_and_getElem?_sub]
  cases number with
  | zero => simp [lineAt?]
  | succ k => simp [lineAt?]

theorem number_le_of_lineAt? {source : String} {number : Nat} {text : List Char}
    (h : lineAt? source number = some text) :
    1 ≤ number ∧ number ≤ (sourceLines source).length := by
  cases number with
  | zero => cases h
  | succ k =>
    obtain ⟨hk, -⟩ := List.getElem?_eq_some_iff.mp h
    omega

namespace Program

variable {source : String} {p : Program}

theorem mem_instructionsOf_iff {lines : List (List Char × Nat)} {is : List Instruction}
    (h : instructionsOf lines = .ok is) {i : Instruction} :
    i ∈ is ↔ ∃ text number, (text, number) ∈ lines ∧
      Instruction.ofLine? text number = .ok (some i) := by
  induction lines generalizing is with
  | nil =>
    cases h
    simp
  | cons line rest ih =>
    obtain ⟨first, last⟩ := line
    obtain ⟨found, others, hfound, hothers, rfl⟩ := instructionsOf_cons_ok h
    rw [List.mem_append, Option.mem_toList, ih hothers]
    constructor
    · rintro (rfl | ⟨text, number, hmem, hline⟩)
      · exact ⟨first, last, List.mem_cons_self, hfound⟩
      · exact ⟨text, number, List.mem_cons_of_mem _ hmem, hline⟩
    · rintro ⟨text, number, hmem, hline⟩
      rcases List.mem_cons.mp hmem with heq | hmem
      · cases heq
        left
        exact Except.ok.inj (hfound.symm.trans hline)
      · exact Or.inr ⟨text, number, hmem, hline⟩

/-- A program has exactly the instructions that stand on the lines of its text. -/
theorem mem_instructions_iff (h : ofSource source = .ok p) {i : Instruction} {number : Nat} :
    i ∈ p.instructions ∧ i.line = number ↔ i.StandsOn source number := by
  rw [← Array.mem_toList_iff, mem_instructionsOf_iff (ofSource_eq_ok_iff.mp h)]
  constructor
  · rintro ⟨⟨text, k, hmem, hline⟩, rfl⟩
    obtain rfl := line_of_ofLine? hline
    exact ⟨text, mem_numberedLines_iff.mp hmem, hline⟩
  · rintro ⟨text, hat, hline⟩
    exact ⟨⟨text, number, mem_numberedLines_iff.mpr hat, hline⟩, line_of_ofLine? hline⟩

theorem line_bounds (h : ofSource source = .ok p) {line : Nat} (hline : line ∈ p.lines) :
    1 ≤ line ∧ line ≤ (sourceLines source).length := by
  obtain ⟨i, hi, rfl⟩ := List.mem_map.mp hline
  obtain ⟨text, hat, -⟩ := (mem_instructions_iff h).mp ⟨Array.mem_toList_iff.mp hi, rfl⟩
  exact number_le_of_lineAt? hat

end Program

/-! ## Faults name the operation that has them -/

/-- The opcode that a fault names. -/
def Fault.opcode? : Fault → Option Opcode
  | .underflow opcode _ | .overflow opcode => some opcode
  | .divisionByZero | .notACharacter _ | .outputFailed _ => none

namespace Op

/-- The faults that an operation can have. -/
inductive CanFault (op : Op) : Fault → Prop where
  | underflow : CanFault op (.underflow op.opcode op.required)
  | arith (e : Arith.Error) : CanFault op (.ofArith op.opcode e)
  | character (v : Value) : CanFault op (.notACharacter v)
  | output (cause : String) : CanFault op (.outputFailed cause)

theorem CanFault.opcode_eq {op : Op} {fault : Fault} (h : op.CanFault fault) {opcode : Opcode}
    (hopcode : opcode ∈ fault.opcode?) : opcode = op.opcode := by
  cases h with
  | underflow => exact (Option.some.inj hopcode).symm
  | arith e =>
    cases e with
    | divisionByZero => cases hopcode
    | overflow => exact (Option.some.inj hopcode).symm
  | character v => cases hopcode
  | output cause => cases hopcode

theorem canFault_of_execute {op : Op} {counter : Int} {stack : Stack} {sink : Sink}
    {fault : Fault} (h : (op.execute counter stack sink).result = .error fault) :
    op.CanFault fault := by
  cases faults_of_execute h with
  | underflow => exact .underflow
  | divisionByZero => exact .arith .divisionByZero
  | overflow => exact .arith .overflow
  | notACharacter => exact .character _
  | outputFailed => exact .output _

end Op

/-! ## Errors of a run -/

namespace Machine

variable {source : String} {p : Program} {m start : Machine} {n : Nat} {e : RuntimeError}

/-- The counter of a machine that has failed still points to the instruction of the error. -/
theorem instruction?_of_run_failed (h : start.run p n = (.failed e, m)) :
    ∃ i, m.instruction? p = some i ∧ i.line = e.line ∧ i.op.CanFault e.fault := by
  obtain ⟨k, m₀, -, -, hstep⟩ := exists_step_of_stopped h (by simp)
  obtain ⟨i, hi, hline, hexec, hcounter, -⟩ := exists_error_of_step_failed hstep
  have hresult : (i.op.execute m₀.counter m₀.stack m₀.sink).result = .error e.fault := by
    rw [hexec]
  refine ⟨i, ?_, hline, Op.canFault_of_execute hresult⟩
  unfold instruction? at hi ⊢
  rw [hcounter]
  exact hi

/-- The instructions of a program are those on the lines of its text, in the order of the lines.
If a run of it fails, the counter points to an instruction of the program, which stands on the
line that the error names, and the opcode that the fault names is its own. -/
theorem run_failed_traces_back (h : Program.ofSource source = .ok p) :
    p.lines.Pairwise (· < ·) ∧
    (∀ line ∈ p.lines, 1 ≤ line ∧ line ≤ (sourceLines source).length) ∧
    (∀ (i : Instruction) (number : Nat),
      i ∈ p.instructions ∧ i.line = number ↔ i.StandsOn source number) ∧
    ∀ (start : Machine) (n : Nat) (e : RuntimeError) (m : Machine),
      start.run p n = (.failed e, m) →
        0 ≤ m.counter ∧ m.counter < p.size ∧
          ∃ i, p.get? m.counter.toNat = some i ∧ i.StandsOn source e.line ∧
            ∀ opcode ∈ e.fault.opcode?, opcode.mnemonic = i.op.opcode.mnemonic := by
  refine ⟨(Program.ordered_of_ofSource h).increasing, fun _ => Program.line_bounds h,
    fun _ _ => Program.mem_instructions_iff h, ?_⟩
  intro start n e m hrun
  obtain ⟨i, hi, hline, hfault⟩ := instruction?_of_run_failed hrun
  obtain ⟨hlow, hhigh, hget⟩ := instruction?_eq_some_iff.mp hi
  have hstands := (Program.mem_instructions_iff h).mp ⟨mem_of_instruction? hi, hline⟩
  refine ⟨hlow, hhigh, i, hget, hstands, ?_⟩
  intro opcode hopcode
  rw [hfault.opcode_eq hopcode]

/-- Below a comment and above a blank line there is one value for an addition of two. The error
names line four, and that line holds the addition to which the counter points. -/
theorem run_failed_traces_back_addition :
    Program.ofSource "33 one\n32 11\n\n00" = .ok ⟨#[⟨2, .load 1⟩, ⟨4, .binary .add⟩]⟩ ∧
      ∃ m, run ⟨#[⟨2, .load 1⟩, ⟨4, .binary .add⟩]⟩ 2 {} =
          (.failed ⟨4, .underflow (.binary .add) 2⟩, m) ∧
        ∃ i, Program.get? ⟨#[⟨2, .load 1⟩, ⟨4, .binary .add⟩]⟩ m.counter.toNat = some i ∧
          i.StandsOn "33 one\n32 11\n\n00" 4 ∧ i.op.opcode.mnemonic = "ADD" := by
  have hsource : Program.ofSource "33 one\n32 11\n\n00" =
      .ok ⟨#[⟨2, .load 1⟩, ⟨4, .binary .add⟩]⟩ := rfl
  obtain ⟨-, -, -, hrun⟩ := run_failed_traces_back hsource
  obtain ⟨-, -, i, hget, hstands, hopcode⟩ :=
    hrun {} 2 ⟨4, .underflow (.binary .add) 2⟩ _ rfl
  exact ⟨hsource, _, rfl, i, hget, hstands, (hopcode (.binary .add) rfl).symm⟩

end Machine

end Quaternary
