import Quaternary.Proofs.Arith.Division
import Quaternary.Proofs.Machine.Frame
import Quaternary.Proofs.Machine.Printing

/-!
# When an operation fails

`Op.Faults` says of each fault what has to be wrong for it: the stack has too few values, a divisor
is zero, an exact result is no value, a number is the code of no character, or the sink fails on a
text. The conditions exclude each other, since the four last ones are about values that the stack
has; of a division by zero there is no exact result. An operation has the fault whose condition
holds (`Op.execute_eq_error_iff`), and if there is none, it succeeds.

The conditions are said in terms of the stack and the sink: `Op.Computes` and `Op.Prints` are what
there is to compute and to print on a stack, and `Sink.Refuses` is why a sink fails.
-/

namespace Quaternary

/-! ## Characters -/

/-- The value is a Unicode scalar value: a code point that is no surrogate. -/
def Value.IsScalar (v : Value) : Prop :=
  0 ≤ v.toInt ∧ v.toInt ≤ 0xD7FF ∨ 0xE000 ≤ v.toInt ∧ v.toInt ≤ 0x10FFFF

theorem Value.isScalar_iff {v : Value} :
    v.IsScalar ↔ 0 ≤ v.toInt ∧ v.toInt.toNat.isValidChar := by
  unfold IsScalar Nat.isValidChar
  omega

theorem Value.char?_of_isScalar {v : Value} (h : v.IsScalar) :
    char? v = some (Char.ofNat v.toInt.toNat) :=
  if_pos (isScalar_iff.mp h)

theorem Value.char?_of_not_isScalar {v : Value} (h : ¬ v.IsScalar) : char? v = none :=
  if_neg fun hvalid => h (isScalar_iff.mpr hvalid)

/-! ## The sink -/

/-- The sink fails on a text, for the given cause. -/
inductive Sink.Refuses (s : Sink) (text : String) : String → Prop where
  /-- The room that is left is less than the text. -/
  | write {capacity : Nat} (hcapacity : s.capacity = some capacity)
      (hfull : capacity - s.written.size < text.utf8ByteSize) : Refuses s text s.fullCause
  /-- The text is written, and the flush after it fails. -/
  | flush (hfits : ∀ capacity ∈ s.capacity, text.utf8ByteSize ≤ capacity - s.written.size)
      (hflush : s.failingFlush = some (s.flushes + 1)) : Refuses s text s.flushCause

theorem Sink.write_of_fits {s : Sink} {text : String}
    (h : ∀ capacity ∈ s.capacity, text.utf8ByteSize ≤ capacity - s.written.size) :
    s.write text.toUTF8 = (.ok (), { s with written := s.written ++ text.toUTF8 }) := by
  unfold write
  cases hcapacity : s.capacity with
  | none => rfl
  | some capacity => exact if_pos (h capacity hcapacity)

theorem Sink.emit_of_fits {s : Sink} {text : String}
    (h : ∀ capacity ∈ s.capacity, text.utf8ByteSize ≤ capacity - s.written.size) :
    (s.emit text).1 =
      if s.failingFlush = some (s.flushes + 1) then .error s.flushCause else .ok () := by
  rw [emit, write_of_fits h]
  rfl

theorem Sink.emit_of_full {s : Sink} {text : String} {capacity : Nat}
    (hcapacity : s.capacity = some capacity)
    (hfull : capacity - s.written.size < text.utf8ByteSize) :
    (s.emit text).1 = .error s.fullCause := by
  have hsize : ¬ text.toUTF8.size ≤ capacity - s.written.size := Nat.not_le_of_lt hfull
  simp only [emit, write, hcapacity, if_neg hsize]

theorem Sink.emit_eq_error_iff {s : Sink} {text cause : String} :
    (s.emit text).1 = .error cause ↔ s.Refuses text cause := by
  constructor
  · intro h
    by_cases hfits : ∀ capacity ∈ s.capacity, text.utf8ByteSize ≤ capacity - s.written.size
    · rw [emit_of_fits hfits] at h
      split at h
      · next hflush =>
        cases h
        exact .flush hfits hflush
      · cases h
    · simp only [Classical.not_forall, Nat.not_le] at hfits
      obtain ⟨capacity, hcapacity, hfull⟩ := hfits
      rw [emit_of_full hcapacity hfull] at h
      cases h
      exact .write hcapacity hfull
  · intro h
    cases h with
    | write hcapacity hfull => exact emit_of_full hcapacity hfull
    | flush hfits hflush => rw [emit_of_fits hfits, if_pos hflush]

namespace Op

variable {op : Op} {counter : Int} {stack rest : Stack} {sink : Sink} {f : Arith} {a b : Value}
  {text : String} {fault : Fault}

/-! ## What an operation computes and prints -/

/-- The operation computes `f` on the operands `a` and `b`. -/
inductive Computes : Op → Stack → Arith → Value → Value → Prop where
  | binary (f : Arith) (a b : Value) (rest : Stack) : Computes (.binary f) (a :: b :: rest) f a b
  | immediate (f : Arith) (a c : Value) (rest : Stack) :
      Computes (.immediate f c) (a :: rest) f a c

/-- The operation prints the text. -/
inductive Prints : Op → Stack → String → Prop where
  | print (v : Value) (rest : Stack) : Prints .print (v :: rest) v.decimal
  | printChar {v : Value} (h : v.IsScalar) (rest : Stack) :
      Prints .printChar (v :: rest) (String.singleton (Char.ofNat v.toInt.toNat))

theorem Computes.execute_eq (h : op.Computes stack f a b) :
    ∃ rest, ∀ counter sink,
      op.execute counter stack sink = execute.compute op counter stack sink f a b rest := by
  cases h with
  | binary _ _ _ rest => exact ⟨rest, fun _ _ => rfl⟩
  | immediate _ _ _ rest => exact ⟨rest, fun _ _ => rfl⟩

theorem Computes.operands_unique {f' : Arith} {a' b' : Value} (h : op.Computes stack f a b)
    (h' : op.Computes stack f' a' b') : f = f' ∧ a = a' ∧ b = b' := by
  cases h <;> cases h' <;> exact ⟨rfl, rfl, rfl⟩

theorem Prints.printed?_eq (h : op.Prints stack text) : op.printed? stack = some text := by
  cases h with
  | print v rest => rfl
  | printChar h rest => rw [printed?, Value.char?_of_isScalar h, Option.map_some]

/-! ## The conditions of the faults -/

/-- What has to be wrong for an operation to have a fault. -/
inductive Faults (op : Op) (stack : Stack) (sink : Sink) : Fault → Prop where
  | underflow (h : stack.length < op.required) :
      Faults op stack sink (.underflow op.opcode op.required)
  | divisionByZero {a : Value} (h : op.Computes stack .div a 0) :
      Faults op stack sink .divisionByZero
  | overflow {f : Arith} {a b : Value} (h : op.Computes stack f a b) (hzero : ¬ (f = .div ∧ b = 0))
      (hout : f.exact a.toInt b.toInt < Value.least ∨ Value.greatest < f.exact a.toInt b.toInt) :
      Faults op stack sink (.overflow op.opcode)
  | notACharacter {v : Value} (hop : op = .printChar) (hv : stack.head? = some v)
      (hscalar : ¬ v.IsScalar) : Faults op stack sink (.notACharacter v)
  | outputFailed {text cause : String} (h : op.Prints stack text)
      (hsink : sink.Refuses text cause) : Faults op stack sink (.outputFailed cause)

theorem faults_of_compute (h : op.Computes stack f a b)
    (herror : (execute.compute op counter stack sink f a b rest).result = .error fault) :
    op.Faults stack sink fault := by
  unfold execute.compute at herror
  cases happly : f.apply a b with
  | ok v =>
    rw [happly] at herror
    cases herror
  | error e =>
    rw [happly] at herror
    cases e with
    | divisionByZero =>
      cases herror
      obtain ⟨rfl, rfl⟩ := Arith.apply_eq_divisionByZero_iff.mp happly
      exact .divisionByZero h
    | overflow =>
      cases herror
      obtain ⟨hzero, hout⟩ := Arith.apply_eq_overflow_iff.mp happly
      exact .overflow h hzero hout

theorem faults_of_output (h : op.Prints stack text)
    (herror : (execute.output counter sink text rest).result = .error fault) :
    op.Faults stack sink fault := by
  unfold execute.output at herror
  split at herror
  · cases herror
  · next hemit =>
    cases herror
    exact .outputFailed h (Sink.emit_eq_error_iff.mp (congrArg Prod.fst hemit))

theorem faults_of_execute (h : (op.execute counter stack sink).result = .error fault) :
    op.Faults stack sink fault := by
  by_cases hshort : stack.length < op.required
  · rw [execute_of_length_lt hshort] at h
    cases h
    exact .underflow hshort
  -- from here on the stack has the values that the operation looks at
  have hdepth : op.required ≤ stack.length := Nat.le_of_not_lt hshort
  cases op with
  | binary f =>
    match stack, hdepth with
    | a :: b :: rest, _ => exact faults_of_compute (.binary f a b rest) h
  | immediate f c =>
    match stack, hdepth with
    | a :: rest, _ => exact faults_of_compute (.immediate f a c rest) h
  | print =>
    match stack, hdepth with
    | v :: rest, _ => exact faults_of_output (.print v rest) h
  | printChar =>
    match stack, hdepth with
    | v :: rest, _ =>
      rw [execute_printChar] at h
      by_cases hscalar : v.IsScalar
      · rw [Value.char?_of_isScalar hscalar] at h
        exact faults_of_output (.printChar hscalar rest) h
      · rw [Value.char?_of_not_isScalar hscalar] at h
        cases h
        exact .notACharacter rfl rfl hscalar
  | jump c target => cases h
  | dup =>
    match stack, hdepth with
    | v :: rest, _ => cases h
  | reverse count =>
    rw [execute_reverse hdepth] at h
    cases h
  | load v => cases h

theorem Faults.result_eq (h : op.Faults stack sink fault) (counter : Int) :
    (op.execute counter stack sink).result = .error fault := by
  cases h with
  | underflow hshort => rw [execute_of_length_lt hshort]
  | divisionByZero h =>
    obtain ⟨rest, hexec⟩ := h.execute_eq
    rw [hexec, execute.compute, Arith.apply_eq_divisionByZero_iff.mpr ⟨rfl, rfl⟩]
    rfl
  | overflow h hzero hout =>
    obtain ⟨rest, hexec⟩ := h.execute_eq
    rw [hexec, execute.compute, Arith.apply_eq_overflow_iff.mpr ⟨hzero, hout⟩]
    rfl
  | notACharacter hop hv hscalar =>
    subst hop
    obtain ⟨rest, rfl⟩ := List.head?_eq_some_iff.mp hv
    rw [execute_printChar, Value.char?_of_not_isScalar hscalar]
  | @outputFailed text cause h hsink =>
    obtain ⟨-, v, rest, -, hexec⟩ := execute_of_printed? h.printed?_eq
    have hemit := Sink.emit_eq_error_iff.mpr hsink
    rw [hexec, execute.output]
    rcases hsplit : sink.emit text with ⟨result, sink'⟩
    rw [hsplit] at hemit
    cases hemit
    rfl

/-- An operation has a fault exactly if what it takes for this fault is wrong. -/
theorem execute_eq_error_iff :
    (op.execute counter stack sink).result = .error fault ↔ op.Faults stack sink fault :=
  ⟨faults_of_execute, fun h => h.result_eq counter⟩

/-! ## All results -/

/-- The operation is a jump to `target` that is taken. -/
def Jumps (op : Op) (stack : Stack) (target : Value) : Prop :=
  ∃ c, op = .jump c target ∧ c.holds (stack.headD 0) = true

/-- Which result an operation has on a stack, from which fault it reports to where it goes on. -/
structure EndsExactly (op : Op) (counter : Int) (stack : Stack) (sink : Sink)
    (result : Except Fault Int) : Prop where
  /-- Missing values are reported whatever else is wrong. -/
  underflow : ∀ o n, result = .error (.underflow o n) ↔
    stack.length < op.required ∧ o = op.opcode ∧ n = op.required
  divisionByZero : result = .error .divisionByZero ↔ ∃ a, op.Computes stack .div a 0
  overflow : ∀ o, result = .error (.overflow o) ↔
    o = op.opcode ∧ ∃ f a b, op.Computes stack f a b ∧ ¬ (f = .div ∧ b = 0) ∧
      (f.exact a.toInt b.toInt < Value.least ∨ Value.greatest < f.exact a.toInt b.toInt)
  /-- Only one pair of values has a quotient that is no value. -/
  quotient : ∀ a b, op.Computes stack .div a b →
    (result = .error (.overflow op.opcode) ↔ a.toInt = Value.least ∧ b.toInt = -1)
  notACharacter : ∀ v, result = .error (.notACharacter v) ↔
    op = .printChar ∧ stack.head? = some v ∧ ¬ v.IsScalar
  outputFailed : ∀ cause, result = .error (.outputFailed cause) ↔
    ∃ text, op.Prints stack text ∧ sink.Refuses text cause
  success : (∃ next, result = .ok next) ↔ ∀ fault, ¬ op.Faults stack sink fault
  jump : ∀ target, op.Jumps stack target → result = .ok (landing target)
  next : ∀ counter', result = .ok counter' → (∀ target, ¬ op.Jumps stack target) →
    counter' = counter + 1

theorem overflow_of_quotient {sink : Sink} (h : op.Computes stack .div a b) :
    op.Faults stack sink (.overflow op.opcode) ↔ a.toInt = Value.least ∧ b.toInt = -1 := by
  rw [← Arith.apply_div_eq_overflow_iff, Arith.apply_eq_overflow_iff]
  constructor
  · intro hfault
    cases hfault with
    | overflow h' hzero hout =>
      obtain ⟨rfl, rfl, rfl⟩ := h.operands_unique h'
      exact ⟨hzero, hout⟩
  · rintro ⟨hzero, hout⟩
    exact .overflow h hzero hout

theorem exists_ok_iff :
    (∃ next, (op.execute counter stack sink).result = .ok next) ↔
      ∀ fault, ¬ op.Faults stack sink fault := by
  cases hresult : (op.execute counter stack sink).result with
  | ok next =>
    refine iff_of_true ⟨next, rfl⟩ ?_
    intro fault hfault
    rw [hfault.result_eq] at hresult
    cases hresult
  | error fault =>
    refine iff_of_false ?_ ?_
    · rintro ⟨next, hnext⟩
      cases hnext
    · intro hnone
      exact hnone fault (faults_of_execute hresult)

theorem next_of_not_jumps {next : Int} (h : (op.execute counter stack sink).result = .ok next)
    (hjumps : ∀ target, ¬ op.Jumps stack target) : next = counter + 1 := by
  rcases counter_of_execute h with hnext | ⟨c, target, rfl, -⟩
  · exact hnext
  · have htaken : ¬ c.holds (stack.headD 0) = true := fun htaken => hjumps target ⟨c, rfl, htaken⟩
    have hcounter : (if c.holds (stack.headD 0) then landing target else counter + 1) = next :=
      Except.ok.inj h
    rw [if_neg htaken] at hcounter
    exact hcounter.symm

theorem endsExactly_execute (op : Op) (counter : Int) (stack : Stack) (sink : Sink) :
    EndsExactly op counter stack sink (op.execute counter stack sink).result where
  underflow := by
    intro o n
    rw [execute_eq_error_iff]
    constructor
    · intro h
      cases h with
      | underflow h => exact ⟨h, rfl, rfl⟩
    · rintro ⟨h, rfl, rfl⟩
      exact .underflow h
  divisionByZero := by
    rw [execute_eq_error_iff]
    constructor
    · intro h
      cases h with
      | divisionByZero h => exact ⟨_, h⟩
    · rintro ⟨a, h⟩
      exact .divisionByZero h
  overflow := by
    intro o
    rw [execute_eq_error_iff]
    constructor
    · intro h
      cases h with
      | overflow h hzero hout => exact ⟨rfl, _, _, _, h, hzero, hout⟩
    · rintro ⟨rfl, f, a, b, h, hzero, hout⟩
      exact .overflow h hzero hout
  quotient := by
    intro a b h
    rw [execute_eq_error_iff, overflow_of_quotient h]
  notACharacter := by
    intro v
    rw [execute_eq_error_iff]
    constructor
    · intro h
      cases h with
      | notACharacter hop hv hscalar => exact ⟨hop, hv, hscalar⟩
    · rintro ⟨hop, hv, hscalar⟩
      exact .notACharacter hop hv hscalar
  outputFailed := by
    intro cause
    rw [execute_eq_error_iff]
    constructor
    · intro h
      cases h with
      | outputFailed h hsink => exact ⟨_, h, hsink⟩
    · rintro ⟨text, h, hsink⟩
      exact .outputFailed h hsink
  success := exists_ok_iff
  jump := by
    rintro target ⟨c, rfl, htaken⟩
    exact congrArg Except.ok (if_pos htaken)
  next := fun _ => next_of_not_jumps

/-- How many values each operation requires, and which result it has on every stack. -/
theorem execute_ends_exactly (op : Op) (counter : Int) (stack : Stack) (sink : Sink) :
    (op.required =
      match op with
      | .binary _ => 2
      | .immediate .. | .print | .printChar | .dup => 1
      | .reverse count => (max count.toInt 0).toNat
      | .load _ | .jump .. => 0) ∧
    EndsExactly op counter stack sink (op.execute counter stack sink).result := by
  refine ⟨?_, endsExactly_execute op counter stack sink⟩
  cases op with
  | binary | immediate | print | printChar | dup | load | jump => rfl
  | reverse count =>
    change count.toInt.toNat = (max count.toInt 0).toNat
    omega

end Op

end Quaternary
