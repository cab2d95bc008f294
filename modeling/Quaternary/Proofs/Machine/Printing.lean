import Quaternary.Proofs.Machine.Step

/-!
# What a run prints

`Op.printed?` is the text that an operation prints on a stack, and `Machine.texts` are the texts of
the first steps of a run in their order. A text counts when it goes to the sink, whether or not the
sink takes it; an operation that fails before has none.

An operation meets the sink by its text only. Without a text, a step is the same with any sink
(`Machine.step_of_not_printed`); with one, the sink decides between success and failure
(`Machine.PrintStep`). So a sink without a capacity holds all texts of the run, and has been
flushed once for each (`Machine.sink_run`).
-/

namespace Quaternary

/-! ## The text of an operation -/

namespace Op

def printed? : Op → Stack → Option String
  | .print, v :: _ => some v.decimal
  | .printChar, v :: _ => (Value.char? v).map String.singleton
  | _, _ => none

theorem execute_of_printed? {op : Op} {stack : Stack} {text : String}
    (h : op.printed? stack = some text) :
    (op = .print ∨ op = .printChar) ∧ ∃ v rest, stack = v :: rest ∧
      ∀ counter sink, op.execute counter stack sink = execute.output counter sink text rest := by
  unfold printed? at h
  split at h
  · next v rest =>
    cases h
    exact ⟨Or.inl rfl, v, rest, rfl, fun _ _ => rfl⟩
  · next v rest =>
    obtain ⟨c, hc, rfl⟩ := Option.map_eq_some_iff.mp h
    refine ⟨Or.inr rfl, v, rest, rfl, ?_⟩
    intro counter sink
    rw [execute_printChar, hc]
  · cases h

theorem execute_of_not_printed {op : Op} {stack : Stack} (h : op.printed? stack = none)
    (counter : Int) :
    ∃ result stack', ∀ sink, op.execute counter stack sink = ⟨result, stack', sink⟩ := by
  cases op.behaviour counter stack with
  | silent counter' stack' hexec => exact ⟨_, _, hexec⟩
  | fault f _ hexec => exact ⟨_, _, hexec⟩
  | output hop v rest text hstack _ =>
    subst hstack
    rcases hop with rfl | rfl
    · cases h
    · have hchar : Value.char? v = none := Option.map_eq_none_iff.mp h
      refine ⟨.error (.notACharacter v), v :: rest, ?_⟩
      intro sink
      rw [execute_printChar, hchar]

end Op

/-! ## The sink after some texts -/

namespace Sink

/-- The sink when it has taken some texts and has been flushed after each. -/
def holding (s : Sink) (texts : List String) : Sink :=
  { s with
    written := s.written ++ (String.join texts).toUTF8
    flushes := s.flushes + texts.length }

theorem holding_nil (s : Sink) : s.holding [] = s := by
  simp [holding]

theorem holding_append (s : Sink) (xs ys : List String) :
    s.holding (xs ++ ys) = (s.holding xs).holding ys := by
  simp [holding, Nat.add_assoc, ByteArray.append_assoc]

/-- The sink takes every byte, and no flush fails. -/
structure Accepting (s : Sink) : Prop where
  capacity : s.capacity = none
  failingFlush : s.failingFlush = none

theorem emit_of_accepting {s : Sink} (h : s.Accepting) (text : String) :
    s.emit text = (.ok (), s.holding [text]) := by
  simp [emit, write, flush, holding, h.capacity, h.failingFlush]

theorem emit_of_unbounded {s : Sink} (h : s.capacity = none) (text : String) :
    (s.emit text).2 = s.holding [text] := by
  simp [emit, write, flush, holding, h]

end Sink

namespace Machine

variable {p : Program} {m : Machine} {text : String}

/-! ## The text of a step -/

/-- The text that the next step prints. -/
def printed? (p : Program) (m : Machine) : Option String :=
  (m.instruction? p).bind fun i => i.op.printed? m.stack

/-- The next step has instruction `i`, which takes `v` from the top of the stack and prints
`text`. -/
structure PrintStep (p : Program) (m : Machine) (text : String) (i : Instruction) (v : Value)
    (rest : Stack) : Prop where
  instruction : m.instruction? p = some i
  op : i.op = .print ∨ i.op = .printChar
  stack : m.stack = v :: rest
  taken : ∀ {sink sink' : Sink}, sink.emit text = (.ok (), sink') →
    step p { m with sink } = (.running,
      { stack := rest, counter := m.counter + 1, steps := m.steps + 1, sink := sink' })
  refused : ∀ {sink sink' : Sink} {cause : String}, sink.emit text = (.error cause, sink') →
    step p { m with sink } =
      (.failed ⟨i.line, .outputFailed cause⟩, { m with stack := rest, sink := sink' })

theorem exists_printStep (h : m.printed? p = some text) :
    ∃ i v rest, PrintStep p m text i v rest := by
  obtain ⟨i, hi, hprinted⟩ := Option.bind_eq_some_iff.mp h
  obtain ⟨hop, v, rest, hstack, hexec⟩ := Op.execute_of_printed? hprinted
  refine ⟨i, v, rest, hi, hop, hstack, ?_, ?_⟩
  · intro sink sink' hemit
    apply step_ok (m := { m with sink }) hi
    rw [hexec, Op.execute.output, hemit]
  · intro sink sink' cause hemit
    apply step_error (m := { m with sink }) hi
    rw [hexec, Op.execute.output, hemit]

theorem step_of_not_printed (h : m.printed? p = none) :
    ∃ (s : Status) (m' : Machine), ∀ sink, step p { m with sink } = (s, { m' with sink }) := by
  cases hi : m.instruction? p with
  | none => exact ⟨.halted, m, fun sink => step_halted (m := { m with sink }) hi⟩
  | some i =>
    have hprinted : i.op.printed? m.stack = none := by simpa [printed?, hi] using h
    obtain ⟨result, stack, hexec⟩ := Op.execute_of_not_printed hprinted m.counter
    cases result with
    | ok counter =>
      refine ⟨.running, { m with stack, counter, steps := m.steps + 1 }, ?_⟩
      intro sink
      exact step_ok (m := { m with sink }) hi (hexec sink)
    | error fault =>
      refine ⟨.failed ⟨i.line, fault⟩, { m with stack }, ?_⟩
      intro sink
      exact step_error (m := { m with sink }) hi (hexec sink)

/-! ## The texts of a run -/

/-- The text that the step after the first `n` prints, if the run gets there. -/
def printedAt? (p : Program) (start : Machine) (n : Nat) : Option String :=
  match start.run p n with
  | (.running, m) => m.printed? p
  | _ => none

/-- The texts that the first `n` steps print, in their order. -/
def texts (p : Program) (start : Machine) (n : Nat) : List String :=
  (List.range n).filterMap (start.printedAt? p)

theorem filterMap_range_succ {α : Type} (f : Nat → Option α) (n : Nat) :
    (List.range (n + 1)).filterMap f = (List.range n).filterMap f ++ (f n).toList := by
  rw [List.range_succ, List.filterMap_append]
  cases h : f n <;> simp [h]

theorem texts_succ (p : Program) (start : Machine) (n : Nat) :
    start.texts p (n + 1) = start.texts p n ++ (start.printedAt? p n).toList :=
  filterMap_range_succ (start.printedAt? p) n

theorem printedAt?_of_running {start : Machine} {n : Nat} (h : start.run p n = (.running, m)) :
    start.printedAt? p n = m.printed? p := by
  rw [printedAt?, h]

theorem printedAt?_of_stopped {start : Machine} {n : Nat} {s : Status}
    (h : start.run p n = (s, m)) (hs : s ≠ .running) : start.printedAt? p n = none := by
  rw [printedAt?, h]
  cases s with
  | running => exact absurd rfl hs
  | halted => rfl
  | failed e => rfl

theorem running_of_printedAt? {start : Machine} {n : Nat} (h : start.printedAt? p n = some text) :
    ∃ m, start.run p n = (.running, m) ∧ m.printed? p = some text := by
  unfold printedAt? at h
  split at h
  · next m hrun => exact ⟨m, hrun, h⟩
  · cases h

/-- A sink without a capacity takes every text, also one after which the flush fails. -/
theorem sink_step (h : m.sink.capacity = none) :
    (m.step p).2.sink = m.sink.holding (m.printed? p).toList := by
  cases hprinted : m.printed? p with
  | none =>
    obtain ⟨s, m', hstep⟩ := step_of_not_printed hprinted
    have hself : m.step p = (s, { m' with sink := m.sink }) := hstep m.sink
    rw [hself]
    exact (Sink.holding_nil m.sink).symm
  | some text =>
    obtain ⟨i, v, rest, hstep⟩ := exists_printStep hprinted
    have hsink := Sink.emit_of_unbounded h text
    rcases hemit : m.sink.emit text with ⟨result, sink'⟩
    rw [hemit] at hsink
    cases result with
    | ok _ =>
      have hself : m.step p = _ := hstep.taken hemit
      rw [hself]
      exact hsink
    | error cause =>
      have hself : m.step p = _ := hstep.refused hemit
      rw [hself]
      exact hsink

theorem sink_run (p : Program) (start : Machine) (h : start.sink.capacity = none) (n : Nat) :
    (start.run p n).2.sink = start.sink.holding (start.texts p n) := by
  induction n with
  | zero => exact (Sink.holding_nil start.sink).symm
  | succ n ih =>
    rcases hrun : start.run p n with ⟨s, m⟩
    rw [hrun] at ih
    by_cases hs : s = .running
    · subst hs
      have hcapacity : m.sink.capacity = none := by
        rw [ih]
        exact h
      rw [run_succ_of_running hrun, texts_succ, printedAt?_of_running hrun, sink_step hcapacity, ih,
        Sink.holding_append]
    · rw [run_of_stopped hrun hs (Nat.le_succ n), texts_succ, printedAt?_of_stopped hrun hs,
        Option.toList_none, List.append_nil]
      exact ih

theorem accepting_run {start : Machine} {n : Nat} {s : Status} (h : start.sink.Accepting)
    (hrun : start.run p n = (s, m)) : m.sink.Accepting := by
  have hsink := sink_run p start h.capacity n
  rw [hrun] at hsink
  rw [hsink]
  exact ⟨h.capacity, h.failingFlush⟩

/-- A step that fails although the sink takes everything has printed nothing. -/
theorem sink_eq_of_step_failed {m' : Machine} {e : RuntimeError} (h : m.sink.Accepting)
    (hstep : m.step p = (.failed e, m')) : m'.sink = m.sink := by
  cases hprinted : m.printed? p with
  | none =>
    have hsink := sink_step h.capacity (p := p)
    rw [hstep, hprinted, Option.toList_none, Sink.holding_nil] at hsink
    exact hsink
  | some text =>
    obtain ⟨i, v, rest, hprint⟩ := exists_printStep hprinted
    have htaken : m.step p = _ := hprint.taken (Sink.emit_of_accepting h text)
    rw [hstep] at htaken
    cases htaken

end Machine

end Quaternary
