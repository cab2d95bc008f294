import Quaternary.Proofs.Machine.Printing

/-!
# Runs against a sink that fails

A sink fails at a limit: it holds so many bytes, or it fails the flush with a certain number. The
run against it is compared with the run against a sink that takes everything. Up to the first text
that reaches the limit the two runs are in lockstep (`Truncated.lockstep`); there the one fails
where the other goes on, and keeps of the output what the limit allows (`Truncated.cutOff`).

The texts that count are those of the accepting run. By induction on the number of steps, the
failing sink holds exactly these texts as long as none has reached the limit (`run_limited`).
-/

namespace Quaternary

/-- What makes a sink fail. -/
inductive Limit where
  /-- It holds so many bytes. -/
  | bytes (capacity : Nat)
  /-- The flush with this number fails, counted from one. -/
  | flush (number : Nat)

namespace Limit

/-- An empty sink with this limit. -/
def sink (cause : String) : Limit → Sink
  | .bytes capacity => { capacity := some capacity, fullCause := cause }
  | .flush number => { failingFlush := some number, flushCause := cause }

/-- The last of some texts is one that the sink fails on: the texts do not fit, or it is the text
with the number of the failing flush. -/
def ReachedBy : Limit → List String → Prop
  | .bytes capacity, texts => capacity < (String.join texts).utf8ByteSize
  | .flush number, texts => texts.length = number

instance (limit : Limit) (texts : List String) : Decidable (limit.ReachedBy texts) :=
  match limit with
  | .bytes capacity => inferInstanceAs (Decidable (capacity < _))
  | .flush number => inferInstanceAs (Decidable (_ = number))

/-- What the sink keeps of the bytes up to the text that it fails on. -/
def kept : Limit → ByteArray → ByteArray
  | .bytes capacity, written => written.extract 0 capacity
  | .flush _, written => written

/-- The number of flushes that a text counts for if the sink fails on it. -/
def flushed : Limit → Nat
  | .bytes _ => 0
  | .flush _ => 1

variable {limit : Limit} {cause text : String} {texts : List String}

theorem utf8ByteSize_join_concat (texts : List String) (text : String) :
    (String.join (texts ++ [text])).utf8ByteSize =
      (String.join texts).utf8ByteSize + text.utf8ByteSize := by
  simp

theorem emit_of_not_reached (h : ¬ limit.ReachedBy (texts ++ [text])) :
    ((limit.sink cause).holding texts).emit text =
      (.ok (), (limit.sink cause).holding (texts ++ [text])) := by
  rw [Sink.holding_append]
  cases limit with
  | bytes capacity =>
    have hfits : text.utf8ByteSize ≤ capacity - (String.join texts).utf8ByteSize := by
      rw [ReachedBy, utf8ByteSize_join_concat] at h
      omega
    simp [Sink.emit, Sink.write, Sink.flush, Sink.holding, sink, hfits]
  | flush number =>
    have hnumber : number ≠ texts.length + 1 := by
      intro heq
      apply h
      simp [ReachedBy, heq]
    simp [Sink.emit, Sink.write, Sink.flush, Sink.holding, sink, hnumber]

theorem kept_append {a b : ByteArray} {capacity : Nat} (h : a.size ≤ capacity) :
    (Limit.bytes capacity).kept (a ++ b) = a ++ b.extract 0 (capacity - a.size) := by
  have ha : a.extract 0 capacity = a := by
    rw [← Nat.max_eq_left h]
    exact ByteArray.extract_zero_max_size
  rw [kept, ByteArray.extract_append, ha, Nat.zero_sub]

theorem emit_of_reached (cause : String) (h : limit.ReachedBy (texts ++ [text]))
    (hfits : ∀ capacity, limit = .bytes capacity → (String.join texts).utf8ByteSize ≤ capacity) :
    ((limit.sink cause).holding texts).emit text =
      (.error cause, { limit.sink cause with
        written := limit.kept (String.join (texts ++ [text])).toUTF8
        flushes := texts.length + limit.flushed }) := by
  cases limit with
  | bytes capacity =>
    have hroom := hfits capacity rfl
    have hrefused : ¬ text.utf8ByteSize ≤ capacity - (String.join texts).utf8ByteSize := by
      rw [ReachedBy, utf8ByteSize_join_concat] at h
      omega
    have hkept : (Limit.bytes capacity).kept ((String.join texts).toByteArray ++ text.toByteArray) =
        (String.join texts).toByteArray ++
          text.toByteArray.extract 0 (capacity - (String.join texts).utf8ByteSize) :=
      kept_append hroom
    simp [Sink.emit, Sink.write, Sink.holding, sink, flushed, hrefused, hkept]
  | flush number =>
    have hnumber : number = texts.length + 1 := by simpa [ReachedBy] using h.symm
    simp [Sink.emit, Sink.write, Sink.flush, Sink.holding, sink, kept, flushed, hnumber]

end Limit

theorem Sink.emit_empty_holding (texts : List String) (text : String) :
    (holding {} texts).emit text = (.ok (), holding {} (texts ++ [text])) := by
  rw [holding_append]
  simp [emit, write, flush, holding]

namespace Machine

variable {p : Program} {limit : Limit} {cause : String} {start : Machine} {n : Nat}

/-- The same machine but for the limit of its sink. -/
structure InStep (m a : Machine) : Prop where
  stack : m.stack = a.stack
  counter : m.counter = a.counter
  steps : m.steps = a.steps
  written : m.sink.written = a.sink.written
  flushes : m.sink.flushes = a.sink.flushes

/-- The step after the first `n` of the accepting run prints a text, and that text reaches the
limit. -/
def ReachesLimitAt (p : Program) (limit : Limit) (accepting : Machine) (n : Nat) : Prop :=
  (accepting.printedAt? p n).isSome ∧ limit.ReachedBy (accepting.texts p (n + 1))

/-- The next step takes `v` from the stack and prints it. It leads the accepting machine `a` to
`a'`, and fails on the sink of `m`, which it leaves as `m'`. -/
structure CutOff (p : Program) (limit : Limit) (cause : String) (m a m' a' : Machine)
    (i : Instruction) (v : Value) : Prop where
  instruction : m.instruction? p = some i
  op : i.op = .print ∨ i.op = .printChar
  accepted : a.step p = (.running, a')
  refused : m.step p = (.failed ⟨i.line, .outputFailed cause⟩, m')
  counter : m'.counter = m.counter
  steps : m'.steps = m.steps
  stack : m.stack = v :: m'.stack
  written : m'.sink.written = limit.kept a'.sink.written
  flushes : m'.sink.flushes = m.sink.flushes + limit.flushed

/-- The failing run is the accepting one up to the first text by which the limit is reached. -/
structure Truncated (p : Program) (limit : Limit) (cause : String) (failing accepting : Machine) :
    Prop where
  lockstep : ∀ n, (∀ k < n, ¬ ReachesLimitAt p limit accepting k) →
    (failing.run p n).1 = (accepting.run p n).1 ∧
      (failing.run p n).2.InStep (accepting.run p n).2
  cutOff : ∀ n, ReachesLimitAt p limit accepting n →
    (∀ k < n, ¬ ReachesLimitAt p limit accepting k) →
      ∃ m a m' a' i v, failing.run p n = (.running, m) ∧ accepting.run p n = (.running, a) ∧
        m.InStep a ∧ CutOff p limit cause m a m' a' i v

/-- While the limit has not been reached, the texts of the accepting run fit. -/
theorem size_texts_le {accepting : Machine} {capacity : Nat}
    (h : ∀ k < n, ¬ ReachesLimitAt p (.bytes capacity) accepting k) :
    (String.join (accepting.texts p n)).utf8ByteSize ≤ capacity := by
  induction n with
  | zero => exact Nat.zero_le capacity
  | succ n ih =>
    cases hprinted : accepting.printedAt? p n with
    | none =>
      rw [texts_succ, hprinted, Option.toList_none, List.append_nil]
      exact ih fun k hk => h k (Nat.lt_succ_of_lt hk)
    | some text =>
      have hfits : ¬ (Limit.bytes capacity).ReachedBy (accepting.texts p (n + 1)) := by
        intro hreached
        exact h n (Nat.lt_succ_self n) ⟨by rw [hprinted]; rfl, hreached⟩
      exact Nat.le_of_not_lt hfits

/-- While the limit has not been reached, the failing run is the accepting one, and its sink holds
the same texts. -/
theorem run_limited (cause : String)
    (h : ∀ k < n, ¬ ReachesLimitAt p limit { start with sink := {} } k) :
    run p n { start with sink := limit.sink cause } =
      ((run p n { start with sink := {} }).1,
        { (run p n { start with sink := {} }).2 with
          sink := (limit.sink cause).holding (texts p { start with sink := {} } n) }) := by
  induction n with
  | zero =>
    have hnil := Sink.holding_nil (limit.sink cause)
    exact congrArg (fun sink => (Status.running, { start with sink })) hnil.symm
  | succ n ih =>
    have hrun := ih fun k hk => h k (Nat.lt_succ_of_lt hk)
    have hsink := sink_run p { start with sink := {} } rfl n
    rcases haccepting : run p n { start with sink := {} } with ⟨s, a⟩
    rw [haccepting] at hrun hsink
    by_cases hs : s = .running
    · subst hs
      rw [run_succ_of_running hrun, run_succ_of_running haccepting, texts_succ,
        printedAt?_of_running haccepting]
      -- a step without a text is the same with any sink; a text is taken by both
      cases hprinted : a.printed? p with
      | none =>
        obtain ⟨s', a', hstep⟩ := step_of_not_printed hprinted
        have haccepted : a.step p = (s', { a' with sink := a.sink }) := hstep a.sink
        rw [haccepted, hstep, Option.toList_none, List.append_nil]
      | some text =>
        obtain ⟨i, v, rest, hstep⟩ := exists_printStep hprinted
        have hlimit : ¬ limit.ReachedBy (texts p { start with sink := {} } n ++ [text]) := by
          intro hreached
          apply h n (Nat.lt_succ_self n)
          rw [ReachesLimitAt, texts_succ, printedAt?_of_running haccepting, hprinted]
          exact ⟨rfl, hreached⟩
        have hemit : a.sink.emit text = _ := hsink ▸ Sink.emit_empty_holding _ text
        have haccepted : a.step p = _ := hstep.taken hemit
        rw [haccepted, hstep.taken (Limit.emit_of_not_reached hlimit)]
        rfl
    · rw [run_of_stopped hrun hs (Nat.le_succ n), run_of_stopped haccepting hs (Nat.le_succ n),
        texts_succ, printedAt?_of_stopped haccepting hs, Option.toList_none, List.append_nil]

theorem inStep_of_holding {a : Machine} {printed : List String}
    (h : a.sink = Sink.holding {} printed) (limit : Limit) (cause : String) :
    InStep { a with sink := (limit.sink cause).holding printed } a := by
  have hwritten := congrArg Sink.written h.symm
  have hflushes := congrArg Sink.flushes h.symm
  cases limit with
  | bytes capacity | flush number => exact ⟨rfl, rfl, rfl, hwritten, hflushes⟩

theorem cutOff_of_printed {a : Machine} {printed : List String} {text : String} (cause : String)
    (hsink : a.sink = Sink.holding {} printed) (hprinted : a.printed? p = some text)
    (hreached : limit.ReachedBy (printed ++ [text]))
    (hfits : ∀ capacity, limit = .bytes capacity →
      (String.join printed).utf8ByteSize ≤ capacity) :
    ∃ m' a' i v,
      CutOff p limit cause { a with sink := (limit.sink cause).holding printed } a m' a' i v := by
  obtain ⟨i, v, rest, hstep⟩ := exists_printStep hprinted
  have hemit : a.sink.emit text = _ := hsink ▸ Sink.emit_empty_holding printed text
  have hrefused := hstep.refused (Limit.emit_of_reached cause hreached hfits)
  refine ⟨_, _, i, v, hstep.instruction, hstep.op, hstep.taken hemit, hrefused, rfl, rfl,
    hstep.stack, ?_, ?_⟩
  · simp [Sink.holding]
  · cases limit <;> simp [Sink.holding, Limit.sink]

/-- The run against a sink that fails at a limit is the run against a sink that takes everything,
cut off at the first text by which the limit is reached. -/
theorem run_truncated (p : Program) (limit : Limit) (cause : String) (start : Machine) :
    Truncated p limit cause { start with sink := limit.sink cause } { start with sink := {} } := by
  have hsink := sink_run p { start with sink := {} } rfl
  constructor
  · intro n h
    rw [run_limited cause h]
    exact ⟨rfl, inStep_of_holding (hsink n) limit cause⟩
  · rintro n ⟨hsome, hreached⟩ hbefore
    obtain ⟨text, htext⟩ := Option.isSome_iff_exists.mp hsome
    obtain ⟨a, ha, hprinted⟩ := running_of_printedAt? htext
    have hrun := run_limited cause hbefore
    have hholding := hsink n
    rw [ha] at hrun hholding
    rw [texts_succ, htext] at hreached
    have hfits : ∀ capacity, limit = .bytes capacity →
        (String.join (texts p { start with sink := {} } n)).utf8ByteSize ≤ capacity := by
      rintro capacity rfl
      exact size_texts_le hbefore
    obtain ⟨m', a', i, v, hcut⟩ := cutOff_of_printed cause hholding hprinted hreached hfits
    exact ⟨_, a, m', a', i, v, hrun, ha, inStep_of_holding hholding limit cause, hcut⟩

/-- Prints the character with code 233, which has two bytes, twice. -/
def twice : Program := ⟨#[⟨1, .load 233⟩, ⟨2, .dup⟩, ⟨3, .printChar⟩, ⟨4, .printChar⟩]⟩

theorem reachesLimitAt_twice (limit : Limit) (hfirst : ¬ limit.ReachedBy ["é"])
    (hsecond : limit.ReachedBy ["é", "é"]) :
    ReachesLimitAt twice limit {} 3 ∧ ∀ k < 3, ¬ ReachesLimitAt twice limit {} k := by
  refine ⟨⟨rfl, hsecond⟩, ?_⟩
  intro k hk
  match k, hk with
  | 0, _ | 1, _ => exact fun h => Bool.noConfusion h.1
  | 2, _ => exact fun h => hfirst h.2

/-- A sink for three bytes gets half of the second character, and a sink whose second flush fails
gets both. -/
theorem run_truncated_twice :
    (∃ m m', run twice 3 { sink := Limit.sink "full" (.bytes 3) } = (.running, m) ∧
      m.step twice = (.failed ⟨4, .outputFailed "full"⟩, m') ∧
      m'.sink.written = "éé".toUTF8.extract 0 3 ∧ m'.sink.flushes = 1) ∧
    (∃ m m', run twice 3 { sink := Limit.sink "lost" (.flush 2) } = (.running, m) ∧
      m.step twice = (.failed ⟨4, .outputFailed "lost"⟩, m') ∧
      m'.sink.written = "éé".toUTF8 ∧ m'.sink.flushes = 2) := by
  constructor
  · have h := reachesLimitAt_twice (.bytes 3) (by decide) (by decide)
    obtain ⟨m, a, m', a', i, v, hrun, ha, -, hcut⟩ :=
      (run_truncated twice (.bytes 3) "full" {}).cutOff 3 h.1 h.2
    cases hrun
    cases ha
    cases hcut.instruction
    cases hcut.accepted
    exact ⟨_, m', rfl, hcut.refused, hcut.written, hcut.flushes⟩
  · have h := reachesLimitAt_twice (.flush 2) (by decide) (by decide)
    obtain ⟨m, a, m', a', i, v, hrun, ha, -, hcut⟩ :=
      (run_truncated twice (.flush 2) "lost" {}).cutOff 3 h.1 h.2
    cases hrun
    cases ha
    cases hcut.instruction
    cases hcut.accepted
    exact ⟨_, m', rfl, hcut.refused, hcut.written, hcut.flushes⟩

end Machine

end Quaternary
