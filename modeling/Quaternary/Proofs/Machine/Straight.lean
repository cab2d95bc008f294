import Quaternary.Proofs.Machine.Labels
import Quaternary.Proofs.Machine.Session

/-!
# Programs without jumps

A program without jumps executes its operations in their order, each once, until one fails or there
are no more. `Machine.inOrder` does so without a program: the operations are given as a list, and no
counter is looked at to find them. `Machine.ends_of_inOrder` says that this is how the program ends,
from any machine whose counter points to the first of the operations.
-/

namespace Quaternary.Machine

variable {p : Program} {m m' m₁ : Machine} {s : Status} {op : Op} {ops : List Op}

/-! ## Executing to the end -/

/-- Executing from `m` ends with status `s`, and leaves `m'`. -/
def Ends (p : Program) (m : Machine) (s : Status) (m' : Machine) : Prop :=
  ∃ k, m.Answers p ⟨.execute, s, k, m'⟩

theorem ends_of_stop (h : m.step p = (s, m')) (hs : s ≠ .running) : m.Ends p s m' :=
  ⟨0, hs, m, rfl, h⟩

theorem Ends.of_step (h : m.step p = (.running, m₁)) (hends : m₁.Ends p s m') : m.Ends p s m' := by
  obtain ⟨k, hs, m₂, hrun, hstep⟩ := hends
  exact ⟨k + 1, hs, m₂, (run_succ_of_step h k).trans hrun, hstep⟩

/-! ## One operation after the other -/

/-- Executes some operations in their order, up to the first that fails. -/
def inOrder : List Op → Machine → Option Fault × Machine
  | [], m => (none, m)
  | op :: rest, m =>
    match op.execute m.counter m.stack m.sink with
    | ⟨.ok counter, stack, sink⟩ => inOrder rest { stack, counter, sink, steps := m.steps + 1 }
    | ⟨.error fault, stack, sink⟩ => (some fault, { m with stack, sink })

theorem inOrder_cons_ok {counter : Int} {stack : Stack} {sink : Sink}
    (h : op.execute m.counter m.stack m.sink = ⟨.ok counter, stack, sink⟩) (rest : List Op) :
    inOrder (op :: rest) m = inOrder rest { stack, counter, sink, steps := m.steps + 1 } := by
  simp only [inOrder, h]

theorem inOrder_cons_error {fault : Fault} {stack : Stack} {sink : Sink}
    (h : op.execute m.counter m.stack m.sink = ⟨.error fault, stack, sink⟩) (rest : List Op) :
    inOrder (op :: rest) m = (some fault, { m with stack, sink }) := by
  simp only [inOrder, h]

/-- The operations from the counter on are those in the list. -/
structure PointsTo (p : Program) (m : Machine) (ops : List Op) : Prop where
  nonneg : 0 ≤ m.counter
  drop : p.ops.drop m.counter.toNat = ops

theorem pointsTo_start (p : Program) (stack : Stack) (sink : Sink) :
    PointsTo p { stack, sink } p.ops :=
  ⟨Int.le_refl 0, rfl⟩

theorem PointsTo.instruction?_nil (h : PointsTo p m []) : m.instruction? p = none := by
  have hindex : p.ops[m.counter.toNat]? = none :=
    List.getElem?_eq_none (List.drop_eq_nil_iff.mp h.drop)
  have hop := map_op_instruction? p m
  rw [if_pos h.nonneg, hindex] at hop
  exact Option.map_eq_none_iff.mp hop

theorem PointsTo.instruction?_cons (h : PointsTo p m (op :: ops)) :
    ∃ i, m.instruction? p = some i ∧ i.op = op := by
  have hindex : p.ops[m.counter.toNat]? = some op := by
    rw [← List.head?_drop, h.drop]
    rfl
  have hop := map_op_instruction? p m
  rw [if_pos h.nonneg, hindex] at hop
  exact Option.map_eq_some_iff.mp hop

theorem PointsTo.next (h : PointsTo p m (op :: ops)) (hnext : m'.counter = m.counter + 1) :
    PointsTo p m' ops := by
  have hnonneg := h.nonneg
  constructor
  · omega
  · have hindex : m'.counter.toNat = m.counter.toNat + 1 := by omega
    rw [hindex, ← List.drop_drop, h.drop]
    rfl

/-- How executing ends if the operations in order come to the given fault, or to none. -/
def EndsAs (p : Program) (m : Machine) (m' : Machine) : Option Fault → Prop
  | none => m.Ends p .halted m'
  | some fault => ∃ line, m.Ends p (.failed ⟨line, fault⟩) m'

theorem EndsAs.of_step {fault? : Option Fault} (h : m.step p = (.running, m₁))
    (hends : m₁.EndsAs p m' fault?) : m.EndsAs p m' fault? := by
  cases fault? with
  | none => exact Ends.of_step h hends
  | some fault =>
    obtain ⟨line, hends⟩ := hends
    exact ⟨line, Ends.of_step h hends⟩

/-- Executing operations that are no jumps is executing them in their order. -/
theorem ends_of_inOrder (h : PointsTo p m ops) (hjumps : ∀ op ∈ ops, op.isJump = false) :
    m.EndsAs p (inOrder ops m).2 (inOrder ops m).1 := by
  induction ops generalizing m with
  | nil => exact ends_of_stop (step_halted h.instruction?_nil) (by simp)
  | cons op rest ih =>
    obtain ⟨i, hi, rfl⟩ := h.instruction?_cons
    rcases hexec : i.op.execute m.counter m.stack m.sink with ⟨result, stack, sink⟩
    cases result with
    | error fault =>
      rw [inOrder_cons_error hexec]
      exact ⟨i.line, ends_of_stop (step_error hi hexec) (by simp)⟩
    | ok counter =>
      -- only a jump leads elsewhere than to the rest of the operations
      have hnext : counter = m.counter + 1 := by
        have hresult : (i.op.execute m.counter m.stack m.sink).result = .ok counter := by rw [hexec]
        rcases Op.counter_of_execute hresult with hnext | ⟨c, target, hop, -⟩
        · exact hnext
        · have hjump := hjumps i.op List.mem_cons_self
          rw [hop] at hjump
          cases hjump
      rw [inOrder_cons_ok hexec]
      refine EndsAs.of_step (step_ok hi hexec) (ih (h.next hnext) ?_)
      intro op hop
      exact hjumps op (List.mem_cons_of_mem i.op hop)

end Quaternary.Machine
