import Quaternary.Fault
import Quaternary.Op
import Quaternary.Sink
import Quaternary.Stack

/-!
# Execution of one operation

`Op.execute` is the meaning of an operation: what becomes of the stack and of the sink, and
which counter comes next. A fault leaves the stack as it was, except that a value that could
not be printed is gone.
-/

namespace Quaternary

/-- How an operation ends: the next counter or a fault, and the stack and the sink it leaves. -/
structure Outcome where
  result : Except Fault Int
  stack : Stack
  sink : Sink

namespace Op

/-- How many values an operation requires on the stack. A jump requires none, as it takes an
empty stack for a zero. -/
def required : Op → Nat
  | .binary _ => 2
  | .immediate .. | .print | .printChar | .dup => 1
  | .reverse count => count.toInt.toNat
  | .jump .. | .load _ => 0

/-- The counter after a jump. Targets count from one, counters from zero and no further down
than a value goes. -/
def landing (target : Value) : Int :=
  if target.toInt = Value.least then Value.least else target.toInt - 1

/-- Executes an operation that stands at `counter`. -/
def execute (op : Op) (counter : Int) (stack : Stack) (sink : Sink) : Outcome :=
  match op, stack with
  | .binary f, a :: b :: rest => compute f a b rest
  | .immediate f c, a :: rest => compute f a c rest
  | .print, v :: rest => output (Value.decimal v) rest
  | .printChar, v :: rest =>
    match Value.char? v with
    | some c => output (String.singleton c) rest
    | none => ⟨.error (.notACharacter v), stack, sink⟩
  | .jump c target, _ =>
    ⟨.ok (if c.holds (stack.headD 0) then landing target else counter + 1), stack.tail, sink⟩
  | .dup, v :: rest => ⟨.ok (counter + 1), v :: v :: rest, sink⟩
  | .reverse count, _ =>
    if count.toInt.toNat ≤ stack.length then
      ⟨.ok (counter + 1), stack.reverseTop count.toInt.toNat, sink⟩
    else
      underflow
  | .load v, _ => ⟨.ok (counter + 1), v :: stack, sink⟩
  | _, _ => underflow
where
  /-- The operands give way to the result, if there is one. -/
  compute (f : Arith) (a b : Value) (rest : Stack) : Outcome :=
    match f.apply a b with
    | .ok v => ⟨.ok (counter + 1), v :: rest, sink⟩
    | .error e => ⟨.error (.ofArith op.opcode e), stack, sink⟩
  /-- The text goes to the sink, and the printed value is gone in any case. -/
  output (text : String) (rest : Stack) : Outcome :=
    match sink.emit text with
    | (.ok _, sink) => ⟨.ok (counter + 1), rest, sink⟩
    | (.error cause, sink) => ⟨.error (.outputFailed cause), rest, sink⟩
  underflow : Outcome := ⟨.error (.underflow op.opcode op.required), stack, sink⟩

end Op

end Quaternary
