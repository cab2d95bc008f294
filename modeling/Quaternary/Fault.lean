import Quaternary.Opcode

/-!
# Faults

A fault is the reason why an instruction cannot be executed.
-/

namespace Quaternary

inductive Fault where
  /-- The stack holds fewer values than the instruction requires. -/
  | underflow (opcode : Opcode) (required : Nat)
  | divisionByZero
  /-- The value is the code of no character. -/
  | notACharacter (code : Value)
  /-- The result of an operation is not a value. -/
  | overflow (opcode : Opcode)
  | outputFailed (cause : String)
  deriving DecidableEq, Repr

namespace Fault

def message : Fault → String
  | .underflow opcode required =>
    s!"{opcode.mnemonic} requires at least {required} value(s) on the stack"
  | .divisionByZero => "divide by zero"
  | .notACharacter code => s!"{code.decimal} is not a valid character code"
  | .overflow opcode => s!"{opcode.mnemonic} overflowed"
  | .outputFailed cause => s!"output failed: {cause}"

/-- The fault of an instruction whose arithmetic has no result. -/
def ofArith (opcode : Opcode) : Arith.Error → Fault
  | .divisionByZero => .divisionByZero
  | .overflow => .overflow opcode

end Fault

/-- A fault and the source line of the instruction that had it. -/
structure RuntimeError where
  line : Nat
  fault : Fault
  deriving DecidableEq, Repr

def RuntimeError.message (e : RuntimeError) : String := s!"line {e.line}: {e.fault.message}"

end Quaternary
