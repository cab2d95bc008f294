import Quaternary.Value

/-!
# Arithmetic

The four operations, as exact functions on integers (`Arith.exact`) and as functions on values
that refuse a zero divisor and a result that 64 bits do not hold (`Arith.apply`). Quotients are
rounded down.
-/

namespace Quaternary

inductive Arith where
  | add
  | sub
  | mul
  | div
  deriving DecidableEq, Repr

namespace Arith

/-- Why an operation has no result. -/
inductive Error where
  | divisionByZero
  | overflow
  deriving DecidableEq, Repr

/-- The mathematical result. A quotient is the floor of the ratio, and zero for a zero divisor. -/
def exact : Arith → Int → Int → Int
  | .add, a, b => a + b
  | .sub, a, b => a - b
  | .mul, a, b => a * b
  | .div, a, b => a.fdiv b

/-- The result as a value. A zero divisor is reported before a result out of range. -/
def apply (f : Arith) (a b : Value) : Except Error Value :=
  if f = .div ∧ b = 0 then
    .error .divisionByZero
  else
    match Value.ofInt? (f.exact a.toInt b.toInt) with
    | some v => .ok v
    | none => .error .overflow

end Arith

end Quaternary
