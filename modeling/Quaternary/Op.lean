import Quaternary.Opcode

/-!
# Operations and instructions

An operation is an opcode together with the value of its argument; an instruction is an
operation and the line of the source text on which it stands.
-/

namespace Quaternary

inductive Op where
  | binary (f : Arith)
  | immediate (f : Arith) (value : Value)
  | print
  | jump (c : Cond) (target : Value)
  | dup
  | reverse (count : Value)
  | printChar
  | load (value : Value)
  deriving DecidableEq, Repr

namespace Op

def opcode : Op → Opcode
  | .binary f => .binary f
  | .immediate f _ => .immediate f
  | .print => .print
  | .jump c _ => .jump c
  | .dup => .dup
  | .reverse _ => .reverse
  | .printChar => .printChar
  | .load _ => .load

/-- The value of the argument, where the opcode has one. -/
def argument? : Op → Option Value
  | .immediate _ v | .jump _ v | .reverse v | .load v => some v
  | .binary _ | .print | .dup | .printChar => none

def isJump : Op → Bool
  | .jump .. => true
  | _ => false

/-- The mnemonic, and the argument in decimal where there is one. -/
def display (op : Op) : String :=
  match op.argument? with
  | none => op.opcode.mnemonic
  | some v => op.opcode.mnemonic ++ " " ++ Value.decimal v

end Op

/-- An operation and the number of the source line that it stands on. -/
structure Instruction where
  line : Nat
  op : Op
  deriving DecidableEq, Repr

end Quaternary
