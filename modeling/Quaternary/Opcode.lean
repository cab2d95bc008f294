import Quaternary.Arith
import Quaternary.Digit

/-!
# Opcodes

An instruction is named by a tag of two base-four digits. Read as a number the tag is the code
of the opcode, so `Opcode.all`, which lists the sixteen opcodes by code, is also the table from
tags to opcodes.
-/

namespace Quaternary

/-- What a jump asks of the value that it pops. -/
inductive Cond where
  | nonZero
  | zero
  deriving DecidableEq, Repr

/-- Whether a jump with this condition is taken on `v`. -/
def Cond.holds : Cond → Value → Bool
  | .nonZero, v => v != 0
  | .zero, v => v == 0

/-- Whether a tag is followed by a numeral. -/
inductive Argument where
  | none
  | required
  /-- The argument may be left out, and then has the given value. -/
  | optional (default : Value)
  deriving DecidableEq, Repr

/-- The first part of an instruction. Arithmetic takes its second operand from the stack
(`binary`) or from its argument (`immediate`). -/
inductive Opcode where
  | binary (f : Arith)
  | immediate (f : Arith)
  | print
  | jump (c : Cond)
  | dup
  | reverse
  | printChar
  | load
  | comment
  deriving DecidableEq, Repr

namespace Opcode

/-- All opcodes, in the order of their codes. -/
def all : List Opcode :=
  [.binary .add, .binary .sub, .binary .mul, .binary .div,
    .immediate .add, .immediate .sub, .immediate .mul, .immediate .div,
    .print, .jump .nonZero, .dup, .reverse,
    .printChar, .jump .zero, .load, .comment]

/-- The place of an opcode in `all`. -/
def code : Opcode → Nat
  | .binary .add => 0
  | .binary .sub => 1
  | .binary .mul => 2
  | .binary .div => 3
  | .immediate .add => 4
  | .immediate .sub => 5
  | .immediate .mul => 6
  | .immediate .div => 7
  | .print => 8
  | .jump .nonZero => 9
  | .dup => 10
  | .reverse => 11
  | .printChar => 12
  | .jump .zero => 13
  | .load => 14
  | .comment => 15

/-- The two digits of the code. -/
def tag (o : Opcode) : List Char := [Nat.digitChar (o.code / 4), Nat.digitChar (o.code % 4)]

/-- The opcode with a given tag. A tag is exactly two digits. -/
def ofTag? (tag : List Char) : Option Opcode :=
  if tag.length = 2 ∧ tag.all Digit.isDigit then all[Digit.value tag]? else Option.none

def mnemonic : Opcode → String
  | .binary .add => "ADD"
  | .binary .sub => "SUB"
  | .binary .mul => "MUL"
  | .binary .div => "DIV"
  | .immediate .add => "ADDI"
  | .immediate .sub => "SUBI"
  | .immediate .mul => "MULI"
  | .immediate .div => "DIVI"
  | .print => "PRINT"
  | .jump .nonZero => "JNZ"
  | .dup => "DUP"
  | .reverse => "REV"
  | .printChar => "PRINTC"
  | .jump .zero => "JZ"
  | .load => "LOAD"
  | .comment => "COMMENT"

/-- How many values are reversed where the count is left out. -/
def defaultCount : Value := 2

def argument : Opcode → Argument
  | .immediate _ | .jump _ | .load => .required
  | .reverse => .optional defaultCount
  | .binary _ | .print | .printChar | .dup | .comment => .none

theorem getElem?_code (o : Opcode) : all[o.code]? = some o := by
  rcases o with (_ | _ | _ | _) | (_ | _ | _ | _) | _ | (_ | _) | _ | _ | _ | _ | _ <;> rfl

theorem ofTag?_tag (o : Opcode) : ofTag? o.tag = some o := by
  rcases o with (_ | _ | _ | _) | (_ | _ | _ | _) | _ | (_ | _) | _ | _ | _ | _ | _ <;> rfl

theorem ofTag?_eq_some_iff {tag : List Char} {o : Opcode} :
    ofTag? tag = some o ↔ tag = o.tag := by
  constructor
  · intro h
    match tag, h with
    | [a, b], h =>
      by_cases ha : Digit.isDigit a = true
      · by_cases hb : Digit.isDigit b = true
        · rcases Digit.isDigit_iff.mp ha with rfl | rfl | rfl | rfl <;>
            rcases Digit.isDigit_iff.mp hb with rfl | rfl | rfl | rfl <;>
            cases h <;> rfl
        · simp [ofTag?, hb] at h
      · simp [ofTag?, ha] at h
    | [], h => simp [ofTag?] at h
    | [_], h => simp [ofTag?] at h
    | _ :: _ :: _ :: _, h => simp [ofTag?] at h
  · rintro rfl
    exact ofTag?_tag o

end Opcode

end Quaternary
