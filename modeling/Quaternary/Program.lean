import Quaternary.Op

/-!
# Programs

A program is its instructions in the order of execution. Each carries the source line that it
came from; jumps count instructions, so lines without an instruction set the two apart.
-/

namespace Quaternary

structure Program where
  instructions : Array Instruction
  deriving DecidableEq, Repr

namespace Program

/-- The number of instructions. -/
def size (p : Program) : Nat := p.instructions.size

/-- The instruction at an index that counts from zero. -/
def get? (p : Program) (index : Nat) : Option Instruction := p.instructions[index]?

/-- The number of lines before the last instruction that hold none, going by its line number. -/
def skippedLines (p : Program) : Nat :=
  match p.instructions.back? with
  | none => 0
  | some last => last.line - p.size

def hasJumps (p : Program) : Bool := p.instructions.any (·.op.isJump)

end Program

end Quaternary
