import Quaternary.Numeral
import Quaternary.Program

/-!
# Listings

The listing of a program is a source text with the canonical form of each instruction. Empty
lines put every instruction on its own line number, as far as the instructions before it leave
that line free.
-/

namespace Quaternary

/-- The canonical line of an operation: its tag, and after a space the numeral of its
argument. -/
def Op.text (op : Op) : List Char :=
  op.opcode.tag ++
    match op.argument? with
    | none => []
    | some v => ' ' :: Numeral.write v

namespace Program

/-- The lines of a listing from line `next` on. -/
def listingLines (next : Nat) : List Instruction → List (List Char)
  | [] => []
  | i :: rest =>
    List.replicate (i.line - next) [] ++ i.op.text :: listingLines (max next i.line + 1) rest

/-- The canonical source text of a program, each line ended by a line feed. -/
def listing (p : Program) : String :=
  String.ofList ((listingLines 1 p.instructions.toList).flatMap (· ++ ['\n']))

end Program

end Quaternary
