import Quaternary.Blank
import Quaternary.Numeral
import Quaternary.Op

/-!
# Lines

A line of source text holds one instruction, a comment, nothing, or text that the language does
not know. Only an argument can be wrong.
-/

namespace Quaternary

/-- What a line of text is. -/
inductive Line where
  | blank
  | comment
  /-- The line has no tag; its text is kept without blanks. -/
  | unrecognized (text : String)
  | operation (op : Op)
  deriving DecidableEq, Repr

/-- The value of the argument text that follows a tag. An opcode without an argument ignores the
text, and the value is then of no use. -/
def Argument.read : Argument → List Char → Except Numeral.Error Value
  | .none, _ => .ok 0
  | .optional default, [] => .ok default
  | .optional _, text | .required, text => Numeral.read text

/-- The line that an opcode with an argument of value `v` makes. -/
def Opcode.line (v : Value) : Opcode → Line
  | .binary f => .operation (.binary f)
  | .immediate f => .operation (.immediate f v)
  | .print => .operation .print
  | .jump c => .operation (.jump c v)
  | .dup => .operation .dup
  | .reverse => .operation (.reverse v)
  | .printChar => .operation .printChar
  | .load => .operation (.load v)
  | .comment => .comment

namespace Line

/-- Reads a line from which the blanks have been removed. -/
def ofStripped (text : List Char) : Except Numeral.Error Line :=
  if text = [] then
    .ok .blank
  else
    match Opcode.ofTag? (text.take 2) with
    | none => .ok (.unrecognized (String.ofList text))
    | some opcode => (opcode.argument.read (text.drop 2)).map opcode.line

/-- Reads a line. The tag is its first two characters that are not blank, the argument all
others. -/
def read (text : List Char) : Except Numeral.Error Line := ofStripped (Blank.strip text)

/-- The operation on a line, if it holds one. -/
def op? : Line → Option Op
  | .operation op => some op
  | .blank | .comment | .unrecognized _ => none

end Line

end Quaternary
