import Quaternary.Line
import Quaternary.Program

/-!
# Programs from source text

Source text is cut at line feeds, and its lines are numbered from one. The instructions of a
program are those on its lines, from top to bottom; the first line with a wrong argument makes
the whole text an error.
-/

namespace Quaternary

/-- An argument that cannot be read, and the line it stands on. -/
structure SourceError where
  line : Nat
  cause : Numeral.Error
  deriving DecidableEq, Repr

def SourceError.message (e : SourceError) : String := s!"line {e.line}: {e.cause.message}"

/-- The lines of a source text with their numbers. -/
def numberedLines (source : String) : List (List Char × Nat) :=
  (source.toList.splitOn '\n').zipIdx 1

/-- The value of a numeral that stands on line `number`. -/
def Numeral.readAt (text : List Char) (number : Nat) : Except SourceError Value :=
  (Numeral.read text).mapError (SourceError.mk number)

/-- What line `number` with the given text holds. -/
def Line.readAt (text : List Char) (number : Nat) : Except SourceError Line :=
  (Line.read text).mapError (SourceError.mk number)

/-- The instruction on a line, if it holds one. -/
def Instruction.ofLine? (text : List Char) (number : Nat) :
    Except SourceError (Option Instruction) :=
  (Line.readAt text number).map fun line => line.op?.map (Instruction.mk number)

namespace Program

/-- The instructions on some numbered lines. -/
def instructionsOf (lines : List (List Char × Nat)) : Except SourceError (List Instruction) := do
  let found ← lines.mapM fun (text, number) => Instruction.ofLine? text number
  return found.filterMap id

/-- The program that a source text denotes. -/
def ofSource (source : String) : Except SourceError Program := do
  let instructions ← instructionsOf (numberedLines source)
  return ⟨instructions.toArray⟩

/-- Whether two source texts denote the same program or have the same error. -/
def sameReading (a b : String) : Bool :=
  match ofSource a, ofSource b with
  | .ok p, .ok q => p = q
  | .error d, .error e => d = e
  | _, _ => false

@[simp] theorem instructionsOf_nil : instructionsOf [] = .ok [] := rfl

theorem instructionsOf_cons (text : List Char) (number : Nat) (rest : List (List Char × Nat)) :
    instructionsOf ((text, number) :: rest) = do
      let found ← Instruction.ofLine? text number
      let others ← instructionsOf rest
      return found.toList ++ others := by
  simp only [instructionsOf, List.mapM_cons, bind_assoc, pure_bind]
  congr 1
  funext found
  cases found <;> simp

/-- Lines may be read in two parts, of which the second counts only if the first has no
error. -/
theorem instructionsOf_append (xs ys : List (List Char × Nat)) :
    instructionsOf (xs ++ ys) = do
      let first ← instructionsOf xs
      let second ← instructionsOf ys
      return first ++ second := by
  simp only [instructionsOf, List.mapM_append, bind_assoc, pure_bind, List.filterMap_append]

end Program

end Quaternary
