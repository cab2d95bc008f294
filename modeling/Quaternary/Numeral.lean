import Quaternary.Digit
import Quaternary.Value

/-!
# Numerals

An argument is written as a sign digit followed by the digits of the magnitude. The odd signs
`1` and `3` are positive, the even signs `0` and `2` negative. Reading allows leading zeros and
an empty magnitude; writing uses `1` and `0` as signs and at least one digit without leading
zeros.
-/

namespace Quaternary.Numeral

/-- What is wrong with an argument. The texts are those after the sign digit. -/
inductive Error where
  | empty
  | sign (c : Char)
  | digits (text : String)
  | range (text : String)
  deriving DecidableEq, Repr

def Error.message : Error → String
  | .empty => "empty argument"
  | .sign c => s!"invalid sign character '{c}'"
  | .digits text => s!"invalid numeral '{text}'"
  | .range text => s!"numeral '{text}' is out of range"

/-- Whether a sign digit makes a numeral negative. -/
def isNegative (sign : Char) : Bool := sign == '0' || sign == '2'

/-- The integer that a sign digit and a row of magnitude digits denote. -/
def signed (sign : Char) (digits : List Char) : Int :=
  if isNegative sign then -Digit.value digits else Digit.value digits

/-- The value of a numeral. Of several faults the leftmost character's is reported, and a
magnitude out of range only if all its characters are digits. -/
def read : List Char → Except Error Value
  | [] => .error .empty
  | sign :: digits =>
    if !Digit.isDigit sign then
      .error (.sign sign)
    else if !digits.all Digit.isDigit then
      .error (.digits (String.ofList digits))
    else
      match Value.ofInt? (signed sign digits) with
      | some v => .ok v
      | none => .error (.range (String.ofList digits))

/-- The canonical numeral of a value. -/
def write (v : Value) : List Char :=
  (if v.toInt < 0 then '0' else '1') :: Digit.ofNat v.toInt.natAbs

/-- The canonical numeral of a value reads back as that value. -/
theorem read_write (v : Value) : read (write v) = .ok v := by
  have value :
      signed (if v.toInt < 0 then '0' else '1') (Digit.ofNat v.toInt.natAbs) = v.toInt := by
    by_cases h : v.toInt < 0
    · simp only [signed, h, if_true, Digit.value_ofNat]
      rw [if_pos (by decide : isNegative '0' = true)]
      omega
    · simp only [signed, h, if_false, Digit.value_ofNat]
      rw [if_neg (by decide : ¬ isNegative '1' = true)]
      omega
  have sign : Digit.isDigit (if v.toInt < 0 then '0' else '1') = true := by split <;> rfl
  simp only [write, read, sign, Digit.all_isDigit_ofNat, value, Value.ofInt?_toInt]
  rfl

end Quaternary.Numeral
