import Quaternary.Value

/-!
# The stack

The top of the stack is the head of the list.
-/

namespace Quaternary

abbrev Stack := List Value

namespace Stack

def push (s : Stack) (v : Value) : Stack := v :: s

/-- The top value, if there is one, and the stack without it. -/
def pop (s : Stack) : Option Value × Stack := (s.head?, s.tail)

/-- Reverses the order of the top `n` values. -/
def reverseTop (n : Nat) (s : Stack) : Stack := (s.take n).reverse ++ s.drop n

/-- The stack with the given values, the last one on top. -/
def ofBottomUp (values : List Value) : Stack := values.reverse

/-- The values from the bottom to the top. -/
def bottomUp (s : Stack) : List Value := s.reverse

@[simp] theorem length_reverseTop (n : Nat) (s : Stack) : (s.reverseTop n).length = s.length := by
  simp only [reverseTop, List.length_append, List.length_reverse, List.length_take,
    List.length_drop]
  omega

@[simp] theorem reverseTop_zero (s : Stack) : s.reverseTop 0 = s := rfl

@[simp] theorem ofBottomUp_bottomUp (s : Stack) : ofBottomUp s.bottomUp = s :=
  List.reverse_reverse s

end Stack

end Quaternary
