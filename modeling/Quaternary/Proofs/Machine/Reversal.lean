import Quaternary.Proofs.Machine.Frame
import Quaternary.Proofs.Machine.Straight

/-!
# Reversing the top of the stack

Values that are popped one by one and pushed back in the order in which they came off stand in the
reverse order. `Stack.popMany` and `Stack.pushMany` do this with the two operations on the top of
the stack alone, and `Stack.reverseTop` gives the same stack at once (`Stack.pushMany_popMany`).

What follows about the operation is listed in `Op.ReversesTop`. A count that is not positive
reverses nothing; a count beyond the depth is a fault. In either case the stack is as before, so
executing the operation twice leads back to the stack at the start, whatever the count is
(`Machine.reverse_pops_and_pushes`).
-/

namespace Quaternary

namespace Stack

/-- Pops `n` values one by one, if there are so many, and lists them as they come off. -/
def popMany : Nat → Stack → Option (List Value × Stack)
  | 0, s => some ([], s)
  | n + 1, s =>
    match s.pop with
    | (none, _) => none
    | (some v, rest) => (popMany n rest).map fun (popped, below) => (v :: popped, below)

/-- Pushes values one by one, beginning with the first. -/
def pushMany (s : Stack) (values : List Value) : Stack := values.foldl push s

theorem popMany_of_le {n : Nat} {s : Stack} (h : n ≤ s.length) :
    popMany n s = some (s.take n, s.drop n) := by
  induction n generalizing s with
  | zero => rfl
  | succ n ih =>
    cases s with
    | nil => simp at h
    | cons v rest =>
      have hrest : n ≤ rest.length := by simpa using h
      simp [popMany, pop, ih hrest]

theorem pushMany_eq_append (s : Stack) (values : List Value) :
    s.pushMany values = values.reverse ++ s := by
  induction values generalizing s with
  | nil => rfl
  | cons v rest ih =>
    have hpushed : s.pushMany (v :: rest) = (s.push v).pushMany rest := rfl
    rw [hpushed, ih]
    simp [push]

theorem pushMany_popMany {n : Nat} {s : Stack} (h : n ≤ s.length) :
    ∃ popped below, s.popMany n = some (popped, below) ∧
      s.reverseTop n = below.pushMany popped := by
  refine ⟨s.take n, s.drop n, popMany_of_le h, ?_⟩
  rw [pushMany_eq_append, reverseTop]

theorem take_reverseTop (n : Nat) (s : Stack) : (s.reverseTop n).take n = (s.take n).reverse := by
  rcases Nat.le_total n s.length with h | h
  · have hlength : (s.take n).reverse.length = n := by simp [h]
    rw [reverseTop, List.take_left' hlength]
  · have hlength : (s.reverseTop n).length ≤ n := by simpa using h
    rw [List.take_of_length_le hlength, reverseTop, List.drop_eq_nil_of_le h, List.append_nil]

theorem drop_reverseTop (n : Nat) (s : Stack) : (s.reverseTop n).drop n = s.drop n := by
  rcases Nat.le_total n s.length with h | h
  · have hlength : (s.take n).reverse.length = n := by simp [h]
    rw [reverseTop, List.drop_left' hlength]
  · have hlength : (s.reverseTop n).length ≤ n := by simpa using h
    rw [List.drop_eq_nil_of_le hlength, List.drop_eq_nil_of_le h]

theorem reverseTop_reverseTop (n : Nat) (s : Stack) : (s.reverseTop n).reverseTop n = s := by
  rw [reverseTop, take_reverseTop, drop_reverseTop, List.reverse_reverse, List.take_append_drop]

theorem perm_reverseTop (n : Nat) (s : Stack) : (s.reverseTop n).Perm s := by
  have hperm : (s.reverseTop n).Perm (s.take n ++ s.drop n) :=
    (List.reverse_perm (s.take n)).append_right (s.drop n)
  rw [List.take_append_drop] at hperm
  exact hperm

end Stack

namespace Op

/-- What becomes of a stack whose top `count` values are to be reversed. -/
structure ReversesTop (count : Value) (stack : Stack) (o : Outcome) : Prop where
  success : (∃ next, o.result = .ok next) ↔ count.toInt ≤ stack.length
  popped : 0 < count.toInt → count.toInt ≤ stack.length →
    ∃ popped below, stack.popMany count.toInt.toNat = some (popped, below) ∧
      o.stack = below.pushMany popped
  unchanged : count.toInt ≤ 0 → o.stack = stack
  /-- The values below the top `count` are untouched. -/
  below : o.stack.drop count.toInt.toNat = stack.drop count.toInt.toNat
  perm : o.stack.Perm stack

theorem reversesTop_execute (count : Value) (counter : Int) (stack : Stack) (sink : Sink) :
    ReversesTop count stack ((reverse count).execute counter stack sink) := by
  by_cases hdepth : count.toInt.toNat ≤ stack.length
  · rw [execute_reverse hdepth]
    constructor
    · exact iff_of_true ⟨counter + 1, rfl⟩ (by omega)
    · intro _ _
      exact Stack.pushMany_popMany hdepth
    · intro hcount
      have hzero : count.toInt.toNat = 0 := by omega
      rw [hzero, Stack.reverseTop_zero]
    · exact Stack.drop_reverseTop count.toInt.toNat stack
    · exact Stack.perm_reverseTop count.toInt.toNat stack
  · -- a fault leaves the stack alone, so that what is said of the values holds of it as well
    have hshort : stack.length < (reverse count).required := Nat.lt_of_not_le hdepth
    rw [execute_of_length_lt hshort]
    constructor
    · refine iff_of_false ?_ (by omega)
      rintro ⟨next, hnext⟩
      cases hnext
    · intro _ hcount
      omega
    · intro _
      rfl
    · rfl
    · exact List.Perm.refl stack

end Op

namespace Machine

variable {m : Machine} {count : Value}

theorem inOrder_reverse_twice (h : count.toInt.toNat ≤ m.stack.length) (ops : List Op) :
    inOrder (.reverse count :: .reverse count :: ops) m =
      inOrder ops { m with counter := m.counter + 1 + 1, steps := m.steps + 1 + 1 } := by
  have hagain : count.toInt.toNat ≤ (m.stack.reverseTop count.toInt.toNat).length := by
    rw [Stack.length_reverseTop]
    exact h
  have hsecond := Op.execute_reverse hagain (m.counter + 1) m.sink
  rw [Stack.reverseTop_reverseTop] at hsecond
  rw [inOrder_cons_ok (Op.execute_reverse h m.counter m.sink), inOrder_cons_ok hsecond]

/-- Reversing succeeds exactly if there are so many values, and is then popping them and pushing them
back in the order in which they came off. A program that reverses twice ends with the stack that it
started with. -/
theorem reverse_pops_and_pushes (count : Value) (counter : Int) (stack : Stack) (sink : Sink) :
    Op.ReversesTop count stack ((Op.reverse count).execute counter stack sink) ∧
      ∀ p : Program, p.ops = [.reverse count, .reverse count] →
        ∃ s m, Ends p { stack, sink } s m ∧ (s = .halted ↔ count.toInt ≤ stack.length) ∧
          m.stack = stack := by
  refine ⟨Op.reversesTop_execute count counter stack sink, ?_⟩
  intro p hops
  have hends : EndsAs p { stack, sink } _ _ :=
    ends_of_inOrder (hops ▸ pointsTo_start p stack sink) (by simp [Op.isJump])
  by_cases hdepth : count.toInt.toNat ≤ stack.length
  · rw [inOrder_reverse_twice hdepth] at hends
    exact ⟨_, _, hends, iff_of_true rfl (by omega), rfl⟩
  · -- the first of the two fails already
    have hshort : stack.length < (Op.reverse count).required := Nat.lt_of_not_le hdepth
    rw [inOrder_cons_error (Op.execute_of_length_lt hshort 0 sink)] at hends
    obtain ⟨line, hends⟩ := hends
    exact ⟨_, _, hends, iff_of_false (by simp) (by omega), rfl⟩

/-- Three of four values are reversed, and a program on lines of its own reverses them back. -/
theorem reverse_pops_and_pushes_three :
    ((Op.reverse 3).execute 0 [1, 2, 3, 4] {}).stack = Stack.pushMany [4] [1, 2, 3] ∧
      Stack.pushMany [4] [1, 2, 3] = [3, 2, 1, 4] ∧
      ∃ m, Ends ⟨#[⟨2, .reverse 3⟩, ⟨7, .reverse 3⟩]⟩ { stack := [1, 2, 3, 4] } .halted m ∧
        m.stack = [1, 2, 3, 4] := by
  obtain ⟨hreverses, htwice⟩ := reverse_pops_and_pushes 3 0 [1, 2, 3, 4] {}
  obtain ⟨popped, below, hpop, hstack⟩ := hreverses.popped (by decide) (by decide)
  cases hpop
  obtain ⟨s, m, hends, hs, hm⟩ := htwice ⟨#[⟨2, .reverse 3⟩, ⟨7, .reverse 3⟩]⟩ rfl
  obtain rfl := hs.mpr (by decide)
  exact ⟨hstack, rfl, m, hends, hm⟩

end Machine

end Quaternary
