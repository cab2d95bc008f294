/-!
# Values

Every number that the machine computes with is a signed 64-bit integer. Arithmetic is done on
`Int`, where it is exact, and `ofInt?` brings a result back if 64 bits hold it.
-/

namespace Quaternary

/-- A number on the stack or in an argument. -/
abbrev Value := Int64

namespace Value

/-- The least number that is a value, `-2 ^ 63`. -/
def least : Int := -9223372036854775808

/-- The greatest number that is a value, `2 ^ 63 - 1`. -/
def greatest : Int := 9223372036854775807

/-- The value equal to `i`, if there is one. -/
def ofInt? (i : Int) : Option Value :=
  if least ≤ i ∧ i ≤ greatest then some (Int64.ofInt i) else none

/-- The decimal text of a value: a minus sign if it is negative, then its magnitude without
leading zeros. -/
def decimal (v : Value) : String := v.toInt.repr

/-- The character whose code is `v`. The surrogates and the numbers outside `0 .. 0x10FFFF` are
codes of no character. -/
def char? (v : Value) : Option Char :=
  if 0 ≤ v.toInt ∧ v.toInt.toNat.isValidChar then some (Char.ofNat v.toInt.toNat) else none

theorem least_le_toInt (v : Value) : least ≤ v.toInt := Int64.le_toInt v

theorem toInt_le_greatest (v : Value) : v.toInt ≤ greatest :=
  Int.le_of_lt_add_one (Int64.toInt_lt v)

theorem ofInt?_eq_some_iff {i : Int} {v : Value} : ofInt? i = some v ↔ v.toInt = i := by
  constructor
  · intro h
    simp only [ofInt?, Option.ite_none_right_eq_some, Option.some.injEq] at h
    obtain ⟨⟨hlo, hhi⟩, rfl⟩ := h
    exact Int64.toInt_ofInt_of_le hlo (Int.lt_add_one_of_le hhi)
  · rintro rfl
    rw [ofInt?, if_pos ⟨least_le_toInt v, toInt_le_greatest v⟩, Int64.ofInt_toInt]

theorem ofInt?_eq_none_iff {i : Int} : ofInt? i = none ↔ i < least ∨ greatest < i := by
  simp only [ofInt?, ite_eq_right_iff, reduceCtorEq, imp_false]
  omega

theorem eq_zero_iff {v : Value} : v = 0 ↔ v.toInt = 0 := by
  constructor
  · rintro rfl
    rfl
  · intro h
    exact Int64.toInt_inj.mp h

@[simp] theorem ofInt?_toInt (v : Value) : ofInt? v.toInt = some v :=
  ofInt?_eq_some_iff.mpr rfl

end Value

end Quaternary
