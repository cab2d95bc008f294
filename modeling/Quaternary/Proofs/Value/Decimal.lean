import Quaternary.Proofs.Numeral.Canonical

/-!
# Decimal texts

The decimal form of an integer is described by what stands in it (`DecimalForm`): a minus sign
exactly if the integer is negative, and then digits that denote the magnitude, without a zero at
their front and without anything between them. Every integer has such a text
(`DecimalForm.toList_repr`) and only one (`DecimalForm.eq_toList_repr`); for a value it is the text
that is printed.
-/

namespace Quaternary

/-- The text is the decimal form of the integer: `0`, or digits of which the first is not `0`,
behind a minus sign if the integer is negative. -/
inductive DecimalForm : Int → List Char → Prop
  | zero : DecimalForm 0 ['0']
  | positive {first : Char} {rest : List Char} (hfirst : first.isDigit) (hzero : first ≠ '0')
      (hrest : ∀ c ∈ rest, c.isDigit) :
      DecimalForm (Nat.ofDigitChars 10 (first :: rest) 0) (first :: rest)
  | negative {first : Char} {rest : List Char} (hfirst : first.isDigit) (hzero : first ≠ '0')
      (hrest : ∀ c ∈ rest, c.isDigit) :
      DecimalForm (-Nat.ofDigitChars 10 (first :: rest) 0) ('-' :: first :: rest)

theorem Digit.inBase_ten_of_isDigit {c : Char} (h : c.isDigit) : InBase 10 c := by
  simp only [Char.isDigit, Bool.and_eq_true, decide_eq_true_eq] at h
  have hlow : 48 ≤ c.toNat := h.1
  have hhigh : c.toNat ≤ 57 := h.2
  refine ⟨c.toNat - 48, by omega, Char.toNat_inj.mp ?_⟩
  rw [Nat.toNat_digitChar_of_lt_ten (by omega)]
  omega

/-- Decimal digits without a zero at their front are those of the number that they denote, which is
positive. -/
theorem Digit.toDigits_ten_ofDigitChars {first : Char} {rest : List Char} (hfirst : first.isDigit)
    (hzero : first ≠ '0') (hrest : ∀ c ∈ rest, c.isDigit) :
    Nat.toDigits 10 (Nat.ofDigitChars 10 (first :: rest) 0) = first :: rest ∧
      0 < Nat.ofDigitChars 10 (first :: rest) 0 := by
  have hfirst' := inBase_ten_of_isDigit hfirst
  have hrest' : ∀ c ∈ rest, InBase 10 c := fun c hc => inBase_ten_of_isDigit (hrest c hc)
  exact ⟨toDigits_ofDigitChars (by decide) (by decide) hfirst' hzero hrest',
    ofDigitChars_pos (by decide) (by decide) hfirst' hzero hrest'⟩

/-- Conversely, the digits of a positive number begin with one that is not zero. -/
theorem Digit.exists_toDigits_ten {n : Nat} (h : 0 < n) :
    ∃ first rest, Nat.toDigits 10 n = first :: rest ∧ first.isDigit ∧ first ≠ '0' ∧
      (∀ c ∈ rest, c.isDigit) ∧ Nat.ofDigitChars 10 (first :: rest) 0 = n := by
  have hhead := head?_toDigits_ne_zero (by decide : 1 < 10) h
  have hvalue : Nat.ofDigitChars 10 (Nat.toDigits 10 n) 0 = n := Nat.ofDigitChars_ten_toDigits
  have hdigits : ∀ c ∈ Nat.toDigits 10 n, c.isDigit := by
    intro c hc
    exact Nat.isDigit_of_mem_toDigits (by decide) (by decide) hc
  obtain ⟨first, rest, hrow⟩ :=
    List.exists_cons_of_ne_nil (Nat.toDigits_ne_nil : Nat.toDigits 10 n ≠ [])
  rw [hrow] at hhead hvalue hdigits
  obtain ⟨hfirst, hrest⟩ := List.forall_mem_cons.mp hdigits
  exact ⟨first, rest, hrow, hfirst, by simpa using hhead, hrest, hvalue⟩

namespace DecimalForm

theorem toList_repr (i : Int) : DecimalForm i i.repr.toList := by
  rw [Int.repr_eq_if]
  split
  · next hnonneg =>
    obtain ⟨n, rfl⟩ := Int.eq_ofNat_of_zero_le hnonneg
    rw [Int.toNat_natCast, Nat.toList_repr]
    rcases Nat.eq_zero_or_pos n with rfl | hpos
    · exact .zero
    · obtain ⟨first, rest, hrow, hfirst, hzero, hrest, hvalue⟩ := Digit.exists_toDigits_ten hpos
      have hform := DecimalForm.positive hfirst hzero hrest
      rw [hvalue] at hform
      rw [hrow]
      exact hform
  · next hneg =>
    obtain ⟨n, hn⟩ := Int.eq_ofNat_of_zero_le (by omega : 0 ≤ -i)
    obtain rfl : i = -(n : Int) := by omega
    rw [Int.neg_neg, Int.toNat_natCast, String.toList_append, Nat.toList_repr]
    obtain ⟨first, rest, hrow, hfirst, hzero, hrest, hvalue⟩ :=
      Digit.exists_toDigits_ten (by omega : 0 < n)
    have hform := DecimalForm.negative hfirst hzero hrest
    rw [hvalue] at hform
    rw [hrow]
    exact hform

theorem eq_toList_repr {i : Int} {text : List Char} (h : DecimalForm i text) :
    text = i.repr.toList := by
  cases h with
  | zero => rfl
  | positive hfirst hzero hrest =>
    obtain ⟨hrow, -⟩ := Digit.toDigits_ten_ofDigitChars hfirst hzero hrest
    rw [Int.repr_eq_if, if_pos (by omega), Int.toNat_natCast, Nat.toList_repr, hrow]
  | negative hfirst hzero hrest =>
    obtain ⟨hrow, hpos⟩ := Digit.toDigits_ten_ofDigitChars hfirst hzero hrest
    rw [Int.repr_eq_if, if_neg (by omega), Int.neg_neg, Int.toNat_natCast, String.toList_append,
      Nat.toList_repr, hrow]
    rfl

end DecimalForm

/-- The text of a value is its only decimal form. -/
theorem Value.decimalForm_iff {v : Value} {text : List Char} :
    DecimalForm v.toInt text ↔ text = v.decimal.toList := by
  constructor
  · exact DecimalForm.eq_toList_repr
  · rintro rfl
    exact DecimalForm.toList_repr v.toInt

end Quaternary
