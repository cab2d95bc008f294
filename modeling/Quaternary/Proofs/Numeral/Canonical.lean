import Quaternary.Proofs.Numeral.Exactness

/-!
# Canonical numerals

A value has many numerals: each sign can be written in two ways, and any number of zeros may stand
before the magnitude. One of them is canonical (`Numeral.Canonical`), and it is the one that is
written (`Numeral.write_canonical`). It is never longer than another numeral of the same value,
except that a sign alone, which denotes zero, is written with a digit.

Writing finds the digits from the last to the first and reading takes them from the first to the
last. What joins the two, in any base, is `Digit.toDigits_append`: digits that are read behind those
of a positive number stand behind the digits of that number.
-/

namespace Quaternary

namespace Digit

/-! ## Rows of digits in any base -/

/-- The character is the digit of a number below the base. -/
def InBase (base : Nat) (c : Char) : Prop := ∃ d < base, c = Nat.digitChar d

section Base

variable {base : Nat} {first : Char} {rest : List Char}

theorem toDigits_append (hbase : 1 < base) (hten : base ≤ 10) {start : Nat} (hstart : 0 < start)
    {digits : List Char} (h : ∀ c ∈ digits, InBase base c) :
    Nat.toDigits base start ++ digits =
      Nat.toDigits base (Nat.ofDigitChars base digits start) := by
  induction digits generalizing start with
  | nil => simp
  | cons c rest ih =>
    obtain ⟨⟨d, hd, rfl⟩, hrest⟩ := List.forall_mem_cons.mp h
    have hnext : 0 < base * start + d := by
      have hproduct : 0 < base * start := Nat.mul_pos (by omega) hstart
      omega
    calc
      Nat.toDigits base start ++ Nat.digitChar d :: rest =
          (Nat.toDigits base start ++ Nat.toDigits base d) ++ rest := by
        simp [Nat.toDigits_of_lt_base hd]
      _ = Nat.toDigits base (base * start + d) ++ rest := by
        rw [Nat.toDigits_append_toDigits hbase hstart hd]
      _ = Nat.toDigits base (Nat.ofDigitChars base rest (base * start + d)) := ih hnext hrest
      _ = Nat.toDigits base (Nat.ofDigitChars base (Nat.digitChar d :: rest) start) := by
        rw [Nat.ofDigitChars_cons_digitChar_of_lt_ten (by omega)]

/-- Digits without a zero at their front are the digits of the number that they denote. -/
theorem toDigits_ofDigitChars (hbase : 1 < base) (hten : base ≤ 10) (hfirst : InBase base first)
    (hzero : first ≠ '0') (hrest : ∀ c ∈ rest, InBase base c) :
    Nat.toDigits base (Nat.ofDigitChars base (first :: rest) 0) = first :: rest := by
  obtain ⟨d, hd, rfl⟩ := hfirst
  have hpos : 0 < d := by
    simp only [ne_eq, Nat.digitChar_eq_zero] at hzero
    omega
  rw [Nat.ofDigitChars_cons_digitChar_of_lt_ten (by omega), Nat.mul_zero, Nat.zero_add,
    ← toDigits_append hbase hten hpos hrest, Nat.toDigits_of_lt_base hd, List.singleton_append]

theorem ofDigitChars_pos (hbase : 1 < base) (hten : base ≤ 10) (hfirst : InBase base first)
    (hzero : first ≠ '0') (hrest : ∀ c ∈ rest, InBase base c) :
    0 < Nat.ofDigitChars base (first :: rest) 0 := by
  apply Nat.pos_of_ne_zero
  intro hnone
  have hdigits := toDigits_ofDigitChars hbase hten hfirst hzero hrest
  rw [hnone, Nat.toDigits_zero] at hdigits
  exact hzero (List.cons.inj hdigits).1.symm

theorem head?_toDigits_ne_zero (hbase : 1 < base) {n : Nat} (h : 0 < n) :
    (Nat.toDigits base n).head? ≠ some '0' := by
  induction n using Nat.strongRecOn with
  | ind n ih =>
    rw [Nat.toDigits_eq_if hbase]
    split
    · simp only [List.head?_cons, ne_eq, Option.some.injEq, Nat.digitChar_eq_zero]
      omega
    · next hge =>
      have hquotient : 0 < n / base := Nat.div_pos (by omega) (by omega)
      have hhead := ih (n / base) (Nat.div_lt_self h hbase) hquotient
      obtain ⟨first, rest, hdigits⟩ :=
        List.exists_cons_of_ne_nil (Nat.toDigits_ne_nil : Nat.toDigits base (n / base) ≠ [])
      rw [hdigits] at hhead ⊢
      exact hhead

end Base

/-! ## Base four -/

theorem inBase_of_isDigit {c : Char} (h : isDigit c = true) : InBase 4 c := by
  rcases isDigit_iff.mp h with rfl | rfl | rfl | rfl
  · exact ⟨0, by decide, rfl⟩
  · exact ⟨1, by decide, rfl⟩
  · exact ⟨2, by decide, rfl⟩
  · exact ⟨3, by decide, rfl⟩

theorem ofNat_value {first : Char} {rest : List Char} (hfirst : isDigit first)
    (hzero : first ≠ '0') (hrest : ∀ c ∈ rest, isDigit c) :
    ofNat (value (first :: rest)) = first :: rest :=
  toDigits_ofDigitChars (by decide) (by decide) (inBase_of_isDigit hfirst) hzero
    fun c hc => inBase_of_isDigit (hrest c hc)

theorem value_pos {first : Char} {rest : List Char} (hfirst : isDigit first)
    (hzero : first ≠ '0') (hrest : ∀ c ∈ rest, isDigit c) : 0 < value (first :: rest) :=
  ofDigitChars_pos (by decide) (by decide) (inBase_of_isDigit hfirst) hzero
    fun c hc => inBase_of_isDigit (hrest c hc)

theorem head?_ofNat_ne_zero {n : Nat} (h : 0 < n) : (ofNat n).head? ≠ some '0' :=
  head?_toDigits_ne_zero (by decide) h

theorem length_ofNat_value_le {digits : List Char} (h : ∀ c ∈ digits, isDigit c)
    (hne : digits ≠ []) : (ofNat (value digits)).length ≤ digits.length :=
  (Nat.length_toDigits_le_iff (by decide) (List.length_pos_iff.mpr hne)).mpr (value_lt h)

end Digit

namespace Numeral

/-- The text is `10`, or a sign `0` or `1` with digits after it, the first of which is not `0`. -/
inductive Canonical : List Char → Prop
  | zero : Canonical ['1', '0']
  | nonzero {sign first : Char} {rest : List Char} (hsign : sign = '0' ∨ sign = '1')
      (hfirst : Digit.isDigit first) (hzero : first ≠ '0') (hrest : ∀ c ∈ rest, Digit.isDigit c) :
      Canonical (sign :: first :: rest)

theorem natAbs_signed (sign : Char) (digits : List Char) :
    (signed sign digits).natAbs = Digit.value digits := by
  unfold signed
  split
  · exact Int.natAbs_neg _
  · rfl

theorem two_le_length_write (v : Value) : 2 ≤ (write v).length := by
  have hdigits : 0 < (Digit.ofNat v.toInt.natAbs).length := Nat.length_toDigits_pos
  rw [write, List.length_cons]
  omega

theorem length_write_le (v : Value) : (write v).length ≤ 33 := by
  have hlo := v.least_le_toInt
  have hhi := v.toInt_le_greatest
  rw [Value.least] at hlo
  rw [Value.greatest] at hhi
  have hdigits : (Digit.ofNat v.toInt.natAbs).length ≤ 32 :=
    (Nat.length_toDigits_le_iff (by decide) (by decide)).mpr (by norm_num; omega)
  rw [write, List.length_cons]
  omega

theorem canonical_write (v : Value) : Canonical (write v) := by
  rw [write]
  by_cases hzero : v.toInt = 0
  · rw [hzero]
    exact .zero
  · have hpos : 0 < v.toInt.natAbs := by omega
    have hdigits := List.all_eq_true.mp (Digit.all_isDigit_ofNat v.toInt.natAbs)
    have hhead := Digit.head?_ofNat_ne_zero hpos
    have hne : Digit.ofNat v.toInt.natAbs ≠ [] := Nat.toDigits_ne_nil
    obtain ⟨first, rest, hof⟩ := List.exists_cons_of_ne_nil hne
    rw [hof] at hdigits hhead ⊢
    obtain ⟨hfirst, hrest⟩ := List.forall_mem_cons.mp hdigits
    have hsign : (if v.toInt < 0 then '0' else '1') = '0' ∨
        (if v.toInt < 0 then '0' else '1') = '1' := by
      split
      · exact Or.inl rfl
      · exact Or.inr rfl
    exact .nonzero hsign hfirst (by simpa using hhead) hrest

/-- A canonical numeral is the one that is written for its value. -/
theorem write_of_canonical {text : List Char} {v : Value} (hcanonical : Canonical text)
    (hv : Denotes text v.toInt) : write v = text := by
  cases hcanonical with
  | zero =>
    rw [write, (denotes_iff_signed.mp hv).2.2]
    rfl
  | @nonzero sign first rest hsign hfirst hzero hrest =>
    have hpos : 0 < Digit.value (first :: rest) := Digit.value_pos hfirst hzero hrest
    rw [write, (denotes_iff_signed.mp hv).2.2, natAbs_signed, Digit.ofNat_value hfirst hzero hrest]
    congr 1
    rcases hsign with rfl | rfl
    · have hneg : signed '0' (first :: rest) = -Digit.value (first :: rest) := rfl
      rw [if_pos (by omega)]
    · have hnonneg : signed '1' (first :: rest) = Digit.value (first :: rest) := rfl
      rw [if_neg (by omega)]

theorem length_write_le_max {text : List Char} {v : Value} (hv : Denotes text v.toInt) :
    (write v).length ≤ max text.length 2 := by
  obtain ⟨sign, digits, rfl⟩ := hv.exists_cons
  obtain ⟨-, hdigits, hsigned⟩ := denotes_iff_signed.mp hv
  rw [write, hsigned, natAbs_signed, List.length_cons, List.length_cons]
  by_cases hne : digits = []
  · subst hne
    decide
  · have hlength := Digit.length_ofNat_value_le hdigits hne
    omega

/-- A value is written as its only canonical numeral, which reads as the value. It has at most 32
digits after the sign, and among the numerals of its value only a sign alone is shorter. -/
theorem write_canonical (v : Value) (line : Nat) :
    readAt (write v) line = .ok v ∧ 2 ≤ (write v).length ∧ (write v).length ≤ 33 ∧
      Canonical (write v) ∧
      ∀ text, readAt text line = .ok v →
        (write v = text ↔ Canonical text) ∧ (write v).length ≤ max text.length 2 := by
  refine ⟨?_, two_le_length_write v, length_write_le v, canonical_write v, ?_⟩
  · rw [readAt, read_write]
    rfl
  · intro text htext
    have hv := readAt_eq_ok_iff.mp htext
    refine ⟨⟨?_, fun hcanonical => write_of_canonical hcanonical hv⟩, length_write_le_max hv⟩
    rintro rfl
    exact canonical_write v

/-- The least value, written with the other minus sign and a zero before its magnitude. -/
def leastPadded : List Char := '2' :: '0' :: '2' :: List.replicate 31 '0'

/-- The least value, whose magnitude is no value, is written without that zero. -/
theorem write_canonical_least :
    readAt leastPadded 1 = .ok Int64.minValue ∧ write Int64.minValue ≠ leastPadded ∧
      Canonical (write Int64.minValue) ∧ (write Int64.minValue).length ≤ leastPadded.length := by
  have hread : readAt leastPadded 1 = .ok Int64.minValue := by rfl
  obtain ⟨-, -, -, hcanonical, hothers⟩ := write_canonical Int64.minValue 1
  obtain ⟨hiff, hlength⟩ := hothers leastPadded hread
  refine ⟨hread, ?_, hcanonical, hlength⟩
  intro heq
  have hnot : ¬ Canonical leastPadded := by
    rintro ⟨⟩
    contradiction
  exact hnot (hiff.mp heq)

end Numeral

end Quaternary
