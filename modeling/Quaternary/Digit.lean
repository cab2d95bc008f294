/-!
# Base-four digits

The language is written in the digits `0`, `1`, `2` and `3`. Only the ASCII characters count.
-/

namespace Quaternary.Digit

/-- Whether a character is one of `0`, `1`, `2`, `3`. -/
def isDigit (c : Char) : Bool := '0' ≤ c && c ≤ '3'

/-- The number that a row of digits denotes, the first digit counting most. No digits denote
zero. -/
def value (digits : List Char) : Nat := Nat.ofDigitChars 4 digits 0

/-- The digits of a number, without leading zeros; zero has the one digit `0`. -/
def ofNat (n : Nat) : List Char := Nat.toDigits 4 n

@[simp] theorem value_nil : value [] = 0 := rfl

theorem value_ofNat (n : Nat) : value (ofNat n) = n :=
  Nat.ofDigitChars_toDigits (by decide) (by decide)

theorem isDigit_iff {c : Char} : isDigit c = true ↔ c = '0' ∨ c = '1' ∨ c = '2' ∨ c = '3' := by
  constructor
  · intro h
    simp only [isDigit, Bool.and_eq_true, decide_eq_true_eq, Char.le_def] at h
    obtain ⟨hlo, hhi⟩ := h
    have lo : 48 ≤ c.toNat := hlo
    have hi : c.toNat ≤ 51 := hhi
    have cases : c.toNat = 48 ∨ c.toNat = 49 ∨ c.toNat = 50 ∨ c.toNat = 51 := by omega
    rcases cases with h | h | h | h
    · exact Or.inl (Char.toNat_inj.mp h)
    · exact Or.inr (Or.inl (Char.toNat_inj.mp h))
    · exact Or.inr (Or.inr (Or.inl (Char.toNat_inj.mp h)))
    · exact Or.inr (Or.inr (Or.inr (Char.toNat_inj.mp h)))
  · rintro (rfl | rfl | rfl | rfl) <;> rfl

theorem isDigit_digitChar {n : Nat} (h : n < 4) : isDigit (Nat.digitChar n) = true := by
  match n, h with
  | 0, _ | 1, _ | 2, _ | 3, _ => rfl

theorem all_isDigit_ofNat (n : Nat) : (ofNat n).all isDigit = true := by
  induction n using Nat.strongRecOn with
  | ind n ih =>
    rw [ofNat, Nat.toDigits_eq_if (by decide)]
    split
    · next h => simp [isDigit_digitChar h]
    · next h =>
      rw [List.all_append, ← ofNat, ih (n / 4) (by omega)]
      simp [isDigit_digitChar (Nat.mod_lt n (by decide : 4 > 0))]

end Quaternary.Digit
