import Mathlib.Data.Nat.Digits.Defs
import Quaternary.Program.Source

/-!
# What a numeral denotes

A row of digits denotes the number that has these digits in base four (`Digit.positional`), and a
numeral denotes that number or its negative, by its sign digit (`Numeral.Denotes`). Reading gives
what a numeral denotes exactly if that is a value, and otherwise says what is wrong
(`Numeral.readAt_exact`). Neither the length of the row nor zeros at its front matter.

Reading is defined on exact numbers. It can also be done in one unsigned word of 64 bits that takes
in the digits from left to right and gives up as soon as it cannot hold the number
(`Numeral.readInWord`). A further digit never makes the number smaller, so that a number which has
outgrown the word on the way is no value in the end, whatever its sign; and as long as the word
holds the number, it holds it exactly. Hence both readings agree (`Numeral.readInWord_eq_read`).
-/

namespace Quaternary

namespace Digit

/-- The number that a single digit denotes. -/
def number (c : Char) : Nat := c.toNat - '0'.toNat

/-- The number with the given base-four digits, the last of which are the units. -/
def positional (digits : List Char) : Nat := Nat.ofDigits 4 (digits.map number).reverse

theorem number_lt {c : Char} (h : isDigit c = true) : number c < 4 := by
  rcases isDigit_iff.mp h with rfl | rfl | rfl | rfl <;> decide

theorem ofDigitChars_eq_positional (digits : List Char) (start : Nat) :
    Nat.ofDigitChars 4 digits start = start * 4 ^ digits.length + positional digits := by
  induction digits generalizing start with
  | nil => simp [positional]
  | cons c rest ih =>
    have hcons : positional (c :: rest) = positional rest + 4 ^ rest.length * number c := by
      rw [positional, List.map_cons, Nat.ofDigits_reverse_cons, List.length_map, ← positional]
    rw [Nat.ofDigitChars_cons, ih, hcons, List.length_cons, ← number]
    ring

theorem value_eq_positional (digits : List Char) : value digits = positional digits := by
  rw [value, ofDigitChars_eq_positional, Nat.zero_mul, Nat.zero_add]

theorem value_lt {digits : List Char} (h : ∀ c ∈ digits, isDigit c) :
    value digits < 4 ^ digits.length := by
  rw [value_eq_positional, positional]
  have hbound : Nat.ofDigits 4 (digits.map number).reverse <
      4 ^ (digits.map number).reverse.length := by
    apply Nat.ofDigits_lt_base_pow_length (by decide)
    intro d hd
    obtain ⟨c, hc, rfl⟩ := List.mem_map.mp (List.mem_reverse.mp hd)
    exact number_lt (h c hc)
  simpa using hbound

/-- Further digits never make a number smaller. -/
theorem le_ofDigitChars (digits : List Char) (start : Nat) :
    start ≤ Nat.ofDigitChars 4 digits start := by
  rw [ofDigitChars_eq_positional]
  have hpower : start ≤ start * 4 ^ digits.length := Nat.le_mul_of_pos_right start (by positivity)
  omega

end Digit

namespace SourceError

variable {α : Type} {x : Except Numeral.Error α} {number : Nat}

theorem mapError_eq_ok_iff {a : α} : x.mapError (mk number) = .ok a ↔ x = .ok a := by
  cases x with
  | ok b =>
    change (Except.ok b : Except SourceError α) = .ok a ↔ _
    rw [Except.ok.injEq, Except.ok.injEq]
  | error cause =>
    constructor
    all_goals
      intro h
      cases h

/-- What goes wrong on a line is an error on that line. -/
theorem mapError_eq_error_iff {e : SourceError} :
    x.mapError (mk number) = .error e ↔ e.line = number ∧ x = .error e.cause := by
  cases x with
  | ok a =>
    constructor
    · intro h
      cases h
    · rintro ⟨-, h⟩
      cases h
  | error cause =>
    constructor
    · intro h
      cases h
      exact ⟨rfl, rfl⟩
    · rintro ⟨rfl, h⟩
      cases h
      rfl

end SourceError

namespace Numeral

/-- The text is a sign digit with digits after it, and these denote the integer. -/
inductive Denotes : List Char → Int → Prop
  | positive {sign : Char} {digits : List Char} (hsign : sign = '1' ∨ sign = '3')
      (hdigits : ∀ c ∈ digits, Digit.isDigit c) :
      Denotes (sign :: digits) (Digit.positional digits)
  | negative {sign : Char} {digits : List Char} (hsign : sign = '0' ∨ sign = '2')
      (hdigits : ∀ c ∈ digits, Digit.isDigit c) :
      Denotes (sign :: digits) (-Digit.positional digits)

theorem denotes_iff_signed {sign : Char} {digits : List Char} {i : Int} :
    Denotes (sign :: digits) i ↔
      Digit.isDigit sign ∧ (∀ c ∈ digits, Digit.isDigit c) ∧ i = signed sign digits := by
  rw [signed, Digit.value_eq_positional]
  constructor
  · rintro (⟨rfl | rfl, hdigits⟩ | ⟨rfl | rfl, hdigits⟩)
    all_goals exact ⟨rfl, hdigits, rfl⟩
  · rintro ⟨hsign, hdigits, rfl⟩
    rcases Digit.isDigit_iff.mp hsign with rfl | rfl | rfl | rfl
    · exact .negative (Or.inl rfl) hdigits
    · exact .positive (Or.inl rfl) hdigits
    · exact .negative (Or.inr rfl) hdigits
    · exact .positive (Or.inr rfl) hdigits

theorem Denotes.exists_cons {text : List Char} {i : Int} (h : Denotes text i) :
    ∃ sign digits, text = sign :: digits := by
  cases h with
  | positive | negative => exact ⟨_, _, rfl⟩

/-! ## Reading by what a text denotes -/

/-- What reading a text comes to, said of the text alone. -/
inductive ReadsAs (text : List Char) : Except Error Value → Prop
  | empty (h : text = []) : ReadsAs text (.error .empty)
  | sign {c : Char} (h : text.head? = some c) (hc : ¬ Digit.isDigit c) :
      ReadsAs text (.error (.sign c))
  | digits {sign c : Char} {rest : List Char} (h : text = sign :: rest)
      (hsign : Digit.isDigit sign) (hmem : c ∈ rest) (hc : ¬ Digit.isDigit c) :
      ReadsAs text (.error (.digits (String.ofList rest)))
  | range {sign : Char} {rest : List Char} {i : Int} (h : text = sign :: rest)
      (hi : Denotes text i) (hout : ¬ (-2 ^ 63 ≤ i ∧ i < 2 ^ 63)) :
      ReadsAs text (.error (.range (String.ofList rest)))
  | value {v : Value} (h : Denotes text v.toInt) : ReadsAs text (.ok v)

/-- An integer is the integer of some value exactly if 64 bits hold it. -/
theorem exists_toInt_iff {i : Int} : (∃ v : Value, v.toInt = i) ↔ -2 ^ 63 ≤ i ∧ i < 2 ^ 63 := by
  constructor
  · rintro ⟨v, rfl⟩
    exact ⟨Int64.le_toInt v, Int64.toInt_lt v⟩
  · rintro ⟨hlo, hhi⟩
    exact ⟨Int64.ofInt i, Int64.toInt_ofInt_of_le hlo hhi⟩

theorem exists_readsAs (text : List Char) : ∃ r, ReadsAs text r := by
  cases text with
  | nil => exact ⟨_, .empty rfl⟩
  | cons sign digits =>
    by_cases hsign : Digit.isDigit sign
    · by_cases hdigits : ∀ c ∈ digits, Digit.isDigit c
      · have hdenotes := denotes_iff_signed.mpr ⟨hsign, hdigits, rfl⟩
        by_cases hrange : -2 ^ 63 ≤ signed sign digits ∧ signed sign digits < 2 ^ 63
        · obtain ⟨v, hv⟩ := exists_toInt_iff.mpr hrange
          rw [← hv] at hdenotes
          exact ⟨_, .value hdenotes⟩
        · exact ⟨_, .range rfl hdenotes hrange⟩
      · obtain ⟨c, hmem, hc⟩ : ∃ c ∈ digits, ¬ Digit.isDigit c := by simpa using hdigits
        exact ⟨_, .digits rfl hsign hmem hc⟩
    · exact ⟨_, .sign rfl hsign⟩

theorem ReadsAs.read_eq {text : List Char} {r : Except Error Value} (h : ReadsAs text r) :
    read text = r := by
  cases h with
  | empty h =>
    rw [h]
    rfl
  | sign h hc =>
    obtain ⟨rest, rfl⟩ := List.head?_eq_some_iff.mp h
    rw [read, if_pos (by simpa using hc)]
  | @digits sign c rest h hsign hmem hc =>
    subst h
    have hdigits : ¬ rest.all Digit.isDigit = true := fun hall =>
      hc (List.all_eq_true.mp hall c hmem)
    rw [read, if_neg (by simpa using hsign), if_pos (by simpa using hdigits)]
  | @range sign rest i h hi hout =>
    subst h
    obtain ⟨hsign, hdigits, rfl⟩ := denotes_iff_signed.mp hi
    have hvalue : Value.ofInt? (signed sign rest) = none := by
      rw [Value.ofInt?_eq_none_iff, Value.least, Value.greatest]
      omega
    rw [read, if_neg (by simpa using hsign), if_neg (by simpa using hdigits), hvalue]
  | value h =>
    obtain ⟨sign, digits, rfl⟩ := h.exists_cons
    obtain ⟨hsign, hdigits, hv⟩ := denotes_iff_signed.mp h
    rw [read, if_neg (by simpa using hsign), if_neg (by simpa using hdigits),
      Value.ofInt?_eq_some_iff.mpr hv]

/-- Reading comes to what the text says, as every text says something. -/
theorem read_eq_iff {text : List Char} {r : Except Error Value} :
    read text = r ↔ ReadsAs text r := by
  constructor
  · rintro rfl
    obtain ⟨r, hr⟩ := exists_readsAs text
    rw [hr.read_eq]
    exact hr
  · exact ReadsAs.read_eq

theorem read_eq_ok_iff {text : List Char} {v : Value} :
    read text = .ok v ↔ Denotes text v.toInt := by
  rw [read_eq_iff]
  constructor
  · intro h
    cases h with
    | value h => exact h
  · exact .value

/-! ## Reading in one word -/

/-- The word with one more digit behind those that it holds. Both the product and the sum have to
fit. -/
def pushDigit? (w : UInt64) (c : Char) : Option UInt64 :=
  if w.toNat * 4 < UInt64.size then
    if (w * 4).toNat + Digit.number c < UInt64.size then
      some (w * 4 + UInt64.ofNat (Digit.number c))
    else
      none
  else
    none

/-- Does what `read` does, with the magnitude in a word. -/
def readInWord : List Char → Except Error Value
  | [] => .error .empty
  | sign :: digits =>
    if !Digit.isDigit sign then
      .error (.sign sign)
    else if !digits.all Digit.isDigit then
      .error (.digits (String.ofList digits))
    else
      let value? := do
        let w ← digits.foldlM pushDigit? 0
        Value.ofInt? (if isNegative sign then -w.toNat else w.toNat)
      match value? with
      | some v => .ok v
      | none => .error (.range (String.ofList digits))

theorem pushDigit?_eq (w : UInt64) (c : Char) :
    pushDigit? w c =
      if 4 * w.toNat + Digit.number c < UInt64.size then
        some (UInt64.ofNat (4 * w.toNat + Digit.number c))
      else none := by
  unfold pushDigit?
  by_cases hproduct : w.toNat * 4 < UInt64.size
  · have hword : (w * 4).toNat = 4 * w.toNat := by
      rw [UInt64.toNat_mul, Nat.mul_comm]
      exact Nat.mod_eq_of_lt (by rw [Nat.mul_comm]; exact hproduct)
    rw [if_pos hproduct, hword]
    congr 2
    rw [UInt64.ofNat_add, UInt64.ofNat_mul, UInt64.ofNat_toNat, UInt64.mul_comm]
    rfl
  · rw [if_neg hproduct, if_neg (by omega)]

/-- A word takes in a row of digits exactly if it holds the number that they make in the end. -/
theorem foldlM_pushDigit? (digits : List Char) (w : UInt64) :
    digits.foldlM pushDigit? w =
      if Nat.ofDigitChars 4 digits w.toNat < UInt64.size then
        some (UInt64.ofNat (Nat.ofDigitChars 4 digits w.toNat))
      else none := by
  induction digits generalizing w with
  | nil =>
    rw [Nat.ofDigitChars_nil, if_pos w.toNat_lt, UInt64.ofNat_toNat]
    rfl
  | cons c rest ih =>
    rw [List.foldlM_cons, pushDigit?_eq, Nat.ofDigitChars_cons]
    change (_ : Option UInt64).bind _ = _
    rw [← Digit.number]
    by_cases hnext : 4 * w.toNat + Digit.number c < UInt64.size
    · rw [if_pos hnext, Option.bind_some, ih, UInt64.toNat_ofNat_of_lt' hnext]
    · have hgrown := Digit.le_ofDigitChars rest (4 * w.toNat + Digit.number c)
      rw [if_neg hnext, if_neg (by omega)]
      rfl

theorem readInWord_eq_read (text : List Char) : readInWord text = read text := by
  cases text with
  | nil => rfl
  | cons sign digits =>
    have hvalue : (digits.foldlM pushDigit? 0).bind (fun w : UInt64 =>
        Value.ofInt? (if isNegative sign then -w.toNat else w.toNat)) =
          Value.ofInt? (signed sign digits) := by
      rw [foldlM_pushDigit?, UInt64.toNat_zero, ← Digit.value]
      by_cases hfits : Digit.value digits < UInt64.size
      · rw [if_pos hfits, Option.bind_some, UInt64.toNat_ofNat_of_lt' hfits, signed]
      · have hout : Value.ofInt? (signed sign digits) = none := by
          rw [Value.ofInt?_eq_none_iff, Value.least, Value.greatest, signed]
          change ¬ Digit.value digits < 18446744073709551616 at hfits
          split <;> omega
        rw [if_neg hfits, hout]
        rfl
    rw [readInWord, read, ← hvalue]
    rfl

/-! ## Exactness -/

/-- What there is to say about reading a numeral on a line: which result it has, by the text. -/
structure ReadsExactly (text : List Char) (line : Nat) (result : Except SourceError Value) :
    Prop where
  empty : result = .error ⟨line, .empty⟩ ↔ text = []
  sign : ∀ c, result = .error ⟨line, .sign c⟩ ↔ text.head? = some c ∧ ¬ Digit.isDigit c
  digits : ∀ shown, result = .error ⟨line, .digits shown⟩ ↔
    ∃ sign rest, text = sign :: rest ∧ shown = String.ofList rest ∧ Digit.isDigit sign ∧
      ∃ c ∈ rest, ¬ Digit.isDigit c
  value : ∀ v, result = .ok v ↔ Denotes text v.toInt
  /-- Of what a text denotes, all that 64 bits hold is read. -/
  inRange : ∀ i, Denotes text i →
    (-2 ^ 63 ≤ i ∧ i < 2 ^ 63 ↔ ∃ v : Value, v.toInt = i ∧ result = .ok v)
  range : ∀ shown, result = .error ⟨line, .range shown⟩ ↔
    ∃ sign rest i, text = sign :: rest ∧ shown = String.ofList rest ∧ Denotes text i ∧
      ¬ (-2 ^ 63 ≤ i ∧ i < 2 ^ 63)
  line : ∀ e, result = .error e → e.line = line

theorem readAt_eq_ok_iff {text : List Char} {line : Nat} {v : Value} :
    readAt text line = .ok v ↔ Denotes text v.toInt := by
  rw [readAt, SourceError.mapError_eq_ok_iff, read_eq_ok_iff]

theorem readAt_eq_error_iff {text : List Char} {line : Nat} {e : SourceError} :
    readAt text line = .error e ↔ e.line = line ∧ ReadsAs text (.error e.cause) := by
  rw [readAt, SourceError.mapError_eq_error_iff, read_eq_iff]

theorem readsExactly_readAt (text : List Char) (line : Nat) :
    ReadsExactly text line (readAt text line) where
  empty := by
    rw [readAt_eq_error_iff]
    constructor
    · rintro ⟨-, h⟩
      cases h with
      | empty h => exact h
    · intro h
      exact ⟨rfl, .empty h⟩
  sign := by
    intro c
    rw [readAt_eq_error_iff]
    constructor
    · rintro ⟨-, h⟩
      cases h with
      | sign h hc => exact ⟨h, hc⟩
    · rintro ⟨h, hc⟩
      exact ⟨rfl, .sign h hc⟩
  digits := by
    intro shown
    rw [readAt_eq_error_iff]
    constructor
    · rintro ⟨-, h⟩
      cases h with
      | digits h hsign hmem hc => exact ⟨_, _, h, rfl, hsign, _, hmem, hc⟩
    · rintro ⟨sign, rest, h, rfl, hsign, c, hmem, hc⟩
      exact ⟨rfl, .digits h hsign hmem hc⟩
  value := fun v => readAt_eq_ok_iff
  inRange := by
    intro i hi
    rw [← exists_toInt_iff]
    constructor
    · rintro ⟨v, rfl⟩
      exact ⟨v, rfl, readAt_eq_ok_iff.mpr hi⟩
    · rintro ⟨v, hv, -⟩
      exact ⟨v, hv⟩
  range := by
    intro shown
    rw [readAt_eq_error_iff]
    constructor
    · rintro ⟨-, h⟩
      cases h with
      | range h hi hout => exact ⟨_, _, _, h, rfl, hi, hout⟩
    · rintro ⟨sign, rest, i, h, rfl, hi, hout⟩
      exact ⟨rfl, .range h hi hout⟩
  line := fun e h => (readAt_eq_error_iff.mp h).1

/-- Reading a numeral gives what it denotes, if 64 bits hold that, and otherwise the one error that
its text has; every error is on the line of the numeral. A single word of 64 bits is enough for
it, however long the numeral is. -/
theorem readAt_exact (text : List Char) (line : Nat) :
    ReadsExactly text line (readAt text line) ∧ readInWord text = read text :=
  ⟨readsExactly_readAt text line, readInWord_eq_read text⟩

end Numeral

end Quaternary
