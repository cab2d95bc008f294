import Quaternary.Proofs.Machine.Step

/-!
# Quotients rounded down

The quotient of `a` by `b` is the integer `q` for which `a` lies between `q * b` and `(q + 1) * b`,
the first included (`FloorQuotient`). A division of values gives this quotient, unless the divisor
is zero or the quotient is one more than the greatest value. The latter happens for one pair of
values only, the least one and `-1`.

A machine divides otherwise: it rounds to zero, and then goes down by one where the remainder is not
zero and the signs differ (`Arith.divideInSteps`). The remainder is not defined where the quotient
is no value, and the step down might lead below the least value. Neither happens. The remainder is
computed after the quotient, and a quotient that is the least value leaves no remainder.
-/

namespace Quaternary

/-- `q` is the quotient of `a` by `b`, rounded down. -/
def FloorQuotient (a b q : Int) : Prop :=
  0 < b ∧ q * b ≤ a ∧ a < (q + 1) * b ∨ b < 0 ∧ a ≤ q * b ∧ (q + 1) * b < a

theorem floorQuotient_neg_neg {a b q : Int} : FloorQuotient (-a) (-b) q ↔ FloorQuotient a b q := by
  simp only [FloorQuotient, Int.mul_neg]
  omega

theorem floorQuotient_iff_of_pos {a b q : Int} (hb : 0 < b) :
    FloorQuotient a b q ↔ a.fdiv b = q := by
  rw [Int.fdiv_eq_ediv_of_nonneg a (Int.le_of_lt hb)]
  constructor
  · rintro (⟨-, hlow, hhigh⟩ | ⟨hneg, -⟩)
    · have hle := Int.le_ediv_of_mul_le hb hlow
      have hlt := Int.ediv_lt_of_lt_mul hb hhigh
      omega
    · omega
  · rintro rfl
    exact Or.inl ⟨hb, Int.ediv_mul_le a (by omega), Int.lt_ediv_add_one_mul_self a hb⟩

theorem floorQuotient_iff {a b q : Int} (hb : b ≠ 0) : FloorQuotient a b q ↔ a.fdiv b = q := by
  rcases Int.lt_or_gt_of_ne hb with hneg | hpos
  · rw [← floorQuotient_neg_neg, floorQuotient_iff_of_pos (by omega), Int.neg_fdiv_neg]
  · exact floorQuotient_iff_of_pos hpos

/-- `q` is the quotient of `a` by `b` rounded to zero: what it leaves of `a` is smaller than `b` in
size, and has the sign of `a` if it has any. -/
structure Truncation (a b q r : Int) : Prop where
  sum : b * q + r = a
  small : r.natAbs < b.natAbs
  pos : 0 < r → 0 < a
  neg : r < 0 → a < 0

theorem truncation_tdiv {a b : Int} (hb : b ≠ 0) : Truncation a b (a.tdiv b) (a.tmod b) := by
  have hsign := Int.sign_tmod a b
  refine ⟨Int.mul_tdiv_add_tmod a b, ?_, ?_, ?_⟩
  · rw [Int.natAbs_tmod]
    exact Nat.mod_lt _ (Int.natAbs_pos.mpr hb)
  · intro hpos
    rw [Int.sign_eq_one_of_pos hpos] at hsign
    split at hsign
    · omega
    · exact Int.sign_eq_one_iff_pos.mp hsign.symm
  · intro hneg
    rw [Int.sign_eq_neg_one_of_neg hneg] at hsign
    split at hsign
    · omega
    · exact Int.sign_eq_neg_one_iff_neg.mp hsign.symm

/-- If something is left and the signs differ, rounding to zero has been rounding up. -/
theorem Truncation.floorQuotient {a b q r : Int} (h : Truncation a b q r) :
    FloorQuotient a b (if r ≠ 0 ∧ ¬ (a < 0 ↔ b < 0) then q - 1 else q) := by
  obtain ⟨hsum, hsmall, hpos, hneg⟩ := h
  rw [Int.mul_comm] at hsum
  unfold FloorQuotient
  split
  · rw [Int.sub_add_cancel, Int.sub_mul, Int.one_mul]
    omega
  · rw [Int.add_mul, Int.one_mul]
    omega

/-! ## The arithmetic of values -/

namespace Arith

variable {f : Arith} {a b q : Value}

theorem apply_eq_divisionByZero_iff : f.apply a b = .error .divisionByZero ↔ f = .div ∧ b = 0 := by
  unfold apply
  by_cases hzero : f = .div ∧ b = 0
  · rw [if_pos hzero]
    exact iff_of_true rfl hzero
  · rw [if_neg hzero]
    refine iff_of_false ?_ hzero
    cases Value.ofInt? (f.exact a.toInt b.toInt) <;> simp

/-- An operation overflows if its exact result is no value. -/
theorem apply_eq_overflow_iff :
    f.apply a b = .error .overflow ↔ ¬ (f = .div ∧ b = 0) ∧
      (f.exact a.toInt b.toInt < Value.least ∨ Value.greatest < f.exact a.toInt b.toInt) := by
  rw [← Value.ofInt?_eq_none_iff]
  unfold apply
  by_cases hzero : f = .div ∧ b = 0
  · rw [if_pos hzero]
    simp [hzero]
  · rw [if_neg hzero]
    cases Value.ofInt? (f.exact a.toInt b.toInt) <;> simp [hzero]

theorem apply_eq_ok_iff {v : Value} :
    f.apply a b = .ok v ↔ ¬ (f = .div ∧ b = 0) ∧ v.toInt = f.exact a.toInt b.toInt := by
  rw [← Value.ofInt?_eq_some_iff]
  unfold apply
  by_cases hzero : f = .div ∧ b = 0
  · rw [if_pos hzero]
    simp [hzero]
  · rw [if_neg hzero]
    cases Value.ofInt? (f.exact a.toInt b.toInt) <;> simp [hzero]

/-! ## Division in steps -/

/-- A part of a division that is used where its result is no value. -/
inductive DivisionTrap where
  | remainder
  | correction
  deriving DecidableEq, Repr

/-- The quotient rounded to zero, if it is a value. -/
def truncated? (a b : Value) : Option Value :=
  if b = 0 then none else Value.ofInt? (a.toInt.tdiv b.toInt)

/-- What the quotient rounded to zero leaves of `a`. It traps where there is no such quotient. -/
def remainder (a b : Value) : Except DivisionTrap Value :=
  match truncated? a b with
  | some _ => .ok (a % b)
  | none => .error .remainder

/-- The next lower quotient. -/
def corrected (q : Value) : Except DivisionTrap Value :=
  match Value.ofInt? (q.toInt - 1) with
  | some v => .ok v
  | none => .error .correction

/-- Divides by rounding to zero and correcting the result. -/
def divideInSteps (a b : Value) : Except DivisionTrap (Except Error Value) :=
  if b = 0 then
    .ok (.error .divisionByZero)
  else
    match truncated? a b with
    | none => .ok (.error .overflow)
    | some q => do
      let r ← remainder a b
      if r ≠ 0 ∧ ¬ (a.toInt < 0 ↔ b.toInt < 0) then
        let v ← corrected q
        return .ok v
      else
        return .ok q

/-- Only the quotient of the least value by `-1` is too large. -/
theorem truncated?_eq_none_iff (hb : b ≠ 0) :
    truncated? a b = none ↔ a.toInt = Value.least ∧ b.toInt = -1 := by
  rw [truncated?, if_neg hb, Value.ofInt?_eq_none_iff]
  have hsmaller := Int.natAbs_tdiv_le_natAbs a.toInt b.toInt
  have hlow := Value.least_le_toInt a
  have hhigh := Value.toInt_le_greatest a
  obtain ⟨hsum, hsmall, -, -⟩ := truncation_tdiv (a := a.toInt) (mt Value.eq_zero_iff.mpr hb)
  unfold Value.least Value.greatest at *
  constructor
  · intro hout
    -- no quotient is larger than its dividend, so both are at the limit
    have hdividend : a.toInt = -9223372036854775808 := by omega
    have hquotient : a.toInt.tdiv b.toInt = 9223372036854775808 := by omega
    rw [hquotient] at hsum
    omega
  · rintro ⟨ha, hb⟩
    rw [ha, hb]
    decide

/-- A quotient that is the least value leaves no remainder. -/
theorem least_lt_of_remainder (hb : b ≠ 0) (hq : truncated? a b = some q)
    (hr : a.toInt.tmod b.toInt ≠ 0) : Value.least < q.toInt := by
  rw [truncated?, if_neg hb, Value.ofInt?_eq_some_iff] at hq
  have hleast := Value.least_le_toInt q
  have hlow := Value.least_le_toInt a
  have hhigh := Value.toInt_le_greatest a
  obtain ⟨hsum, hsmall, -, -⟩ := truncation_tdiv (a := a.toInt) (mt Value.eq_zero_iff.mpr hb)
  rw [← hq] at hsum
  unfold Value.least Value.greatest at *
  have hne : q.toInt ≠ -9223372036854775808 := by
    intro heq
    rw [heq] at hsum
    omega
  omega

theorem remainder_of_truncated (hq : truncated? a b = some q) : remainder a b = .ok (a % b) := by
  rw [remainder, hq]

/-- Where the quotient rounded to zero is a value, so is the quotient rounded down, and the division
comes to it in its steps. -/
theorem divideInSteps_of_truncated (hb : b ≠ 0) (hq : truncated? a b = some q) :
    ∃ v : Value, FloorQuotient a.toInt b.toInt v.toInt ∧ divideInSteps a b = .ok (.ok v) := by
  have hfloor := (truncation_tdiv (a := a.toInt) (mt Value.eq_zero_iff.mpr hb)).floorQuotient
  have hquotient : q.toInt = a.toInt.tdiv b.toInt := by
    rw [truncated?, if_neg hb] at hq
    exact Value.ofInt?_eq_some_iff.mp hq
  have hrest : a % b ≠ 0 ↔ a.toInt.tmod b.toInt ≠ 0 := by
    rw [← Int64.toInt_mod, Ne, Ne, Value.eq_zero_iff]
  rw [← hquotient] at hfloor
  rw [divideInSteps, if_neg hb, hq]
  simp only [remainder_of_truncated hq, bind, Except.bind, pure, Except.pure, hrest]
  split at hfloor
  · next hcorrected =>
    obtain ⟨v, hv⟩ : ∃ v, Value.ofInt? (q.toInt - 1) = some v := by
      have hleast := least_lt_of_remainder hb hq hcorrected.1
      have hgreatest := Value.toInt_le_greatest q
      rw [← Option.ne_none_iff_exists', Ne, Value.ofInt?_eq_none_iff]
      omega
    refine ⟨v, ?_, ?_⟩
    · rw [Value.ofInt?_eq_some_iff.mp hv]
      exact hfloor
    · rw [if_pos hcorrected, corrected, hv]
  · next huncorrected => exact ⟨q, hfloor, by rw [if_neg huncorrected]⟩

theorem apply_div_of_floorQuotient {v : Value} (hb : b ≠ 0)
    (h : FloorQuotient a.toInt b.toInt v.toInt) : Arith.div.apply a b = .ok v := by
  rw [apply_eq_ok_iff]
  exact ⟨fun hzero => hb hzero.2, ((floorQuotient_iff (mt Value.eq_zero_iff.mpr hb)).mp h).symm⟩

theorem apply_div_eq_overflow_iff :
    Arith.div.apply a b = .error .overflow ↔ a.toInt = Value.least ∧ b.toInt = -1 := by
  by_cases hb : b = 0
  · subst hb
    refine iff_of_false ?_ ?_
    · rw [apply_eq_divisionByZero_iff.mpr ⟨rfl, rfl⟩]
      simp
    · rintro ⟨-, hneg⟩
      cases hneg
  · rw [← truncated?_eq_none_iff hb]
    cases hq : truncated? a b with
    | some q =>
      obtain ⟨v, hv, -⟩ := divideInSteps_of_truncated hb hq
      rw [apply_div_of_floorQuotient hb hv]
      simp
    | none =>
      refine iff_of_true ?_ rfl
      obtain ⟨ha, hb⟩ := (truncated?_eq_none_iff hb).mp hq
      have hleast : a = Int64.ofInt Value.least := Int64.toInt_inj.mp ha
      have hminus : b = -1 := Int64.toInt_inj.mp hb
      rw [hleast, hminus]
      rfl

theorem divideInSteps_eq_ok (a b : Value) : divideInSteps a b = .ok (Arith.div.apply a b) := by
  by_cases hb : b = 0
  · rw [divideInSteps, if_pos hb, apply_eq_divisionByZero_iff.mpr ⟨rfl, hb⟩]
  · cases hq : truncated? a b with
    | none =>
      rw [divideInSteps, if_neg hb, hq,
        apply_div_eq_overflow_iff.mpr ((truncated?_eq_none_iff hb).mp hq)]
    | some q =>
      obtain ⟨v, hv, hsteps⟩ := divideInSteps_of_truncated hb hq
      rw [hsteps, apply_div_of_floorQuotient hb hv]

/-- A division has the quotient rounded down, which both operations that divide leave in place of
their operands, unless the divisor is zero or the quotient is no value. A division in steps comes to
the same without a trap. -/
theorem division_floors (a b : Value) :
    (Arith.div.apply a b = .error .divisionByZero ↔ b = 0) ∧
    (Arith.div.apply a b = .error .overflow ↔ a.toInt = Value.least ∧ b.toInt = -1) ∧
    (b ≠ 0 → ¬ (a.toInt = Value.least ∧ b.toInt = -1) →
      ∃ q : Value, (∀ r : Int, FloorQuotient a.toInt b.toInt r ↔ r = q.toInt) ∧
        Arith.div.apply a b = .ok q ∧
        ∀ (counter : Int) (rest : Stack) (sink : Sink),
          (Op.binary .div).execute counter (a :: b :: rest) sink =
              ⟨.ok (counter + 1), q :: rest, sink⟩ ∧
            (Op.immediate .div b).execute counter (a :: rest) sink =
              ⟨.ok (counter + 1), q :: rest, sink⟩) ∧
    divideInSteps a b = .ok (Arith.div.apply a b) := by
  refine ⟨?_, apply_div_eq_overflow_iff, ?_, divideInSteps_eq_ok a b⟩
  · rw [apply_eq_divisionByZero_iff]
    exact and_iff_right rfl
  · intro hb hfits
    obtain ⟨q, hq⟩ : ∃ q, truncated? a b = some q := by
      rw [← Option.ne_none_iff_exists', Ne, truncated?_eq_none_iff hb]
      exact hfits
    obtain ⟨v, hv, -⟩ := divideInSteps_of_truncated hb hq
    have happly := apply_div_of_floorQuotient hb hv
    refine ⟨v, ?_, happly, ?_⟩
    · intro r
      rw [floorQuotient_iff (mt Value.eq_zero_iff.mpr hb)] at hv ⊢
      rw [hv]
      exact eq_comm
    · intro counter rest sink
      rw [Op.execute_binary, Op.execute_immediate, Op.execute.compute, Op.execute.compute, happly]
      exact ⟨rfl, rfl⟩

/-- The least value by two, which leaves nothing, and seven by minus two, which is corrected. -/
theorem division_floors_least :
    (Op.binary .div).execute 4 [Int64.ofInt Value.least, 2, 9] {} =
        ⟨.ok 5, [-4611686018427387904, 9], {}⟩ ∧
      (Op.immediate .div (-2)).execute 4 [7, 9] {} = ⟨.ok 5, [-4, 9], {}⟩ ∧
      FloorQuotient 7 (-2) (-4) := by
  obtain ⟨q, hq, happly, hexec⟩ :=
    (division_floors (Int64.ofInt Value.least) 2).2.2.1 (by decide) (by decide)
  obtain ⟨q', hq', happly', hexec'⟩ := (division_floors 7 (-2)).2.2.1 (by decide) (by decide)
  cases happly
  cases happly'
  exact ⟨(hexec 4 [9] {}).1, (hexec' 4 [9] {}).2, (hq' (-4)).mpr rfl⟩

end Arith

end Quaternary
