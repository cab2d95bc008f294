import Quaternary.Proofs.Numeral.Exactness
import Quaternary.Proofs.Program.RoundTrip

/-!
# The grammar of a line

Without its blanks, a line is empty, has no tag, or begins with the tag of an opcode. A tag of an
operation is followed by a numeral where the operation has an argument (`Op.Spelled`); only the
count of a reversal may be left out. `Line.HasForm` gives a case to every kind of line, and
`Line.ofStripped_eq_iff` says that these are all, and that no line is of two kinds: the table of
tags, the opcodes that take an argument and the operations that hold one fit together.

The text after a tag is of use only where an argument is taken, so that an operation without an
argument, like a comment, may be followed by anything.
-/

namespace Quaternary

/-! ## Tags and arguments -/

theorem Opcode.exists_tag {a b : Char} (ha : Digit.isDigit a = true)
    (hb : Digit.isDigit b = true) : ∃ o : Opcode, [a, b] = o.tag := by
  have hlt : Digit.value [a, b] < all.length := Digit.value_lt (by simp [ha, hb])
  have htag : ofTag? [a, b] = some all[Digit.value [a, b]] := by
    rw [ofTag?, if_pos (by simp [ha, hb]), List.getElem?_eq_getElem hlt]
  exact ⟨_, ofTag?_eq_some_iff.mp htag⟩

/-- Where an argument is taken and not left out, it is a numeral. -/
theorem Opcode.read_argument {o : Opcode} {text : List Char} (h : o.argument ≠ .none)
    (hdefault : ¬ (o = .reverse ∧ text = [])) : o.argument.read text = Numeral.read text := by
  cases o with
  | binary f | print | printChar | dup | comment => exact absurd rfl h
  | immediate f | jump c | load => rfl
  | reverse =>
    cases text with
    | nil => exact absurd ⟨rfl, rfl⟩ hdefault
    | cons c rest => rfl

/-- Every opcode but the comment is that of an operation, with any argument if it takes one. -/
theorem Opcode.exists_op {o : Opcode} (h : o ≠ .comment) (v : Value) :
    ∃ op : Op, op.opcode = o ∧ (o.argument ≠ .none → op.argument? = some v) := by
  cases o with
  | binary f => exact ⟨.binary f, rfl, fun h => absurd rfl h⟩
  | immediate f => exact ⟨.immediate f v, rfl, fun _ => rfl⟩
  | print => exact ⟨.print, rfl, fun h => absurd rfl h⟩
  | jump c => exact ⟨.jump c v, rfl, fun _ => rfl⟩
  | dup => exact ⟨.dup, rfl, fun h => absurd rfl h⟩
  | reverse => exact ⟨.reverse v, rfl, fun _ => rfl⟩
  | printChar => exact ⟨.printChar, rfl, fun h => absurd rfl h⟩
  | load => exact ⟨.load v, rfl, fun _ => rfl⟩
  | comment => exact absurd rfl h

theorem Op.argument_opcode_eq_none_iff {op : Op} :
    op.opcode.argument = .none ↔ op.argument? = none := by
  cases op <;> simp [opcode, Opcode.argument, argument?]

/-- The opcode of an operation makes that operation of its argument. -/
theorem Op.line_opcode {op : Op} {v : Value} (h : ∀ w ∈ op.argument?, w = v) :
    op.opcode.line v = .operation op := by
  cases op with
  | binary f | print | dup | printChar => rfl
  | immediate f w | jump c w | reverse w | load w =>
    obtain rfl : w = v := h w rfl
    rfl

/-- The text, which has no blanks, is one for the operation. -/
def Op.Spelled (op : Op) (text : List Char) : Prop :=
  ∃ argument, text = op.opcode.tag ++ argument ∧
    (op.argument? = none ∨ (∃ v, op.argument? = some v ∧ Numeral.Denotes argument v.toInt) ∨
      argument = [] ∧ op = .reverse 2)

namespace Line

/-- The text has a single character, or its first two are not both digits. -/
def Tagless (text : List Char) : Prop :=
  text.length = 1 ∨ ∃ a b rest, text = a :: b :: rest ∧ ¬ (Digit.isDigit a ∧ Digit.isDigit b)

/-- The text is a tag and an argument that is taken, but is neither a numeral of a value nor the
count that may be left out. -/
structure Misspelled (text : List Char) (o : Opcode) (argument : List Char) : Prop where
  text_eq : text = o.tag ++ argument
  taken : o.argument ≠ .none
  given : ¬ (o = .reverse ∧ argument = [])
  noValue : ¬ ∃ v : Value, Numeral.Denotes argument v.toInt

/-- What a text without blanks is as a line. -/
inductive HasForm (text : List Char) : Except Numeral.Error Line → Prop
  | blank (h : text = []) : HasForm text (.ok .blank)
  | unrecognized (h : Tagless text) : HasForm text (.ok (.unrecognized (String.ofList text)))
  | comment {rest : List Char} (h : text = Opcode.comment.tag ++ rest) : HasForm text (.ok .comment)
  | operation {op : Op} (h : op.Spelled text) : HasForm text (.ok (.operation op))
  | misspelled {o : Opcode} {argument : List Char} {cause : Numeral.Error}
      (h : Misspelled text o argument) (hcause : Numeral.read argument = .error cause) :
      HasForm text (.error cause)

theorem exists_hasForm_tag_append (o : Opcode) (argument : List Char) :
    ∃ result, HasForm (o.tag ++ argument) result := by
  by_cases hcomment : o = .comment
  · exact ⟨_, .comment (by rw [hcomment])⟩
  by_cases hnone : o.argument = .none
  · obtain ⟨op, rfl, -⟩ := Opcode.exists_op hcomment 0
    have hop := Op.argument_opcode_eq_none_iff.mp hnone
    exact ⟨_, .operation ⟨argument, rfl, Or.inl hop⟩⟩
  by_cases hdefault : o = .reverse ∧ argument = []
  · obtain ⟨rfl, rfl⟩ := hdefault
    exact ⟨.ok (.operation (.reverse 2)), .operation ⟨[], rfl, Or.inr (Or.inr ⟨rfl, rfl⟩)⟩⟩
  cases hread : Numeral.read argument with
  | ok v =>
    obtain ⟨op, rfl, htaken⟩ := Opcode.exists_op hcomment v
    have hv := Numeral.read_eq_ok_iff.mp hread
    exact ⟨_, .operation ⟨argument, rfl, Or.inr (Or.inl ⟨v, htaken hnone, hv⟩)⟩⟩
  | error cause =>
    refine ⟨_, .misspelled ⟨rfl, hnone, hdefault, ?_⟩ hread⟩
    rintro ⟨v, hv⟩
    rw [Numeral.read_eq_ok_iff.mpr hv] at hread
    cases hread

theorem exists_hasForm (text : List Char) : ∃ result, HasForm text result := by
  rcases text with _ | ⟨a, _ | ⟨b, rest⟩⟩
  · exact ⟨_, .blank rfl⟩
  · exact ⟨_, .unrecognized (Or.inl rfl)⟩
  · by_cases hdigits : Digit.isDigit a = true ∧ Digit.isDigit b = true
    · obtain ⟨o, htag⟩ := Opcode.exists_tag hdigits.1 hdigits.2
      have htext : a :: b :: rest = o.tag ++ rest := by
        rw [← htag]
        rfl
      rw [htext]
      exact exists_hasForm_tag_append o rest
    · exact ⟨_, .unrecognized (Or.inr ⟨a, b, rest, rfl, hdigits⟩)⟩

theorem ofStripped_of_tagless {text : List Char} (h : Tagless text) :
    ofStripped text = .ok (.unrecognized (String.ofList text)) := by
  have hne : text ≠ [] := by
    rcases h with h | ⟨a, b, rest, rfl, -⟩
    · rintro rfl
      cases h
    · simp
  have htag : Opcode.ofTag? (text.take 2) = none := by
    rcases h with h | ⟨a, b, rest, rfl, hdigits⟩
    · rw [Opcode.ofTag?, if_neg (by simp [h])]
    · rw [Opcode.ofTag?, if_neg (by simpa using hdigits)]
  rw [ofStripped, if_neg hne, htag]

theorem ofStripped_of_spelled {op : Op} {text : List Char} (h : op.Spelled text) :
    ofStripped text = .ok (.operation op) := by
  obtain ⟨argument, rfl, hnone | ⟨v, hsome, hv⟩ | ⟨rfl, rfl⟩⟩ := h
  · rw [ofStripped_tag_append, Op.argument_opcode_eq_none_iff.mpr hnone]
    change Except.ok (op.opcode.line 0) = _
    rw [Op.line_opcode (by simp [hnone])]
  · have htaken : op.opcode.argument ≠ .none := by
      rw [Ne, Op.argument_opcode_eq_none_iff, hsome]
      simp
    have hgiven : ¬ (op.opcode = .reverse ∧ argument = []) := by
      rintro ⟨-, rfl⟩
      cases hv
    rw [ofStripped_tag_append, Opcode.read_argument htaken hgiven, Numeral.read_eq_ok_iff.mpr hv]
    change Except.ok (op.opcode.line v) = _
    rw [Op.line_opcode (by simp [hsome])]
  · rfl

theorem HasForm.ofStripped_eq {text : List Char} {result : Except Numeral.Error Line}
    (h : HasForm text result) : ofStripped text = result := by
  cases h with
  | blank h =>
    rw [h]
    rfl
  | unrecognized h => exact ofStripped_of_tagless h
  | comment h =>
    rw [h, ofStripped_tag_append]
    rfl
  | operation h => exact ofStripped_of_spelled h
  | misspelled h hcause =>
    rw [h.text_eq, ofStripped_tag_append, Opcode.read_argument h.taken h.given, hcause]
    rfl

/-- A text without blanks has one form, and it is read so. -/
theorem ofStripped_eq_iff {text : List Char} {result : Except Numeral.Error Line} :
    ofStripped text = result ↔ HasForm text result := by
  constructor
  · rintro rfl
    obtain ⟨result, hresult⟩ := exists_hasForm text
    rw [hresult.ofStripped_eq]
    exact hresult
  · exact HasForm.ofStripped_eq

/-! ## Reading on a line -/

/-- How the result of reading a line follows from its text without blanks. -/
structure FollowsGrammar (text : List Char) (number : Nat) (result : Except SourceError Line) :
    Prop where
  blank : result = .ok .blank ↔ text = []
  comment : result = .ok .comment ↔ ['3', '3'] <+: text
  unrecognized : ∀ shown, result = .ok (.unrecognized shown) ↔
    shown = String.ofList text ∧ Tagless text
  operation : ∀ op, result = .ok (.operation op) ↔ op.Spelled text
  wrong : (∃ e, result = .error e) ↔ ∃ o argument, Misspelled text o argument
  /-- The error is that of the argument as a numeral on the same line. -/
  error : ∀ e, result = .error e ↔
    ∃ o argument, Misspelled text o argument ∧ Numeral.readAt argument number = .error e

variable {text : List Char} {number : Nat}

theorem readAt_eq_ok_iff {line : Line} :
    readAt text number = .ok line ↔ HasForm (Blank.strip text) (.ok line) := by
  rw [readAt, SourceError.mapError_eq_ok_iff, read, ofStripped_eq_iff]

theorem readAt_eq_error_iff {e : SourceError} :
    readAt text number = .error e ↔
      ∃ o argument, Misspelled (Blank.strip text) o argument ∧
        Numeral.readAt argument number = .error e := by
  rw [readAt, SourceError.mapError_eq_error_iff, read, ofStripped_eq_iff]
  constructor
  · rintro ⟨hline, h⟩
    cases h with
    | misspelled h hcause =>
      exact ⟨_, _, h, SourceError.mapError_eq_error_iff.mpr ⟨hline, hcause⟩⟩
  · rintro ⟨o, argument, h, herror⟩
    obtain ⟨hline, hcause⟩ := SourceError.mapError_eq_error_iff.mp herror
    exact ⟨hline, .misspelled h hcause⟩

theorem Misspelled.exists_error {o : Opcode} {argument : List Char}
    (h : Misspelled text o argument) (number : Nat) :
    ∃ e, Numeral.readAt argument number = .error e := by
  cases hread : Numeral.readAt argument number with
  | error e => exact ⟨e, rfl⟩
  | ok v => exact absurd ⟨v, Numeral.readAt_eq_ok_iff.mp hread⟩ h.noValue

theorem followsGrammar_readAt (text : List Char) (number : Nat) :
    FollowsGrammar (Blank.strip text) number (readAt text number) where
  blank := by
    rw [readAt_eq_ok_iff]
    constructor
    · intro h
      cases h with
      | blank h => exact h
    · exact .blank
  comment := by
    rw [readAt_eq_ok_iff]
    constructor
    · intro h
      cases h with
      | comment h => exact ⟨_, h.symm⟩
    · rintro ⟨rest, h⟩
      exact .comment h.symm
  unrecognized := by
    intro shown
    rw [readAt_eq_ok_iff]
    constructor
    · intro h
      cases h with
      | unrecognized h => exact ⟨rfl, h⟩
    · rintro ⟨rfl, h⟩
      exact .unrecognized h
  operation := by
    intro op
    rw [readAt_eq_ok_iff]
    constructor
    · intro h
      cases h with
      | operation h => exact h
    · exact .operation
  wrong := by
    constructor
    · rintro ⟨e, he⟩
      obtain ⟨o, argument, h, -⟩ := readAt_eq_error_iff.mp he
      exact ⟨o, argument, h⟩
    · rintro ⟨o, argument, h⟩
      obtain ⟨e, he⟩ := h.exists_error number
      exact ⟨e, readAt_eq_error_iff.mpr ⟨o, argument, h, he⟩⟩
  error := fun e => readAt_eq_error_iff

end Line

theorem Instruction.ofLine?_eq_some_iff {text : List Char} {number : Nat} {i : Instruction} :
    ofLine? text number = .ok (some i) ↔
      i.line = number ∧ Line.readAt text number = .ok (.operation i.op) := by
  rw [ofLine?]
  cases Line.readAt text number with
  | error e =>
    constructor
    · intro h
      cases h
    · rintro ⟨-, h⟩
      cases h
  | ok line =>
    constructor
    · intro h
      cases line with
      | blank | comment | unrecognized rest => cases h
      | operation op =>
        cases h
        exact ⟨rfl, rfl⟩
    · rintro ⟨rfl, h⟩
      cases h
      rfl

/-- A line is read by its grammar. It gives an instruction exactly if its text without blanks is one
for the operation of the instruction, and the instruction stands on this line. -/
theorem Line.readAt_grammatical (text : List Char) (number : Nat) :
    Line.FollowsGrammar (Blank.strip text) number (Line.readAt text number) ∧
      ∀ i, Instruction.ofLine? text number = .ok (some i) ↔
        i.line = number ∧ i.op.Spelled (Blank.strip text) := by
  refine ⟨followsGrammar_readAt text number, ?_⟩
  intro i
  rw [Instruction.ofLine?_eq_some_iff, (followsGrammar_readAt text number).operation]

end Quaternary
