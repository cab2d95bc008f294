import Quaternary.Program.Listing
import Quaternary.Proofs.Program.Lines

/-!
# Listings read back

The canonical line of an operation reads as that operation (`Line.read_text`): its tag and its
numeral are digits, so that removing the blanks removes exactly the space between them. A
listing puts empty lines before an instruction as long as the running line number is below the
number of the instruction; where it is not, the instruction gets the next free line instead.
Reading a listing therefore changes line numbers only, in the way of `settledLines`, and changes
none exactly if the program is ordered.

The induction over the listing carries the number of the last line written. Line numbers may be
zero, repeated or decreasing in it.
-/

namespace Quaternary

/-! ## Digits are not blank -/

theorem Blank.isBlank_of_isDigit {c : Char} (h : Digit.isDigit c = true) :
    Blank.isBlank c = false := by
  rcases Digit.isDigit_iff.mp h with rfl | rfl | rfl | rfl <;> decide

theorem Blank.strip_append (xs ys : List Char) : strip (xs ++ ys) = strip xs ++ strip ys :=
  List.filter_append xs ys

theorem Blank.strip_of_all_isDigit {text : List Char} (h : text.all Digit.isDigit = true) :
    strip text = text := by
  refine List.filter_eq_self.mpr ?_
  intro c hc
  rw [Blank.isBlank_of_isDigit (List.all_eq_true.mp h c hc)]
  rfl

theorem Opcode.code_lt (o : Opcode) : o.code < 16 := by
  have h := getElem?_code o
  exact (List.getElem?_eq_some_iff.mp h).1

theorem Opcode.all_isDigit_tag (o : Opcode) : o.tag.all Digit.isDigit = true := by
  have hcode := o.code_lt
  have high := Digit.isDigit_digitChar (show o.code / 4 < 4 by omega)
  have low := Digit.isDigit_digitChar (show o.code % 4 < 4 by omega)
  simp [tag, high, low]

theorem Numeral.all_isDigit_write (v : Value) : (write v).all Digit.isDigit = true := by
  have sign : Digit.isDigit (if v.toInt < 0 then '0' else '1') = true := by split <;> rfl
  rw [write, List.all_cons, sign, Digit.all_isDigit_ofNat]
  rfl

/-! ## The canonical line of an operation -/

/-- The argument text in the canonical line of an operation. -/
def Op.argumentText (op : Op) : List Char :=
  match op.argument? with
  | none => []
  | some v => Numeral.write v

theorem Op.all_isDigit_argumentText (op : Op) : op.argumentText.all Digit.isDigit = true := by
  unfold argumentText
  split
  · rfl
  · exact Numeral.all_isDigit_write _

theorem Op.strip_text (op : Op) : Blank.strip op.text = op.opcode.tag ++ op.argumentText := by
  have htag := Blank.strip_of_all_isDigit op.opcode.all_isDigit_tag
  have harg := Blank.strip_of_all_isDigit op.all_isDigit_argumentText
  rw [text, Blank.strip_append, htag]
  unfold argumentText at harg ⊢
  cases hop : op.argument? with
  | none => rfl
  | some v =>
    rw [hop] at harg
    exact congrArg (op.opcode.tag ++ ·) harg

theorem Op.newline_not_mem_text (op : Op) : '\n' ∉ op.text := by
  have hdigit : Digit.isDigit '\n' = false := by decide
  have htag := List.all_eq_true.mp op.opcode.all_isDigit_tag '\n'
  have harg := List.all_eq_true.mp op.all_isDigit_argumentText '\n'
  rw [hdigit] at htag harg
  unfold text argumentText at *
  cases hop : op.argument? with
  | none => simpa [hop] using htag
  | some v =>
    rw [hop] at harg
    simp only [List.mem_append, List.mem_cons, not_or]
    exact ⟨fun h => absurd (htag h) (by decide), by decide, fun h => absurd (harg h) (by decide)⟩

theorem Line.ofStripped_tag_append (o : Opcode) (argument : List Char) :
    ofStripped (o.tag ++ argument) = (o.argument.read argument).map o.line := by
  have htake : (o.tag ++ argument).take 2 = o.tag := rfl
  have hdrop : (o.tag ++ argument).drop 2 = argument := rfl
  have hne : o.tag ++ argument ≠ [] := by simp [Opcode.tag]
  rw [ofStripped, if_neg hne, htake, hdrop, Opcode.ofTag?_tag]

theorem Argument.read_write {a : Argument} (h : a ≠ .none) (v : Value) :
    a.read (Numeral.write v) = .ok v := by
  cases a with
  | none => exact absurd rfl h
  | required => exact Numeral.read_write v
  | optional default => exact Numeral.read_write v

theorem Line.read_text (op : Op) : Line.read op.text = .ok (.operation op) := by
  rw [Line.read, op.strip_text, ofStripped_tag_append]
  cases op with
  | binary f => rfl
  | print => rfl
  | dup => rfl
  | printChar => rfl
  | immediate f v | jump c v | load v | reverse v =>
    change Except.map _ (Argument.read _ (Numeral.write v)) = _
    rw [Argument.read_write (by simp [Op.opcode, Opcode.argument])]
    rfl

namespace Program

/-! ## Settled line numbers -/

/-- The lines on which a listing puts instructions that ask for the given ones, after line
`last`: each on its own line, or on the next free one if that is later. -/
def settledLines (last : Nat) : List Nat → List Nat
  | [] => []
  | line :: rest => max line (last + 1) :: settledLines (max line (last + 1)) rest

def settled (last : Nat) : List Instruction → List Instruction
  | [] => []
  | i :: rest =>
    { i with line := max i.line (last + 1) } :: settled (max i.line (last + 1)) rest

theorem lines_settled (last : Nat) (is : List Instruction) :
    (settled last is).map (·.line) = settledLines last (is.map (·.line)) := by
  induction is generalizing last with
  | nil => rfl
  | cons i rest ih => simp only [settled, settledLines, List.map_cons, ih]

theorem ops_settled (last : Nat) (is : List Instruction) :
    (settled last is).map (·.op) = is.map (·.op) := by
  induction is generalizing last with
  | nil => rfl
  | cons i rest ih => simp only [settled, List.map_cons, ih]

/-- Instructions are settled exactly if their lines increase from above `last` on. -/
theorem settled_eq_self_iff {last : Nat} {is : List Instruction} :
    settled last is = is ↔ (last :: is.map (·.line)).Pairwise (· < ·) := by
  induction is generalizing last with
  | nil => simp [settled]
  | cons i rest ih =>
    rw [List.map_cons, List.pairwise_cons, ← ih, settled, List.cons.injEq]
    constructor
    · rintro ⟨hi, hrest⟩
      have hline : max i.line (last + 1) = i.line := congrArg Instruction.line hi
      rw [hline] at hrest
      refine ⟨?_, hrest⟩
      have hlater := (List.pairwise_cons.mp (ih.mp hrest)).1
      intro line hmem
      rcases List.mem_cons.mp hmem with rfl | hmem
      · omega
      · have := hlater line hmem
        omega
    · rintro ⟨hlater, hrest⟩
      have hi : last < i.line := hlater i.line List.mem_cons_self
      have hline : max i.line (last + 1) = i.line := by omega
      rw [hline]
      exact ⟨rfl, hrest⟩

/-! ## Reading a listing -/

theorem ofLine?_nil (number : Nat) : Instruction.ofLine? [] number = .ok none := rfl

theorem ofLine?_text (op : Op) (number : Nat) :
    Instruction.ofLine? op.text number = .ok (some ⟨number, op⟩) := by
  rw [Instruction.ofLine?, Line.readAt, Line.read_text]
  rfl

theorem instructionsOf_replicate_nil (k number : Nat) :
    instructionsOf ((List.replicate k []).zipIdx number) = .ok [] := by
  induction k generalizing number with
  | zero => rfl
  | succ k ih =>
    rw [List.replicate_succ, List.zipIdx_cons, instructionsOf_cons, ofLine?_nil, ih]
    rfl

/-- Reading a listing from line `last + 1` on gives its instructions on settled lines. The empty
text at the end is what follows the last line feed. -/
theorem instructionsOf_listingLines (last : Nat) (is : List Instruction) :
    instructionsOf ((listingLines (last + 1) is ++ [[]]).zipIdx (last + 1)) =
      .ok (settled last is) := by
  induction is generalizing last with
  | nil => rfl
  | cons i rest ih =>
    -- after the empty lines the running number is the settled line of `i`
    have hnext : last + 1 + (i.line - (last + 1)) = max i.line (last + 1) := by omega
    have hmax : max (last + 1) i.line = max i.line (last + 1) := Nat.max_comm ..
    rw [listingLines, List.append_assoc, List.zipIdx_append, instructionsOf_append,
      instructionsOf_replicate_nil, List.length_replicate, hnext, hmax, List.cons_append,
      List.zipIdx_cons, instructionsOf_cons, ofLine?_text, ih]
    rfl

theorem newline_not_mem_listingLines {next : Nat} {is : List Instruction} :
    ∀ line ∈ listingLines next is, '\n' ∉ line := by
  induction is generalizing next with
  | nil => simp [listingLines]
  | cons i rest ih =>
    intro line hline
    rw [listingLines, List.mem_append, List.mem_cons] at hline
    rcases hline with hblank | rfl | hrest
    · rw [List.eq_of_mem_replicate hblank]
      exact List.not_mem_nil
    · exact i.op.newline_not_mem_text
    · exact ih line hrest

/-- Lines that are each ended by a line feed are cut apart again, with an empty text at the
end. -/
theorem splitOn_flatMap_newline {lines : List (List Char)} (h : ∀ line ∈ lines, '\n' ∉ line) :
    (lines.flatMap (· ++ ['\n'])).splitOn '\n' = lines ++ [[]] := by
  induction lines with
  | nil => rfl
  | cons line rest ih =>
    have hline : '\n' ∉ line := h line List.mem_cons_self
    have hrest := ih fun other hother => h other (List.mem_cons_of_mem line hother)
    rw [List.flatMap_cons, List.append_assoc, List.singleton_append,
      List.splitOn_append_cons_self_of_not_mem hline, hrest, List.cons_append]

theorem numberedLines_listing (p : Program) :
    numberedLines p.listing = (listingLines 1 p.instructions.toList ++ [[]]).zipIdx 1 := by
  rw [numberedLines, listing, String.toList_ofList,
    splitOn_flatMap_newline newline_not_mem_listingLines]

theorem ofSource_listing (p : Program) :
    ofSource p.listing = .ok ⟨(settled 0 p.instructions.toList).toArray⟩ := by
  rw [ofSource_eq_ok_iff, numberedLines_listing]
  exact instructionsOf_listingLines 0 p.instructions.toList

/-- The listing of an ordered program reads as that program, and that of no other program
does. -/
theorem ofSource_listing_eq_self_iff {p : Program} : ofSource p.listing = .ok p ↔ p.Ordered := by
  rw [ordered_iff_pairwise, lines, ← settled_eq_self_iff, ofSource_listing]
  constructor
  · intro h
    have hp := Except.ok.inj h
    exact congrArg (fun q : Program => q.instructions.toList) hp
  · intro h
    rw [h]

/-- Every program's listing can be read, and gives the same operations on their settled lines.
These are the lines of the program itself exactly if the program is ordered. -/
theorem ofSource_listing_settles (p : Program) :
    (∃ q, ofSource p.listing = .ok q ∧ q.ops = p.ops ∧ q.lines = settledLines 0 p.lines) ∧
      (ofSource p.listing = .ok p ↔ p.Ordered) := by
  refine ⟨⟨_, ofSource_listing p, ?_, ?_⟩, ofSource_listing_eq_self_iff⟩
  · exact ops_settled 0 p.instructions.toList
  · exact lines_settled 0 p.instructions.toList

end Program

end Quaternary
