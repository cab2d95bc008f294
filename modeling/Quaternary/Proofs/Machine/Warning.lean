import Mathlib.Data.List.DropRight
import Quaternary.Log.Reading
import Quaternary.Proofs.Machine.Landing

/-!
# The warning about shifted jumps

The number of skipped lines is computed from two numbers, the line of the last instruction and the
number of instructions. For a program that was read from a text it is the number of idle lines
above the last line that holds an instruction (`Program.skippedLines_eq_countP`): idle lines below
that one do not count, and every line above it is idle or holds one instruction.

Idle lines add up on the way down, so if none is above the last instruction, none is above any, and
every instruction stands on the line that is its place (`Program.skippedLines_eq_zero_iff`). Reading
warns exactly where this fails in a program with jumps (`Program.warnings_eq`). Without a warning a
jump lands on the line that it names (`Machine.instruction?_of_line`).
-/

namespace Quaternary

namespace Program

variable {source : String} {p : Program}

/-! ## The number of skipped lines -/

theorem instructionsOf_append_ok {xs ys : List (List Char × Nat)} {is : List Instruction}
    (h : instructionsOf (xs ++ ys) = .ok is) :
    ∃ first second, instructionsOf xs = .ok first ∧ instructionsOf ys = .ok second ∧
      is = first ++ second := by
  rw [instructionsOf_append] at h
  cases hfirst : instructionsOf xs with
  | error e =>
    rw [hfirst] at h
    cases h
  | ok first =>
    cases hsecond : instructionsOf ys with
    | error e =>
      rw [hfirst, hsecond] at h
      cases h
    | ok second =>
      rw [hfirst, hsecond] at h
      cases h
      exact ⟨first, second, rfl, rfl, rfl⟩

theorem instructionsOf_singleton_ok {text : List Char} {number : Nat} {is : List Instruction}
    (h : instructionsOf [(text, number)] = .ok is) :
    ∃ found, Instruction.ofLine? text number = .ok found ∧ is = found.toList := by
  obtain ⟨found, others, hfound, hothers, rfl⟩ := instructionsOf_cons_ok h
  cases hothers
  exact ⟨found, hfound, List.append_nil _⟩

/-- Every line of a text that can be read is idle or holds one instruction. -/
theorem length_add_countP_isIdle {texts : List (List Char)} {first : Nat}
    {is : List Instruction} (h : instructionsOf (texts.zipIdx first) = .ok is) :
    is.length + texts.countP Line.isIdle = texts.length := by
  induction texts generalizing first is with
  | nil =>
    cases h
    rfl
  | cons text rest ih =>
    obtain ⟨found, others, hfound, hothers, rfl⟩ := instructionsOf_cons_ok h
    have hrest := ih hothers
    have htext := Line.isIdle_eq_isNone hfound
    cases found with
    | none =>
      rw [List.countP_cons_of_pos htext, Option.toList_none, List.nil_append, List.length_cons]
      omega
    | some i =>
      rw [List.countP_cons_of_neg (by simp [htext]), Option.toList_some, List.singleton_append,
        List.length_cons, List.length_cons]
      omega

/-- By induction from the last line up: an idle last line changes neither side, and one that holds
an instruction is the last of them. -/
theorem skipped_instructionsOf {texts : List (List Char)} {is : List Instruction}
    (h : instructionsOf (texts.zipIdx 1) = .ok is) :
    (match is.getLast? with
      | none => 0
      | some last => last.line - is.length) =
      (texts.rdropWhile Line.isIdle).countP Line.isIdle := by
  induction texts using List.reverseRecOn generalizing is with
  | nil =>
    cases h
    rfl
  | append_singleton texts text ih =>
    rw [List.zipIdx_append] at h
    obtain ⟨above, last, habove, hlast, rfl⟩ := instructionsOf_append_ok h
    obtain ⟨found, hfound, rfl⟩ := instructionsOf_singleton_ok hlast
    have htext := Line.isIdle_eq_isNone hfound
    cases found with
    | none =>
      rw [Option.toList_none, List.append_nil, List.rdropWhile_concat_pos _ _ _ htext]
      exact ih habove
    | some i =>
      have hidle : ¬ Line.isIdle text = true := by simp [htext]
      have hline : i.line = 1 + texts.length := line_of_ofLine? hfound
      have hlength := length_add_countP_isIdle habove
      rw [Option.toList_some, List.getLast?_concat, List.rdropWhile_concat_neg _ _ _ hidle,
        List.countP_append, List.countP_singleton, if_neg hidle, List.length_append,
        List.length_singleton]
      change i.line - (above.length + 1) = _
      omega

theorem skippedLines_eq_countP (h : ofSource source = .ok p) :
    p.skippedLines = ((sourceLines source).rdropWhile Line.isIdle).countP Line.isIdle := by
  have hskipped := skipped_instructionsOf (ofSource_eq_ok_iff.mp h)
  rw [Array.getLast?_toList, Array.length_toList] at hskipped
  exact hskipped

theorem line_le_of_back? (h : p.Ordered) {last : Instruction}
    (hlast : p.instructions.back? = some last) {j : Nat} {i : Instruction}
    (hi : p.get? j = some i) : i.line ≤ last.line := by
  rw [Array.back?_eq_getElem?] at hlast
  obtain ⟨hj, rfl⟩ := Array.getElem?_eq_some_iff.mp hi
  obtain ⟨hsize, rfl⟩ := Array.getElem?_eq_some_iff.mp hlast
  by_cases heq : j = p.instructions.size - 1
  · subst heq
    exact Nat.le_refl _
  · have hlt : j < p.instructions.size - 1 := by omega
    have hincreasing := List.pairwise_iff_getElem.mp h.increasing j (p.instructions.size - 1)
      (by simpa [lines] using hj) (by simpa [lines] using hsize) hlt
    simp only [lines, List.getElem_map, Array.getElem_toList] at hincreasing
    exact Nat.le_of_lt hincreasing

theorem skippedLines_eq_zero_iff (h : ofSource source = .ok p) :
    p.skippedLines = 0 ↔ ∀ j i, p.get? j = some i → i.line = j + 1 := by
  unfold skippedLines
  cases hback : p.instructions.back? with
  | none =>
    have hempty : p.instructions = #[] := Array.back?_eq_none_iff.mp hback
    simp [get?, hempty]
  | some last =>
    have hlast : p.get? (p.size - 1) = some last := Array.back?_eq_getElem?.symm.trans hback
    have hlastLine := line_of_get? h hlast
    have hsize : p.size - 1 < p.size := (Array.getElem?_eq_some_iff.mp hlast).choose
    constructor
    · intro hzero j i hi
      have hline := line_of_get? h hi
      have hle := line_le_of_back? (ordered_of_ofSource h) hback hi
      -- the idle lines above an instruction are among those above the last one
      have hcount : ((sourceLines source).take (i.line - 1)).countP Line.isIdle ≤
          ((sourceLines source).take (last.line - 1)).countP Line.isIdle :=
        (List.take_sublist_take_left (by omega)).countP_le
      change last.line - p.size = 0 at hzero
      omega
    · intro hplaces
      have hplace := hplaces _ _ hlast
      change last.line - p.size = 0
      omega

/-! ## The warning -/

/-- A jump may miss the line that it names: there is a jump, and an instruction that does not stand
on the line that is its place. -/
def Shifted (p : Program) : Prop :=
  (∃ i ∈ p.instructions, i.op.isJump = true) ∧ ∃ j i, p.get? j = some i ∧ i.line ≠ j + 1

/-- The warnings among the events of reading a text. -/
def warnings (source : String) : List Event :=
  (readingEvents source).filter fun e => e.channel.level = .warn

theorem shifted_iff (h : ofSource source = .ok p) :
    p.Shifted ↔ 0 < p.skippedLines ∧ p.hasJumps = true := by
  have hpos : 0 < p.skippedLines ↔ ∃ j i, p.get? j = some i ∧ i.line ≠ j + 1 := by
    rw [Nat.pos_iff_ne_zero, Ne, skippedLines_eq_zero_iff h]
    push Not
    rfl
  rw [Shifted, hpos, hasJumps, Array.any_eq_true', and_comm]

theorem warnings_eq (h : ofSource source = .ok p) :
    warnings source =
      if 0 < p.skippedLines ∧ p.hasJumps then [.shiftedJumps p.skippedLines] else [] := by
  have hlines : (lineEvents (numberedLines source)).filter
      (fun e => e.channel.level = .warn) = [] := by
    refine List.filter_eq_nil_iff.mpr ?_
    intro e he
    simp [channel_of_mem_lineEvents he]
  rw [warnings, readingEvents, h, List.filter_append, hlines, List.nil_append]
  change p.summaryEvents.filter _ = _
  unfold summaryEvents
  by_cases hwarned : 0 < p.skippedLines ∧ p.hasJumps = true
  · rw [if_pos hwarned]
    rfl
  · rw [if_neg hwarned]
    rfl

theorem warnings_of_shifted (h : ofSource source = .ok p) (hshifted : p.Shifted) :
    warnings source = [.shiftedJumps p.skippedLines] := by
  rw [warnings_eq h, if_pos ((shifted_iff h).mp hshifted)]

theorem warnings_of_not_shifted (h : ofSource source = .ok p) (hshifted : ¬ p.Shifted) :
    warnings source = [] := by
  rw [warnings_eq h, if_neg ((shifted_iff h).not.mp hshifted)]

/-- In a program with a jump that is read without a warning, every instruction stands on the line
that is its place. -/
theorem line_of_not_warned (h : ofSource source = .ok p) (hwarnings : warnings source = [])
    {jump : Instruction} (hjump : jump ∈ p.instructions) (hop : jump.op.isJump = true) {j : Nat}
    {i : Instruction} (hi : p.get? j = some i) : i.line = j + 1 := by
  by_contra hline
  have hshifted : p.Shifted := ⟨⟨jump, hjump, hop⟩, j, i, hi, hline⟩
  rw [warnings_of_shifted h hshifted] at hwarnings
  cases hwarnings

end Program

namespace Machine

variable {source : String} {p : Program} {m m' : Machine} {target : Value}

/-- Where every instruction stands on the line that is its place, the target of a jump is a line. -/
theorem instruction?_of_line (hlines : ∀ j i, p.get? j = some i → i.line = j + 1)
    (hm : m.counter = Op.landing target) {i : Instruction} (hi : i ∈ p.instructions)
    (hline : i.line = target.toInt) : m.instruction? p = some i := by
  obtain ⟨j, hj⟩ := Array.mem_iff_getElem?.mp hi
  have hplace := hlines j i hj
  have hindex : target.toInt.toNat - 1 = j := by omega
  rw [instruction?_of_landing hm (by omega), hindex]
  exact hj

theorem outside_of_no_line (hlines : ∀ j i, p.get? j = some i → i.line = j + 1)
    (hnone : ∀ i ∈ p.instructions, (i.line : Int) ≠ target.toInt) :
    target.toInt < 1 ∨ p.size < target.toInt := by
  by_contra hinside
  push Not at hinside
  have hindex : target.toInt.toNat - 1 < p.instructions.size := by
    have hhigh := hinside.2
    unfold Program.size at hhigh
    omega
  have hget : p.get? (target.toInt.toNat - 1) = some _ := Array.getElem?_eq_getElem hindex
  apply hnone _ (Array.mem_of_getElem? hget)
  have hplace := hlines _ _ hget
  omega

/-- The number of skipped lines is the number of idle lines above the last line with an
instruction, and none exactly if every instruction stands on the line that is its place. Reading
warns once if there is a jump and an instruction elsewhere than on that line, and never otherwise.
If it does not warn, a jump that is taken lands on the instruction on the line that it names, and
ends the run if there is none. -/
theorem skippedLines_exact (h : Program.ofSource source = .ok p) :
    p.skippedLines = ((sourceLines source).rdropWhile Line.isIdle).countP Line.isIdle ∧
    (p.size = 0 → p.skippedLines = 0) ∧
    (p.skippedLines = 0 ↔ ∀ j i, p.get? j = some i → i.line = j + 1) ∧
    (p.Shifted → Program.warnings source = [.shiftedJumps p.skippedLines]) ∧
    (¬ p.Shifted → Program.warnings source = []) ∧
    (Program.warnings source = [] →
      ∀ (m : Machine) (line : Nat) (c : Cond) (target : Value),
        m.instruction? p = some ⟨line, .jump c target⟩ → c.holds (m.stack.headD 0) = true →
          ∃ m', m.step p = (.running, m') ∧
            (∀ i ∈ p.instructions, i.line = target.toInt → m'.instruction? p = some i) ∧
            ((∀ i ∈ p.instructions, (i.line : Int) ≠ target.toInt) →
              ∀ budget, m.run p (budget + 2) = (.halted, m'))) := by
  refine ⟨Program.skippedLines_eq_countP h, ?_, Program.skippedLines_eq_zero_iff h,
    Program.warnings_of_shifted h, Program.warnings_of_not_shifted h, ?_⟩
  · intro hempty
    refine (Program.skippedLines_eq_zero_iff h).mpr ?_
    intro j i hi
    obtain ⟨hj, -⟩ := Array.getElem?_eq_some_iff.mp hi
    unfold Program.size at hempty
    omega
  · intro hwarnings m line c target hjump htaken
    have hlines : ∀ j i, p.get? j = some i → i.line = j + 1 := fun _ _ =>
      Program.line_of_not_warned h hwarnings (mem_of_instruction? hjump) rfl
    have hstep := step_jump hjump htaken
    refine ⟨_, hstep, fun _ => instruction?_of_line hlines rfl, ?_⟩
    intro hnone budget
    apply run_of_step_out hstep
    exact instruction?_of_landing_outside rfl (outside_of_no_line hlines hnone)

/-- A comment above a jump is counted and warned about, the blank lines below it are not. Without
the comment there is no warning, and a jump to line three lands on that line. -/
theorem skippedLines_exact_comment :
    Program.ofSource "33\n32 11\n21 12\n\n" = .ok ⟨#[⟨2, .load 1⟩, ⟨3, .jump .nonZero 2⟩]⟩ ∧
      Program.warnings "33\n32 11\n21 12\n\n" = [.shiftedJumps 1] ∧
      Program.ofSource "32 11\n21 13\n20\n" =
        .ok ⟨#[⟨1, .load 1⟩, ⟨2, .jump .nonZero 3⟩, ⟨3, .print⟩]⟩ ∧
      ∃ m', step ⟨#[⟨1, .load 1⟩, ⟨2, .jump .nonZero 3⟩, ⟨3, .print⟩]⟩
          { stack := [1], counter := 1 } = (.running, m') ∧
        m'.instruction? ⟨#[⟨1, .load 1⟩, ⟨2, .jump .nonZero 3⟩, ⟨3, .print⟩]⟩ =
          some ⟨3, .print⟩ := by
  have hshifted : Program.ofSource "33\n32 11\n21 12\n\n" =
      .ok ⟨#[⟨2, .load 1⟩, ⟨3, .jump .nonZero 2⟩]⟩ := rfl
  have hplain : Program.ofSource "32 11\n21 13\n20\n" =
      .ok ⟨#[⟨1, .load 1⟩, ⟨2, .jump .nonZero 3⟩, ⟨3, .print⟩]⟩ := rfl
  obtain ⟨-, -, -, hwarned, -, -⟩ := skippedLines_exact hshifted
  obtain ⟨-, -, -, -, -, hlands⟩ := skippedLines_exact hplain
  refine ⟨hshifted, hwarned ?_, hplain, ?_⟩
  · exact ⟨⟨⟨3, .jump .nonZero 2⟩, by simp, rfl⟩, 0, ⟨2, .load 1⟩, rfl, by simp⟩
  · obtain ⟨m', hstep, hline, -⟩ := hlands rfl { stack := [1], counter := 1 } 2 .nonZero 3 rfl rfl
    exact ⟨m', hstep, hline ⟨3, .print⟩ (by simp) rfl⟩

end Machine

end Quaternary
