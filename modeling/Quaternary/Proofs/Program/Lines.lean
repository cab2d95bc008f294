import Quaternary.Program.Source

/-!
# The line numbers of a program

A program that was read from a text has its instructions on different lines, in the order of the
lines, and the lines of a text are numbered from one. `Program.Ordered` says this of a program
by its line numbers alone; a program that is built by hand need not have it.

* `Program.ordered_iff_pairwise`: the line numbers, with a zero before them, increase strictly.
* `Program.ordered_of_ofSource`: every program that is read from a text is ordered.
-/

namespace Quaternary.Program

def lines (p : Program) : List Nat := p.instructions.toList.map (·.line)

def ops (p : Program) : List Op := p.instructions.toList.map (·.op)

/-- The line numbers are those of a text. -/
structure Ordered (p : Program) : Prop where
  first : ∀ line ∈ p.lines.head?, 1 ≤ line
  increasing : p.lines.Pairwise (· < ·)

theorem ordered_iff_pairwise {p : Program} : p.Ordered ↔ (0 :: p.lines).Pairwise (· < ·) := by
  rw [List.pairwise_cons]
  constructor
  · intro h
    refine ⟨?_, h.increasing⟩
    obtain ⟨first, increasing⟩ := h
    intro line hline
    cases hlines : p.lines with
    | nil => simp [hlines] at hline
    | cons l rest =>
      rw [hlines] at hline first increasing
      have hl : 1 ≤ l := first l rfl
      rcases List.mem_cons.mp hline with rfl | hrest
      · exact hl
      · have := (List.pairwise_cons.mp increasing).1 line hrest
        omega
  · rintro ⟨positive, increasing⟩
    refine ⟨?_, increasing⟩
    intro line hline
    exact positive line (List.mem_of_mem_head? hline)

/-! ## Reading -/

theorem line_of_ofLine? {text : List Char} {number : Nat} {i : Instruction}
    (h : Instruction.ofLine? text number = .ok (some i)) : i.line = number := by
  unfold Instruction.ofLine? at h
  cases hline : Line.readAt text number with
  | error e =>
    rw [hline] at h
    cases h
  | ok line =>
    rw [hline] at h
    cases hop : line.op? with
    | none => simp [Except.map, hop] at h
    | some op =>
      simp only [Except.map, hop, Option.map_some, Except.ok.injEq, Option.some.injEq] at h
      rw [← h]

theorem instructionsOf_cons_ok {text : List Char} {number : Nat}
    {rest : List (List Char × Nat)} {is : List Instruction}
    (h : instructionsOf ((text, number) :: rest) = .ok is) :
    ∃ found others, Instruction.ofLine? text number = .ok found ∧
      instructionsOf rest = .ok others ∧ is = found.toList ++ others := by
  rw [instructionsOf_cons] at h
  cases hfound : Instruction.ofLine? text number with
  | error e =>
    rw [hfound] at h
    cases h
  | ok found =>
    cases hothers : instructionsOf rest with
    | error e =>
      rw [hfound, hothers] at h
      cases h
    | ok others =>
      rw [hfound, hothers] at h
      cases h
      exact ⟨found, others, rfl, rfl, rfl⟩

/-- The lines after number `last` give instructions with increasing line numbers above `last`. -/
theorem pairwise_of_instructionsOf {texts : List (List Char)} {last : Nat}
    {is : List Instruction} (h : instructionsOf (texts.zipIdx (last + 1)) = .ok is) :
    (last :: is.map (·.line)).Pairwise (· < ·) := by
  induction texts generalizing last is with
  | nil =>
    cases h
    simp
  | cons text rest ih =>
    obtain ⟨found, others, hfound, hothers, rfl⟩ := instructionsOf_cons_ok h
    have hrest := ih hothers
    cases found with
    | none =>
      -- the line is skipped, and the bound on the others only grows
      rw [List.pairwise_cons] at hrest ⊢
      refine ⟨?_, hrest.2⟩
      intro line hline
      have := hrest.1 line hline
      omega
    | some i =>
      have hi : i.line = last + 1 := line_of_ofLine? hfound
      rw [Option.toList_some, List.singleton_append, List.map_cons, hi]
      refine List.pairwise_cons.mpr ⟨?_, hrest⟩
      intro line hline
      rcases List.mem_cons.mp hline with rfl | hline
      · exact Nat.lt_succ_self last
      · have := (List.pairwise_cons.mp hrest).1 line hline
        omega

theorem ofSource_eq_ok_iff {source : String} {p : Program} :
    ofSource source = .ok p ↔
      instructionsOf (numberedLines source) = .ok p.instructions.toList := by
  unfold ofSource
  cases h : instructionsOf (numberedLines source) with
  | error e =>
    constructor
    · intro hok
      cases hok
    · intro hok
      cases hok
  | ok is =>
    constructor
    · rintro ⟨⟩
      rfl
    · intro heq
      obtain rfl : is = p.instructions.toList := Except.ok.inj heq
      rfl

theorem ordered_of_ofSource {source : String} {p : Program} (h : ofSource source = .ok p) :
    p.Ordered :=
  ordered_iff_pairwise.mpr (pairwise_of_instructionsOf (ofSource_eq_ok_iff.mp h))

end Quaternary.Program
