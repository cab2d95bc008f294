import Quaternary.Proofs.Program.Lines

/-!
# Other numbers for the lines

Reading looks at the number of a line only to put it into the instruction or the error that it
finds there. So where the lines of a text get other numbers, so do the instructions and the error,
and nothing else changes (`instructionsOf_relabel`).

Two texts that are joined by a line feed are such a case. The lines of the first keep their
numbers, and those of the second are moved by the number of lines of the first, which is one more
than its line feeds. `ofSource_append_newline` says what becomes of the two programs; an error of
the first text wins, whatever the second one is.
-/

namespace Quaternary

def Instruction.relabel (f : Nat → Nat) (i : Instruction) : Instruction := ⟨f i.line, i.op⟩

def SourceError.relabel (f : Nat → Nat) (e : SourceError) : SourceError := ⟨f e.line, e.cause⟩

theorem Instruction.ofLine?_relabel (f : Nat → Nat) (text : List Char) (number : Nat) :
    ofLine? text (f number) =
      ((ofLine? text number).mapError (·.relabel f)).map (Option.map (·.relabel f)) := by
  unfold ofLine? Line.readAt
  cases Line.read text with
  | error cause => rfl
  | ok line => cases line <;> rfl

namespace Program

def relabel (f : Nat → Nat) (p : Program) : Program := ⟨p.instructions.map (·.relabel f)⟩

theorem ops_relabel (f : Nat → Nat) (p : Program) : (p.relabel f).ops = p.ops := by
  simp [ops, relabel, Instruction.relabel]

theorem instructionsOf_relabel (f : Nat → Nat) (lines : List (List Char × Nat)) :
    instructionsOf (lines.map fun line => (line.1, f line.2)) =
      ((instructionsOf lines).mapError (·.relabel f)).map (List.map (·.relabel f)) := by
  induction lines with
  | nil => rfl
  | cons line rest ih =>
    obtain ⟨text, number⟩ := line
    rw [List.map_cons, instructionsOf_cons, instructionsOf_cons, Instruction.ofLine?_relabel, ih]
    cases Instruction.ofLine? text number with
    | error e => rfl
    | ok found =>
      cases instructionsOf rest with
      | error e => rfl
      | ok others => cases found <;> rfl

theorem ofSource_eq_map (source : String) :
    ofSource source = (instructionsOf (numberedLines source)).map fun is => ⟨is.toArray⟩ := by
  unfold ofSource
  cases instructionsOf (numberedLines source) <;> rfl

/-! ## Texts joined by a line feed -/

theorem length_splitOn_newline (text : List Char) :
    (text.splitOn '\n').length = 1 + text.count '\n' := by
  induction text with
  | nil => rfl
  | cons c rest ih =>
    rw [List.splitOn_cons_eq_if_modifyHead]
    by_cases hc : c = '\n'
    · subst hc
      rw [if_pos (beq_self_eq_true '\n'), List.length_cons, ih, List.count_cons_self]
      omega
    · rw [if_neg (by simpa using hc), List.length_modifyHead, ih, List.count_cons_of_ne hc]

theorem numberedLines_append_newline (a b : String) :
    numberedLines (a ++ "\n" ++ b) =
      numberedLines a ++
        (numberedLines b).map fun line => (line.1, line.2 + (1 + a.toList.count '\n')) := by
  have htext : (a ++ "\n" ++ b).toList = a.toList ++ '\n' :: b.toList := by simp
  unfold numberedLines
  rw [htext, List.splitOn_append_cons_self, List.zipIdx_append, length_splitOn_newline,
    Nat.add_comm 1 (1 + _), ← List.map_snd_add_zipIdx_eq_zipIdx]
  rfl

/-- Reading two texts joined by a line feed gives the error of the first, or else the error of the
second on its line in the whole text, or else the instructions of both, those of the second on
their lines in the whole text. -/
theorem ofSource_append_newline (a b : String) :
    ofSource (a ++ "\n" ++ b) =
      match ofSource a, ofSource b with
      | .error e, _ => .error e
      | .ok _, .error e => .error ⟨e.line + (1 + a.toList.count '\n'), e.cause⟩
      | .ok p, .ok q =>
        .ok ⟨p.instructions ++
          q.instructions.map fun i => ⟨i.line + (1 + a.toList.count '\n'), i.op⟩⟩ := by
  have hmoved := instructionsOf_relabel (· + (1 + a.toList.count '\n')) (numberedLines b)
  rw [ofSource_eq_map, ofSource_eq_map, ofSource_eq_map, numberedLines_append_newline,
    instructionsOf_append, hmoved]
  cases instructionsOf (numberedLines a) with
  | error e => rfl
  | ok first =>
    cases instructionsOf (numberedLines b) with
    | error e => rfl
    | ok second =>
      change Except.ok (Program.mk (first ++ second.map _).toArray) =
        .ok ⟨first.toArray ++ second.toArray.map _⟩
      rw [List.map_toArray, List.append_toArray]
      rfl

end Program

end Quaternary
