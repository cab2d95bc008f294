import Quaternary.Proofs.Program.Renumbering

/-!
# Lines without an instruction

A line is idle if it can be read and holds no operation. Idle lines give a program nothing but
their numbers:

* putting one into a text moves the lines below it by one, and changes neither the instructions
  nor the error otherwise (`Program.ofSource_insertLine`);
* the line of an instruction is its place among the instructions, counted from one, and the number
  of idle lines above it (`Program.line_of_get?`).
-/

namespace Quaternary

/-- Whether a line is blank, a comment or unrecognized. -/
def Line.isIdle (text : List Char) : Bool :=
  match Line.read text with
  | .ok .blank | .ok .comment | .ok (.unrecognized _) => true
  | .ok (.operation _) | .error _ => false

def sourceLines (source : String) : List (List Char) := source.toList.splitOn '\n'

theorem numberedLines_eq_zipIdx (source : String) :
    numberedLines source = (sourceLines source).zipIdx 1 := rfl

theorem Instruction.ofLine?_of_isIdle {text : List Char} (h : Line.isIdle text = true)
    (number : Nat) : ofLine? text number = .ok none := by
  unfold Line.isIdle at h
  unfold ofLine? Line.readAt
  cases hread : Line.read text with
  | error cause =>
    rw [hread] at h
    cases h
  | ok line =>
    rw [hread] at h
    cases line with
    | operation op => cases h
    | blank | comment | unrecognized rest => rfl

theorem Line.isIdle_eq_isNone {text : List Char} {number : Nat} {found : Option Instruction}
    (h : Instruction.ofLine? text number = .ok found) : Line.isIdle text = found.isNone := by
  unfold Instruction.ofLine? Line.readAt at h
  unfold Line.isIdle
  cases hread : Line.read text with
  | error cause =>
    rw [hread] at h
    cases h
  | ok line =>
    rw [hread] at h
    cases line <;> cases h <;> rfl

namespace Program

/-! ## A further line -/

/-- The source text with a further line after its first `k` lines. -/
def insertLine (k : Nat) (text : List Char) (source : String) : String :=
  String.ofList
    (['\n'].intercalate ((sourceLines source).take k ++ text :: (sourceLines source).drop k))

/-- The number that a line gets when a line is put in after the first `k`. -/
def moved (k number : Nat) : Nat := if number ≤ k then number else number + 1

theorem newline_not_mem_of_mem_splitOn {text line : List Char} (h : line ∈ text.splitOn '\n') :
    '\n' ∉ line := by
  induction text generalizing line with
  | nil =>
    obtain rfl : line = [] := by simpa using h
    exact List.not_mem_nil
  | cons c rest ih =>
    rw [List.splitOn_cons_eq_if_modifyHead] at h
    by_cases hc : c = '\n'
    · rw [if_pos (by simpa using hc)] at h
      rcases List.mem_cons.mp h with rfl | h
      · exact List.not_mem_nil
      · exact ih h
    · -- the character goes to the front of the first line of the rest
      obtain ⟨first, others, hrest⟩ := List.exists_cons_of_ne_nil (List.splitOn_ne_nil '\n' rest)
      rw [if_neg (by simpa using hc), hrest, List.modifyHead_cons] at h
      rw [hrest] at ih
      rcases List.mem_cons.mp h with rfl | h
      · have hfirst : '\n' ∉ first := ih List.mem_cons_self
        simp only [List.mem_cons, not_or]
        exact ⟨Ne.symm hc, hfirst⟩
      · exact ih (List.mem_cons_of_mem first h)

theorem sourceLines_insertLine {text : List Char} (h : '\n' ∉ text) (k : Nat) (source : String) :
    sourceLines (insertLine k text source) =
      (sourceLines source).take k ++ text :: (sourceLines source).drop k := by
  unfold insertLine
  rw [sourceLines, String.toList_ofList]
  apply List.splitOn_intercalate
  · intro line hline
    rcases List.mem_append.mp hline with hbefore | hafter
    · exact newline_not_mem_of_mem_splitOn (List.mem_of_mem_take hbefore)
    · rcases List.mem_cons.mp hafter with rfl | hafter
      · exact h
      · exact newline_not_mem_of_mem_splitOn (List.mem_of_mem_drop hafter)
  · simp

theorem instructionsOf_insert_idle {text : List Char} (h : Line.isIdle text = true) (number : Nat)
    (before after : List (List Char × Nat)) :
    instructionsOf (before ++ (text, number) :: after) = instructionsOf (before ++ after) := by
  have hidle : instructionsOf ((text, number) :: after) = instructionsOf after := by
    rw [instructionsOf_cons, Instruction.ofLine?_of_isIdle h]
    cases instructionsOf after <;> rfl
  rw [instructionsOf_append, hidle, ← instructionsOf_append]

/-- The first `k` lines keep their numbers, and the others get the next one. -/
theorem map_moved_zipIdx (k : Nat) (texts : List (List Char)) :
    ((texts.zipIdx 1).map fun line => (line.1, moved k line.2)) =
      (texts.take k).zipIdx 1 ++ (texts.drop k).zipIdx (2 + (texts.take k).length) := by
  have hlines : texts.zipIdx 1 =
      (texts.take k).zipIdx 1 ++ (texts.drop k).zipIdx (1 + (texts.take k).length) := by
    rw [← List.zipIdx_append, List.take_append_drop]
  have hbefore : ∀ line ∈ (texts.take k).zipIdx 1, (line.1, moved k line.2) = line := by
    intro line hline
    have hnumber := List.snd_lt_add_of_mem_zipIdx hline
    rw [List.length_take] at hnumber
    rw [moved, if_pos (by omega)]
  have hafter : ∀ line ∈ (texts.drop k).zipIdx (1 + (texts.take k).length),
      (line.1, moved k line.2) = Prod.map id (· + 1) line := by
    -- a line is left for this part only if the first part has all its `k` lines
    intro line hline
    have hnumber := List.le_snd_of_mem_zipIdx hline
    have hdrop := List.length_pos_of_mem (List.fst_mem_of_mem_zipIdx hline)
    rw [List.length_take] at hnumber
    rw [List.length_drop] at hdrop
    rw [moved, if_neg (by omega)]
    rfl
  rw [hlines, List.map_append, List.map_congr_left hbefore, List.map_congr_left hafter,
    List.map_snd_add_zipIdx_eq_zipIdx, List.map_id']
  congr 2
  omega

theorem instructionsOf_insertLine {text : List Char} (hnewline : '\n' ∉ text)
    (hidle : Line.isIdle text = true) (k : Nat) (source : String) :
    instructionsOf (numberedLines (insertLine k text source)) =
      instructionsOf ((numberedLines source).map fun line => (line.1, moved k line.2)) := by
  rw [numberedLines_eq_zipIdx, numberedLines_eq_zipIdx, map_moved_zipIdx,
    sourceLines_insertLine hnewline, List.zipIdx_append, List.zipIdx_cons,
    instructionsOf_insert_idle hidle]
  congr 3
  omega

/-- An idle line moves the instructions below it, or the error below it, by one line. -/
theorem ofSource_insertLine {text : List Char} (hnewline : '\n' ∉ text)
    (hidle : Line.isIdle text = true) (k : Nat) (source : String) :
    ofSource (insertLine k text source) =
      ((ofSource source).mapError (·.relabel (moved k))).map (·.relabel (moved k)) := by
  rw [ofSource_eq_map, ofSource_eq_map, instructionsOf_insertLine hnewline hidle,
    instructionsOf_relabel]
  cases instructionsOf (numberedLines source) with
  | error e => rfl
  | ok is =>
    change Except.ok (Program.mk (is.map _).toArray) = .ok ⟨is.toArray.map _⟩
    rw [List.map_toArray]

/-! ## The place of an instruction and its line -/

/-- Of the instructions on the lines after number `last`, the one at index `j` is `j` lines and
the idle lines above it further down. -/
theorem line_of_getElem?_instructionsOf {texts : List (List Char)} {last j : Nat}
    {is : List Instruction} {i : Instruction}
    (h : instructionsOf (texts.zipIdx (last + 1)) = .ok is) (hi : is[j]? = some i) :
    ∃ above, i.line = last + 1 + above ∧ above = j + (texts.take above).countP Line.isIdle := by
  induction texts generalizing last j is with
  | nil =>
    cases h
    simp at hi
  | cons text rest ih =>
    obtain ⟨found, others, hfound, hothers, rfl⟩ := instructionsOf_cons_ok h
    have htext := Line.isIdle_eq_isNone hfound
    cases found with
    | none =>
      obtain ⟨above, hline, habove⟩ := ih hothers hi
      refine ⟨above + 1, by omega, ?_⟩
      rw [List.take_succ_cons, List.countP_cons_of_pos htext]
      omega
    | some first =>
      cases j with
      | zero =>
        obtain rfl : first = i := by simpa using hi
        have hfirst := line_of_ofLine? hfound
        exact ⟨0, by omega, by simp⟩
      | succ j =>
        obtain ⟨above, hline, habove⟩ := ih hothers (j := j) (by simpa using hi)
        refine ⟨above + 1, by omega, ?_⟩
        rw [List.take_succ_cons, List.countP_cons_of_neg (by simp [htext])]
        omega

theorem line_of_get? {source : String} {p : Program} {j : Nat} {i : Instruction}
    (h : ofSource source = .ok p) (hi : p.get? j = some i) :
    i.line = j + 1 + ((sourceLines source).take (i.line - 1)).countP Line.isIdle := by
  have hread : instructionsOf ((sourceLines source).zipIdx (0 + 1)) = .ok p.instructions.toList :=
    ofSource_eq_ok_iff.mp h
  have hi' : p.instructions.toList[j]? = some i := by
    rw [Array.getElem?_toList]
    exact hi
  obtain ⟨above, hline, habove⟩ := line_of_getElem?_instructionsOf hread hi'
  have hoffset : i.line - 1 = above := by omega
  rw [hoffset]
  omega

end Program

end Quaternary
