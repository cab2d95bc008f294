import Quaternary.Log.Reading
import Quaternary.Proofs.Program.Renumbering

/-!
# Blanks inside a line

A blank may stand anywhere in a line, also inside a tag or between the digits of an argument. What
reads a line sees it without its blanks only, and so do the errors and the log events that quote it.

The line feed is a blank too, and yet it counts, since a text is cut there into its lines. Blanks
can be removed before or after the text is cut (`Blank.splitOn_stripLines`), as long as the line
feeds are kept. Hence a text is read as it is read without the other blanks
(`Program.ofSource_stripLines`, `Program.readingEvents_stripLines`).
-/

namespace Quaternary

namespace Blank

/-- A text without the blanks inside its lines: all but the line feeds. -/
def stripLines (text : List Char) : List Char := text.filter fun c => c == '\n' || !isBlank c

theorem strip_strip (text : List Char) : strip (strip text) = strip text := by
  simp [strip]

theorem strip_cons_of_blank {c : Char} (h : isBlank c = true) (rest : List Char) :
    strip (c :: rest) = strip rest := by
  simp [strip, h]

theorem strip_cons_of_not_blank {c : Char} (h : isBlank c = false) (rest : List Char) :
    strip (c :: rest) = c :: strip rest := by
  simp [strip, h]

/-- The lines of a text without its inner blanks are the lines of the text, each without its
blanks. -/
theorem splitOn_stripLines (text : List Char) :
    (stripLines text).splitOn '\n' = (text.splitOn '\n').map strip := by
  induction text with
  | nil => rfl
  | cons c rest ih =>
    by_cases hc : c = '\n'
    · subst hc
      have hkept : stripLines ('\n' :: rest) = '\n' :: stripLines rest := rfl
      rw [hkept, List.splitOn_cons_eq_if_modifyHead, List.splitOn_cons_eq_if_modifyHead,
        if_pos (beq_self_eq_true '\n'), if_pos (beq_self_eq_true '\n'), ih]
      rfl
    · -- the character belongs to the first line of the rest, or to none
      obtain ⟨first, others, hrest⟩ := List.exists_cons_of_ne_nil (List.splitOn_ne_nil '\n' rest)
      rw [List.splitOn_cons_eq_if_modifyHead, if_neg (by simpa using hc), hrest,
        List.modifyHead_cons, List.map_cons]
      rw [hrest, List.map_cons] at ih
      cases hblank : isBlank c with
      | true =>
        have hdropped : stripLines (c :: rest) = stripLines rest := by
          simp [stripLines, hc, hblank]
        rw [hdropped, ih, strip_cons_of_blank hblank]
      | false =>
        have hkept : stripLines (c :: rest) = c :: stripLines rest := by
          simp [stripLines, hblank]
        rw [hkept, List.splitOn_cons_eq_if_modifyHead, if_neg (by simpa using hc), ih,
          List.modifyHead_cons, strip_cons_of_not_blank hblank]

end Blank

/-! ## One line -/

theorem Line.read_strip (text : List Char) : Line.read (Blank.strip text) = Line.read text := by
  rw [Line.read, Line.read, Blank.strip_strip]

theorem Line.readAt_strip (text : List Char) (number : Nat) :
    Line.readAt (Blank.strip text) number = Line.readAt text number := by
  rw [Line.readAt, Line.readAt, Line.read_strip]

theorem Instruction.ofLine?_strip (text : List Char) (number : Nat) :
    ofLine? (Blank.strip text) number = ofLine? text number := by
  rw [ofLine?, ofLine?, Line.readAt_strip]

theorem Line.isReadable_strip (text : List Char) :
    Line.isReadable (Blank.strip text) = Line.isReadable text := by
  rw [Line.isReadable, Line.isReadable, Line.read_strip]

theorem Event.ofLine?_strip (text : List Char) (number : Nat) :
    Event.ofLine? (Blank.strip text) number = Event.ofLine? text number := by
  rw [Event.ofLine?, Event.ofLine?, Line.read_strip]

/-! ## A whole text -/

namespace Program

/-- Some numbered lines without their blanks. -/
def stripNumbered (lines : List (List Char × Nat)) : List (List Char × Nat) :=
  lines.map (Prod.map Blank.strip id)

theorem numberedLines_stripLines (source : String) :
    numberedLines (String.ofList (Blank.stripLines source.toList)) =
      stripNumbered (numberedLines source) := by
  rw [numberedLines, String.toList_ofList, Blank.splitOn_stripLines, List.zipIdx_map]
  rfl

theorem instructionsOf_stripNumbered (lines : List (List Char × Nat)) :
    instructionsOf (stripNumbered lines) = instructionsOf lines := by
  induction lines with
  | nil => rfl
  | cons line rest ih =>
    obtain ⟨text, number⟩ := line
    have hcons : stripNumbered ((text, number) :: rest) =
        (Blank.strip text, number) :: stripNumbered rest := rfl
    rw [hcons, instructionsOf_cons, instructionsOf_cons, Instruction.ofLine?_strip, ih]

theorem lineEvents_stripNumbered (lines : List (List Char × Nat)) :
    lineEvents (stripNumbered lines) = lineEvents lines := by
  unfold lineEvents stripNumbered
  rw [List.takeWhile_map, List.filterMap_map]
  simp only [Function.comp_def, Prod.map, id, Line.isReadable_strip, Event.ofLine?_strip]

theorem ofSource_stripLines (source : String) :
    ofSource (String.ofList (Blank.stripLines source.toList)) = ofSource source := by
  rw [ofSource_eq_map, ofSource_eq_map, numberedLines_stripLines, instructionsOf_stripNumbered]

theorem readingEvents_stripLines (source : String) :
    readingEvents (String.ofList (Blank.stripLines source.toList)) = readingEvents source := by
  rw [readingEvents, readingEvents, ofSource_stripLines, numberedLines_stripLines,
    lineEvents_stripNumbered]

/-- Texts that differ only in the blanks inside their lines have the same program or the same error,
and the same log. A single line is read alike with any blanks, even with a line feed in it. -/
theorem reading_ignores_blanks :
    (∀ a b : String, Blank.stripLines a.toList = Blank.stripLines b.toList →
      ofSource a = ofSource b ∧ readingEvents a = readingEvents b) ∧
    ∀ (a b : List Char) (number : Nat), Blank.strip a = Blank.strip b →
      Line.readAt a number = Line.readAt b number ∧
        Instruction.ofLine? a number = Instruction.ofLine? b number := by
  constructor
  · intro a b h
    rw [← ofSource_stripLines a, ← readingEvents_stripLines a, h]
    exact ⟨ofSource_stripLines b, readingEvents_stripLines b⟩
  · intro a b number h
    rw [← Line.readAt_strip a, ← Instruction.ofLine?_strip a, h]
    exact ⟨Line.readAt_strip b number, Instruction.ofLine?_strip b number⟩

/-- Blanks within the tag and the numeral of the first line, a carriage return, and an ideographic
space in the text of the second line, which has no tag. As a line of its own, a tag and a wrong
numeral may be cut by a line feed, which does not get into the error. -/
theorem reading_ignores_blanks_unrecognized :
    Blank.stripLines "3 2\t1 13\r\nx\u3000y\r".toList = Blank.stripLines "32113\nxy".toList ∧
      ofSource "3 2\t1 13\r\nx\u3000y\r" = .ok ⟨#[⟨1, .load 7⟩]⟩ ∧
      readingEvents "3 2\t1 13\r\nx\u3000y\r" = [.unrecognized 2 "xy", .decoded 1 0] ∧
      Line.readAt "3\n2 1\u00a045".toList 8 = .error ⟨8, .digits "45"⟩ := by
  have hstrip : Blank.stripLines "3 2\t1 13\r\nx\u3000y\r".toList =
      Blank.stripLines "32113\nxy".toList := by decide
  obtain ⟨hsource, hevents⟩ := reading_ignores_blanks.1 _ _ hstrip
  have hline := reading_ignores_blanks.2 "3\n2 1\u00a045".toList "32145".toList 8 (by decide)
  exact ⟨hstrip, hsource.trans rfl, hevents.trans rfl, hline.1.trans rfl⟩

end Program

end Quaternary
