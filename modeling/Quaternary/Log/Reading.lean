import Quaternary.Log.Event
import Quaternary.Program.Source

/-!
# The log of reading

Reading a source text is logged line by line, up to the first line that cannot be read. If there
is none, the log ends with what was read, after a warning where jumps may miss the lines that
they name.
-/

namespace Quaternary

/-- Whether a line of text can be read. -/
def Line.isReadable (text : List Char) : Bool :=
  match Line.read text with
  | .ok _ => true
  | .error _ => false

/-- The event for a line that was skipped because it has no tag. -/
def Event.ofLine? (text : List Char) (number : Nat) : Option Event :=
  match Line.read text with
  | .ok (.unrecognized rest) => some (.unrecognized number rest)
  | _ => none

namespace Program

/-- The events for some numbered lines. -/
def lineEvents (lines : List (List Char × Nat)) : List Event :=
  (lines.takeWhile fun (text, _) => Line.isReadable text).filterMap fun (text, number) =>
    Event.ofLine? text number

/-- The events for a program that has been read. -/
def summaryEvents (p : Program) : List Event :=
  (if 0 < p.skippedLines ∧ p.hasJumps then [.shiftedJumps p.skippedLines] else []) ++
    [.decoded p.size p.skippedLines]

/-- The events of reading a source text. -/
def readingEvents (source : String) : List Event :=
  lineEvents (numberedLines source) ++
    match ofSource source with
    | .ok p => p.summaryEvents
    | .error _ => []

theorem channel_of_mem_lineEvents {lines : List (List Char × Nat)} {e : Event}
    (h : e ∈ lineEvents lines) : e.channel = ⟨.trace, "tetra_decoder"⟩ := by
  obtain ⟨⟨text, number⟩, -, hline⟩ := List.mem_filterMap.mp h
  simp only [Event.ofLine?] at hline
  split at hline
  · cases hline
    rfl
  · cases hline

end Program

end Quaternary
