import Quaternary.Op

/-!
# Log events

An event tells what the program has come to. It is spoken on a channel, that is, by a named part
of the program (the target) and with some urgency (the level), and it consists of a message and
of named fields. Its channel and the names of its fields are known beforehand (`Event.callsite`).
How an event looks in a log, and what time it bears there, is no part of it.
-/

namespace Quaternary

/-- How urgent an event is, from the most to the least urgent. -/
inductive Level where
  | error
  | warn
  | info
  | debug
  | trace
  deriving DecidableEq, Repr

namespace Level

/-- The place of a level, which is smaller the more urgent it is. -/
def rank : Level → Nat
  | .error => 1
  | .warn => 2
  | .info => 3
  | .debug => 4
  | .trace => 5

def name : Level → String
  | .error => "ERROR"
  | .warn => "WARN"
  | .info => "INFO"
  | .debug => "DEBUG"
  | .trace => "TRACE"

/-- Whether `level` is at least as urgent as the threshold. -/
def covers (threshold level : Level) : Bool := level.rank ≤ threshold.rank

end Level

/-- Where an event comes from. -/
structure Channel where
  level : Level
  target : String
  deriving DecidableEq, Repr

/-- What is known of an event before it happens. -/
structure Callsite where
  channel : Channel
  fieldNames : List String
  deriving DecidableEq, Repr

inductive Event where
  /-- A line was skipped because it has no tag. -/
  | unrecognized (line : Nat) (text : String)
  /-- A program has jumps, but its line numbers do not count its instructions. -/
  | shiftedJumps (skipped : Nat)
  /-- A source text was read to its end. -/
  | decoded (instructions skipped : Nat)
  /-- An instruction is about to be executed on a stack of the given depth. -/
  | step (line : Nat) (counter : Int) (op : Op) (depth : Nat)
  /-- The counter has left the program. -/
  | halted (steps : Nat) (counter : Int) (depth : Nat)
  /-- The command line starts a program. -/
  | started (path : String) (instructions : Nat)
  /-- The command line has seen a program halt. -/
  | finished (depth : Nat)
  deriving DecidableEq, Repr

namespace Event

/-- The channel of the steps of a machine. -/
def stepChannel : Channel := ⟨.trace, "tetra_vm::machine"⟩

def channel : Event → Channel
  | .unrecognized .. => ⟨.trace, "tetra_decoder"⟩
  | .shiftedJumps _ => ⟨.warn, "tetra_decoder"⟩
  | .decoded .. => ⟨.debug, "tetra_decoder"⟩
  | .step .. => stepChannel
  | .halted .. => ⟨.debug, "tetra_vm::execute"⟩
  | .started .. | .finished _ => ⟨.info, "tetra_cli::commands"⟩

def message : Event → String
  | .unrecognized .. => "unrecognized tag, line skipped"
  | .shiftedJumps _ =>
    "jump targets are source line numbers but skipped lines shift instruction indices"
  | .decoded .. => "decoded program"
  | .step .. => "step"
  | .halted .. => "program finished"
  | .started .. => "running"
  | .finished _ => "finished"

/-- The names and the texts of the fields, in the order in which they are shown. -/
def fields : Event → List (String × String)
  | .unrecognized line text => [("line", line.repr), ("text", text)]
  | .shiftedJumps skipped => [("skipped", skipped.repr)]
  | .decoded instructions skipped =>
    [("instructions", instructions.repr), ("skipped", skipped.repr)]
  | .step line counter op depth =>
    [("line", line.repr), ("pc", counter.repr), ("op", op.display), ("depth", depth.repr)]
  | .halted steps counter depth =>
    [("steps", steps.repr), ("pc", counter.repr), ("depth", depth.repr)]
  | .started path instructions => [("path", path), ("instructions", instructions.repr)]
  | .finished depth => [("depth", depth.repr)]

def callsite (e : Event) : Callsite := ⟨e.channel, e.fields.map Prod.fst⟩

/-- The callsite of the steps of a machine. -/
def stepCallsite : Callsite := ⟨stepChannel, ["line", "pc", "op", "depth"]⟩

end Event

end Quaternary
