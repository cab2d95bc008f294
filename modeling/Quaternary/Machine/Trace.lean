import Quaternary.Log.Event
import Quaternary.Machine

/-!
# The log of a run

Every instruction is announced before it is executed, one that fails included. A run that halts
ends its log with the state that it has come to.
-/

namespace Quaternary.Machine

/-- The event for the instruction that is about to be executed. -/
def announcement? (p : Program) (m : Machine) : Option Event :=
  (m.instruction? p).map fun i => .step i.line m.counter i.op m.stack.length

/-- Does what `run` does, and appends the announcements to a log. -/
def runTraced (p : Program) : Nat → Machine → Array Event → Status × Machine × Array Event
  | 0, m, log => (.running, m, log)
  | budget + 1, m, log =>
    let log :=
      match m.announcement? p with
      | none => log
      | some e => log.push e
    match m.step p with
    | (.running, m') => runTraced p budget m' log
    | (.halted, m') => (.halted, m', log)
    | (.failed e, m') => (.failed e, m', log)

/-- The events after a run that ended with the given status. -/
def closingEvents (m : Machine) : Status → List Event
  | .halted => [.halted m.steps m.counter m.stack.length]
  | .running | .failed _ => []

end Quaternary.Machine
