import Quaternary.Arith
import Quaternary.Blank
import Quaternary.Cli.Command
import Quaternary.Cli.Entry
import Quaternary.Cli.Session
import Quaternary.Digit
import Quaternary.Execution
import Quaternary.Fault
import Quaternary.Line
import Quaternary.Log.Event
import Quaternary.Log.Filter
import Quaternary.Log.Reading
import Quaternary.Machine
import Quaternary.Machine.Trace
import Quaternary.Main
import Quaternary.Numeral
import Quaternary.Op
import Quaternary.Opcode
import Quaternary.Program
import Quaternary.Program.Listing
import Quaternary.Program.Source
import Quaternary.Proofs.Arith.Division
import Quaternary.Proofs.Cli.Outcome
import Quaternary.Proofs.Cli.Refusal
import Quaternary.Proofs.Cli.Relisting
import Quaternary.Proofs.Cli.Session
import Quaternary.Proofs.Ideal.Machine
import Quaternary.Proofs.Ideal.Refinement
import Quaternary.Proofs.Ideal.Simulation
import Quaternary.Proofs.Line.Grammar
import Quaternary.Proofs.Machine.Announcements
import Quaternary.Proofs.Machine.Failure
import Quaternary.Proofs.Machine.Faults
import Quaternary.Proofs.Machine.Forward
import Quaternary.Proofs.Machine.Frame
import Quaternary.Proofs.Machine.Labels
import Quaternary.Proofs.Machine.Landing
import Quaternary.Proofs.Machine.Operands
import Quaternary.Proofs.Machine.Output
import Quaternary.Proofs.Machine.Printing
import Quaternary.Proofs.Machine.Reversal
import Quaternary.Proofs.Machine.Safety
import Quaternary.Proofs.Machine.Session
import Quaternary.Proofs.Machine.Step
import Quaternary.Proofs.Machine.Straight
import Quaternary.Proofs.Machine.Traceback
import Quaternary.Proofs.Machine.Truncation
import Quaternary.Proofs.Machine.Warning
import Quaternary.Proofs.Numeral.Canonical
import Quaternary.Proofs.Numeral.Exactness
import Quaternary.Proofs.Program.Blanks
import Quaternary.Proofs.Program.Idle
import Quaternary.Proofs.Program.Lines
import Quaternary.Proofs.Program.Renumbering
import Quaternary.Proofs.Program.RoundTrip
import Quaternary.Proofs.Value.Decimal
import Quaternary.Sink
import Quaternary.Stack
import Quaternary.Value
