import Quaternary.Cli.Command
import Quaternary.Cli.Entry
import Quaternary.Log.Filter
import Quaternary.Log.Reading
import Quaternary.Machine.Trace
import Quaternary.Program.Listing

/-!
# Sessions

A session is one use of the command-line tool. It ends at once with a report, unless it runs a
program: then it goes on for as many steps as it is given, and ends when the machine halts or
fails. Standard output is a sink that may refuse what is written to it.

The parser of the arguments and the reader of filters come with the environment, and so does what
stands at a path. What goes to standard error is kept as a list of notices, since the look of a
logged event, the time that it bears, and the words for an abort are not the tool's own.
-/

namespace Quaternary.Cli

/-- What a session depends on besides its arguments. -/
structure Environment where
  parse : List String → Invocation
  filters : FilterReader
  entryAt : String → Entry
  /-- What the user has set for the log. -/
  logSetting : Option String := none
  stdout : Sink := {}

/-- Whether the events of a callsite are shown. -/
def Environment.shows (env : Environment) : Callsite → Bool := env.filters.ofSetting env.logSetting

inductive Exit where
  | success
  /-- The file cannot be read, or its text is no program. -/
  | badInput
  /-- The arguments are no command. -/
  | usage
  /-- The program failed. -/
  | fault
  /-- Standard output refused the answer. -/
  | aborted
  deriving DecidableEq, Repr

def Exit.code : Exit → Nat
  | .success => 0
  | .badInput => 1
  | .usage => 2
  | .fault => 3
  | .aborted => 101

/-- A piece of standard error. -/
inductive Notice where
  /-- A text as it stands. -/
  | text (words : String)
  /-- An event of the log. -/
  | event (e : Event)
  /-- An account of an abort, which gives the cause. -/
  | abort (cause : String)
  deriving DecidableEq, Repr

/-- The notices of those events that are shown. -/
def notices (shows : Callsite → Bool) (events : List Event) : List Notice :=
  (events.filter (shows ·.callsite)).map .event

/-- What a session has done when it is over. -/
structure Report where
  exit : Exit
  stdout : ByteArray
  stderr : List Notice

inductive Session where
  | ended (report : Report)
  /-- The machine is running; `stderr` is what has been written to standard error so far. -/
  | running (program : Program) (machine : Machine) (stderr : List Notice)

/-- The answer to a check of the file at `path`. -/
def verdict (path : String) (p : Program) : String :=
  s!"OK: {path} ({p.size} instructions, {p.skippedLines} skipped lines)\n"

namespace Session

/-- Ends with an answer on standard output, or is aborted because it was refused. -/
def answer (stdout : Sink) (text : String) (stderr : List Notice) : Session :=
  match stdout.write text.toUTF8 with
  | (.ok _, out) => .ended ⟨.success, out.written, stderr⟩
  | (.error cause, out) => .ended ⟨.aborted, out.written, stderr ++ [.abort cause]⟩

/-- Ends with a text about the tool. Whether standard output takes it makes no difference. -/
def inform (stdout : Sink) (text : String) : Session :=
  .ended ⟨.success, (stdout.write text.toUTF8).2.written, []⟩

/-- Ends without having written to standard output. -/
def reject (stdout : Sink) (exit : Exit) (stderr : List Notice) : Session :=
  .ended ⟨exit, stdout.written, stderr⟩

/-- Applies an action to a program that has been read from `path`. -/
def perform (env : Environment) (path : String) (p : Program) (stderr : List Notice) :
    Action → Session
  | .run =>
    .running p { sink := env.stdout } (stderr ++ notices env.shows [.started path p.size])
  | .check => answer env.stdout (verdict path p) stderr
  | .disassemble => answer env.stdout p.listing stderr

/-- The session that a list of arguments starts. -/
def start (env : Environment) (arguments : List String) : Session :=
  match env.parse arguments with
  | .help page => inform env.stdout page
  | .version line => inform env.stdout line
  | .misuse complaint => reject env.stdout .usage [.text complaint]
  | .act action path =>
    match (env.entryAt path).text with
    | .error cause =>
      reject env.stdout .badInput [.text s!"error: cannot read '{path}': {cause}\n"]
    | .ok source =>
      let log := notices env.shows (Program.readingEvents source)
      match Program.ofSource source with
      | .error e => reject env.stdout .badInput (log ++ [.text s!"parse error: {e.message}\n"])
      | .ok p => perform env path p log action

/-- Takes up to `budget` steps and logs them, unless they are not shown anyway. -/
def advance (shows : Callsite → Bool) (p : Program) (budget : Nat) (m : Machine) :
    Status × Machine × List Event :=
  if shows Event.stepCallsite then
    match m.runTraced p budget #[] with
    | (status, m', log) => (status, m', log.toList)
  else
    match m.run p budget with
    | (status, m') => (status, m', [])

/-- The session whose machine has come to `m` with a status. -/
def settle (shows : Callsite → Bool) (p : Program) (m : Machine) (stderr : List Notice) :
    Status → Session
  | .running => .running p m stderr
  | .halted =>
    .ended ⟨.success, m.sink.written, stderr ++ notices shows [.finished m.stack.length]⟩
  | .failed e => .ended ⟨.fault, m.sink.written, stderr ++ [.text s!"runtime error: {e.message}\n"]⟩

/-- Goes on for up to `budget` steps. -/
def resume (shows : Callsite → Bool) (budget : Nat) : Session → Session
  | .ended report => .ended report
  | .running p m stderr =>
    match advance shows p budget m with
    | (status, m', events) =>
      settle shows p m' (stderr ++ notices shows (events ++ m'.closingEvents status)) status

end Session

end Quaternary.Cli
