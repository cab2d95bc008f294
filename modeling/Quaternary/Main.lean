import Quaternary.Cli.Session

/-!
# The tool

Runs a session against the real file system and the real streams. A session is advanced step by
step, so that output appears at once. Where standard output refuses the bytes of a step, the
step is taken again with a sink that refuses them for the same cause.

What a session leaves open is settled here in a plain way: which arguments are commands, which texts
set a filter, and how notices are worded. In the log an event bears the time since the start.
-/

namespace Quaternary.Cli

/-! ## Arguments -/

def helpPage : String :=
  "\n".intercalate [
    "Interpreter for the Tetra base-4 stack language",
    "",
    "Usage: tetra <COMMAND>",
    "",
    "Commands:",
    "  run          Decode and execute a program",
    "  check        Decode a program without running it",
    "  disassemble  Print the canonical encoding of a program",
    "",
    "Options:",
    "  -h, --help     Print help",
    "  -V, --version  Print version",
    ""]

/-- The command that two arguments ask for, the second of which is a file in any case. -/
def commandOf (name path : String) : Invocation :=
  match Action.ofName? name with
  | some action => .act action path
  | none => .misuse helpPage

/-- What the arguments ask for. One that begins with a dash is a file after a double dash only. -/
def parseArguments : List String → Invocation
  | ["--help"] | ["-h"] | ["help"] => .help helpPage
  | ["--version"] | ["-V"] => .version "tetra 0.1.0\n"
  | [name, "--", path] => commandOf name path
  | [name, path] => if path.startsWith "-" then .misuse helpPage else commandOf name path
  | _ => .misuse helpPage

/-! ## Filters -/

/-- The greatest rank that is shown at a level, which is given by its name. -/
def rankOf? (level : List Char) : Option Nat :=
  ["off", "error", "warn", "info", "debug", "trace"].idxOf? (String.ofList (level.map Char.toLower))

/-- A part of a description: what targets it is about, by how they begin, and the greatest rank that
is shown of them. -/
def directive? (text : List Char) : Option (List Char × Nat) :=
  match text.splitOn '=' with
  | [level] => (rankOf? level).map fun rank => ([], rank)
  | [target, level] => (rankOf? level).map fun rank => (target, rank)
  | _ => none

/-- Shows what the directive with the longest beginning shows, or nothing if there is none. -/
def showsBy (directives : List (List Char × Nat)) (site : Callsite) : Bool :=
  let fitting := directives.filter fun (target, _) => target.isPrefixOf site.channel.target.toList
  let longer best d := if best.1.length ≤ d.1.length then d else best
  site.channel.level.rank ≤ (fitting.foldl longer ([], 0)).2

/-- Reads directives that are separated by commas. -/
def directives : FilterReader where
  read? text := ((text.toList.splitOn ',').mapM directive?).map showsBy
  readLenient text := showsBy ((text.toList.splitOn ',').filterMap directive?)

theorem readsWarn_directives : directives.ReadsWarn := by
  intro site
  rfl

/-! ## Notices -/

/-- How a notice is shown, `age` milliseconds after the start. -/
def Notice.wording (age : Nat) : Notice → String
  | .text words => words
  | .abort cause => s!"failed printing to stdout: {cause}\n"
  | .event e =>
    let fields := e.fields.map fun (name, value) => s!" {name}={value}"
    s!"{age}ms {e.channel.level.name} {e.channel.target}: {e.message}{String.join fields}\n"

/-! ## Files and streams -/

/-- The cause of an error, with its number where the operating system reported it. -/
def causeOf : IO.Error → String
  | .noFileOrDirectory _ code details | .interrupted _ code details
  | .alreadyExists _ code details | .invalidArgument _ code details
  | .permissionDenied _ code details | .resourceExhausted _ code details
  | .inappropriateType _ code details | .noSuchThing _ code details
  | .otherError code details | .resourceBusy code details | .resourceVanished code details
  | .unsupportedOperation code details | .hardwareFault code details
  | .unsatisfiedConstraints code details | .illegalOperation code details
  | .protocolError code details | .timeExpired code details => s!"{details} (os error {code})"
  | .unexpectedEof => "unexpected end of file"
  | .userError message => message

/-- Looks up a path. -/
def readEntry (path : String) : IO Entry := do
  try
    return .file (← IO.FS.readBinFile path)
  catch e =>
    match e with
    | .noFileOrDirectory .. => return .missing
    | .inappropriateType _ 21 _ => return .directory
    | e => return .unreadable (causeOf e)

/-- Writes bytes at once. The result is the cause of a failure, if there is one. -/
def put (out : IO.FS.Stream) (bytes : ByteArray) : IO (Option String) := do
  if bytes.isEmpty then
    return none
  try
    out.write bytes
    out.flush
    return none
  catch e =>
    return some (causeOf e)

/-- A sink that takes nothing. -/
def refusing (cause : String) : Sink := { capacity := some 0, fullCause := cause }

/-- Writes notices to standard error. -/
def tellNotices (err : IO.FS.Stream) (started : Nat) (notices : List Notice) : IO Unit := do
  for notice in notices do
    err.putStr (notice.wording ((← IO.monoMsNow) - started))

/-- Splits off what a session has written to standard output and to standard error. -/
def drain : Session → ByteArray × List Notice × Session
  | .ended report =>
    (report.stdout, report.stderr, .ended { report with stdout := .empty, stderr := [] })
  | .running p m stderr =>
    (m.sink.written, stderr, .running p { m with sink := { m.sink with written := .empty } } [])

/-- The session with a sink that takes nothing more. -/
def withRefusal (cause : String) : Session → Session
  | .ended report => .ended report
  | .running p m stderr => .running p { m with sink := refusing cause } stderr

/-- Goes on with a drained session to its end. -/
partial def conclude (shows : Callsite → Bool) (out : IO.FS.Stream) (tell : List Notice → IO Unit)
    (session : Session) : IO Exit := do
  match session with
  | .ended report => return report.exit
  | .running .. =>
    let (bytes, stderr, next) := drain (session.resume shows 1)
    match ← put out bytes with
    | some cause => conclude shows out tell (withRefusal cause session)
    | none =>
      tell stderr
      conclude shows out tell next

/-- Carries out the session that the arguments ask for. -/
def carryOut (arguments : List String) : IO Exit := do
  let out ← IO.getStdout
  let tell := tellNotices (← IO.getStderr) (← IO.monoMsNow)
  let entry ←
    match parseArguments arguments with
    | .act _ path => readEntry path
    | _ => pure .missing
  let env : Environment :=
    { parse := parseArguments, filters := directives, entryAt := fun _ => entry,
      logSetting := ← IO.getEnv "RUST_LOG" }
  let (bytes, stderr, session) := drain (.start env arguments)
  match ← put out bytes with
  | none =>
    tell stderr
    conclude env.shows out tell session
  | some cause =>
    let (_, stderr, session) := drain (.start { env with stdout := refusing cause } arguments)
    tell stderr
    conclude env.shows out tell session

end Quaternary.Cli

def main (arguments : List String) : IO UInt32 := do
  let exit ← Quaternary.Cli.carryOut arguments
  return UInt32.ofNat exit.code
