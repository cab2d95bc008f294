/-!
# The command line

The tool is called with the name of an action and one file, or asked about itself. How arguments
are told apart is not settled here: their parser is a parameter of a session. `Invocation` is what
it may make of them.
-/

namespace Quaternary.Cli

inductive Action where
  | run
  | check
  | disassemble
  deriving DecidableEq, Repr

def Action.ofName? : String → Option Action
  | "run" => some .run
  | "check" => some .check
  | "disassemble" => some .disassemble
  | _ => none

/-- What a list of arguments comes to. -/
inductive Invocation where
  | act (action : Action) (path : String)
  /-- The help is asked for. -/
  | help (page : String)
  /-- The version is asked for. -/
  | version (line : String)
  /-- The arguments are no command, of which the user is told. -/
  | misuse (complaint : String)
  deriving DecidableEq, Repr

end Quaternary.Cli
