import FormDesk.Clipboard
import FormDesk.CommandLine.Arguments
import FormDesk.Settings

/-! The whole program: from arguments, settings file and input to output and exit status. -/
namespace FormDesk

structure Exit where
  status : UInt8
  output : List Char
  errors : List Char
  deriving DecidableEq, Repr

namespace Exit

def version : List Char := "zcalc 0.1.0".toList

/-- A short overview. The wording is free: of an exit that carries no command out only the status
and the stream are settled. -/
def help : List Char := ("Evaluate +/* expressions and format names as initials\n\n" ++
  "Usage: zcalc [--config <CONFIG>] [--json] <COMMAND>\n\n" ++
  "Commands:\n" ++
  "  eval [EXPRESSION]... [-c|--copy]\n" ++
  "  validate [EXPRESSION]...\n" ++
  "  clean [EXPRESSION]...\n" ++
  "  name <SURNAME> <FIRST_NAME> [PATRONYMIC]\n" ++
  "  repl\n" ++
  "  help [COMMAND]\n").toList

/-- The overview, the version, or a sentence about the problem, whose wording is as free as that of
the overview. -/
def usageText : CommandLine.Usage → List Char
  | .help => help
  | .version => version ++ ['\n']
  | .nothing => help
  | .missingCommand => "error: a command is missing\n".toList
  | .unknownCommand => "error: unknown command\n".toList
  | .unknownArgument => "error: unexpected argument\n".toList
  | .missingArgument => "error: an argument is missing\n".toList
  | .missingValue => "error: an option lacks its value\n".toList
  | .needlessValue => "error: a flag takes no value\n".toList
  | .repeated => "error: an option is given twice\n".toList

/-- The exit when a command line is not carried out: information is output, a problem is an
error. -/
def ofUsage (usage : CommandLine.Usage) : Exit :=
  if usage = .help ∨ usage = .version then ⟨0, usageText usage, []⟩
  else ⟨2, [], usageText usage⟩

/-- The exit after a failure that is not the fault of a submission. -/
def ofFailure (output message : List Char) : Exit :=
  ⟨1, output, "Error: ".toList ++ message ++ ['\n']⟩

def unreadableInputMessage : List Char :=
  "Failed to read input: stream did not contain valid UTF-8".toList

/-- The exit after a run, which is a success when every submission was accepted. -/
def ofRun (r : Run) : Exit :=
  match r.ending with
  | .completed allAccepted => ⟨if allAccepted then 0 else 1, r.output, []⟩
  | .unreadableInput => ofFailure r.output unreadableInputMessage
  | .aborted reason => ⟨101, r.output, reason.message ++ ['\n']⟩

def ofSession (s : Session) : Exit :=
  let exit := ofRun s.run
  { exit with errors := s.warnings.flatMap ("Warning: ".toList ++ · ++ ['\n']) ++ exit.errors }

end Exit

/-- The settings file that a command line names, or the one in the default place: its path and what
is found there. -/
abbrev SettingsLookup := Option (List Char) → List Char × FileState

/-- Runs the program beside a clipboard. The settings file is looked up only for a command line that
is understood, and a run begins only with settings that are. -/
def runProgramWith (clipboard : Clipboard) (lookup : SettingsLookup) (args : List (List Char))
    (input : List UInt8) : Exit :=
  match CommandLine.read args with
  | .error usage => .ofUsage usage
  | .ok i =>
    let (path, state) := lookup i.config
    match Settings.load state with
    | .error fault => .ofFailure [] (fault.message path)
    | .ok settings => .ofSession (Session.ofInvocation clipboard settings i input)

def runProgram (lookup : SettingsLookup) (args : List (List Char)) (input : List UInt8) : Exit :=
  runProgramWith .missing lookup args input

end FormDesk
