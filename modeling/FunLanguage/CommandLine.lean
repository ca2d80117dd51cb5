import FunLanguage.Diagnostic
import FunLanguage.Transcript

/-!
# The command line

The program is told what to do by its arguments: to run a file, to start the debugger, or to show
its help. Arguments are taken from left to right; the first that asks for help or cannot be
understood decides.
-/

namespace FunLanguage

/-! ## Runs of source texts -/

/-- What comes of running a source text: the outcome, the text written, and the diagnostic of a
fault. -/
structure SourceRun where
  outcome : Except Fault Int32
  output : String
  diagnostic? : Option Diagnostic

namespace SourceRun

/-- The machine that is to run a source text. -/
def machine (source : String) : Except Fault Machine :=
  match Program.ofSource source with
  | .error e => .error (.malformed e)
  | .ok program => .ok (.ofProgram program)

/-- The record of a run that has ended. -/
def ended (source : String) (filename? : Option String) (outcome : Except Fault Int32)
    (output : String) : SourceRun :=
  match outcome with
  | .ok value => ⟨.ok value, output, none⟩
  | .error fault => ⟨.error fault, output, some (fault.diagnostic source filename?)⟩

/-- Runs a source text with a name for at most `budget` steps. -/
def of (budget : Nat) (source : String) (filename? : Option String) : Option SourceRun :=
  match machine source with
  | .error fault => some (ended source filename? (.error fault) "")
  | .ok m => (m.run budget).map fun (outcome, world) => ended source filename? outcome world.output

end SourceRun

/-! ## Arguments -/

/-- What the arguments ask for. -/
inductive Invocation where
  | help
  | run (path : String)
  | debug (path? : Option String)
  /-- The arguments cannot be understood. -/
  | misuse
  deriving DecidableEq, Repr

namespace Invocation

/-- What the arguments read so far say. -/
structure Settings where
  debug : Bool := false
  path? : Option String := none

/-- What a group of short options says; none if it asks for nothing that can be decided yet. -/
def shortOptions (s : Settings) : List Char → Except Invocation Settings
  | [] => .ok s
  | 'd' :: options =>
    if s.debug then .error .misuse else shortOptions { s with debug := true } options
  | 'h' :: _ => .error .help
  | _ :: _ => .error .misuse

/-- Takes an argument for the path of the file, which can be given only once. -/
def takePath (s : Settings) (path : String) : Except Invocation Settings :=
  match s.path? with
  | none => .ok { s with path? := some path }
  | some _ => .error .misuse

/-- Reads arguments; those behind `--` are paths, whatever they look like. -/
def settings (s : Settings) : List String → Except Invocation Settings
  | [] => .ok s
  | "--" :: paths => paths.foldlM takePath s
  | argument :: arguments => do
    let s ←
      match argument.toList with
      | '-' :: '-' :: option => longOption s (String.ofList option)
      | '-' :: option :: options => shortOptions s (option :: options)
      | _ => takePath s argument
    settings s arguments
where
  /-- What a long option says. -/
  longOption (s : Settings) : String → Except Invocation Settings
    | "debug" => if s.debug then .error .misuse else .ok { s with debug := true }
    | "help" => .error .help
    | _ => .error .misuse

/-- What the arguments ask for. -/
def ofArguments (arguments : List String) : Invocation :=
  match settings {} arguments with
  | .error decided => decided
  | .ok s =>
    match s.debug, s.path? with
    | false, some path => run path
    | _, path? => debug path?

end Invocation

/-- The text that shows how the program is used. -/
def helpText : String :=
  String.intercalate "\n"
    ["Interpreter and breakpoint debugger for the Fun language", "",
      "Usage: funlang [OPTIONS] [FILE]", "",
      "Arguments:", "  [FILE]  The program to execute", "",
      "Options:", "  -d, --debug  Start the debugger, loading FILE if given",
      "  -h, --help   Print help", ""]

/-- The text that is shown for arguments that cannot be understood. -/
def misuseText : String :=
  String.intercalate "\n"
    ["error: unexpected argument found", "", "Usage: funlang [OPTIONS] [FILE]", "",
      "For more information, try '--help'.", ""]

/-! ## Invocations -/

/-- What is written to the error output. -/
inductive ErrorOutput where
  | nothing
  | message (text : String)
  | diagnostic (diagnostic : Diagnostic)
  | misuse
  deriving DecidableEq, Repr

/-- The error output as a text. -/
def ErrorOutput.text : ErrorOutput → String
  | nothing => ""
  | message text => text
  | diagnostic d => d.text
  | misuse => misuseText

/-- How an invocation ends: with an exit code and with what it has written. -/
structure Exit where
  code : Nat := 0
  output : String := ""
  errors : ErrorOutput := .nothing

namespace Exit

/-- The end of an invocation that asks for help. -/
def help : Exit :=
  { output := helpText }

/-- The end of an invocation that cannot be understood. -/
def misuse : Exit :=
  { code := 2, errors := .misuse }

/-- The message about a file that cannot be run. -/
def unreadableText (path : String) (failure : ReadFailure) : String :=
  if failure.isAbsence then "Error: File '" ++ path ++ "' not found\n"
  else "Error reading file '" ++ path ++ "': " ++ failure.message ++ "\n"

/-- The end of an invocation to run a file that cannot be read. -/
def unreadable (path : String) (failure : ReadFailure) : Exit :=
  { code := 1, errors := .message (unreadableText path failure) }

/-- The end of an invocation to run a file that has been run. -/
def ofRun (r : SourceRun) : Exit :=
  match r.diagnostic? with
  | none => { output := r.output }
  | some d => { code := 1, output := r.output, errors := .diagnostic d }

end Exit

namespace Invocation

/-- The line that loads a file. -/
def preload (path : String) : String :=
  "load " ++ path

/-- The debugger that an invocation starts with, and what it has written by then: a file that is
given is loaded as if the command to do so were the first line. -/
def debugger (budget : Nat) (host : Host) (path? : Option String) : Option (Debugger × String) :=
  match path? with
  | none => some ({}, "")
  | some path => Debugger.executeLine {} budget host (preload path)

/-- Carries out an invocation, evaluating for at most `budget` steps. -/
def exit (budget : Nat) (host : Host) (input : List UInt8) : Invocation → Option Exit
  | help => some .help
  | misuse => some .misuse
  | run path =>
    match host.read path with
    | .error failure => some (.unreadable path failure)
    | .ok source => (SourceRun.of budget source (some path)).map .ofRun
  | debug path? => do
    let (start, loading) ← debugger budget host path?
    let (_, written) ← start.transcript budget host input
    return { output := loading ++ written }

end Invocation

end FunLanguage
