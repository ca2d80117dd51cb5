import FunLanguage.Command
import FunLanguage.Suspension

/-!
# The debugger

The debugger keeps a program, a table of breakpoints and, between commands, a run that is suspended.
It carries out one command after the other; a command that fails leaves the program and the table as
they were. Everything that it and the program write goes to one output. A program is run on a thread
of its own, which the system may refuse to start.
-/

namespace FunLanguage

/-- What a debugger gets from the system that it runs on: the texts of files, and threads to run
programs on. -/
structure Host where
  read : Reader
  /-- Why no thread can be started, if none can. -/
  refusal? : Option String := none

/-- What the debugger keeps. -/
structure Debugger where
  program? : Option Program := none
  breakpoints : Breakpoints := .empty
  suspension? : Option Suspension := none

/-- What the debugger has to say. -/
inductive Notice where
  | loaded
  | overwritten (line : Nat)
  | noBreakpoint (line : Nat)
  | value (value : Int32)
  | emptyCommand
  | extraArguments
  | failed (error : CommandError)
  deriving DecidableEq, Repr

/-- The notice as a line of text. -/
def Notice.text : Notice → String
  | loaded => "Program loaded.\n"
  | overwritten line => "Warning: breakpoint at line " ++ toString line ++ " was overwritten\n"
  | noBreakpoint line => "Warning: there is no breakpoints on line " ++ toString line ++ "\n"
  | value v => "=" ++ Text.ofInt32 v ++ "\n"
  | emptyCommand => "Warning: empty command ignored\n"
  | extraArguments => "Warning: Extra arguments were ignored\n"
  | failed error => "Error: " ++ error.message ++ "\n"

/-- What comes of a command: the debugger after it, the text written, and the error if it failed. -/
structure Reply where
  debugger : Debugger
  output : String := ""
  error? : Option CommandError := none

namespace Debugger

/-- Whether a run is suspended. -/
def isSuspended (d : Debugger) : Bool :=
  d.suspension?.isSome

/-- The prompt, which shows where the run is suspended. -/
def prompt (d : Debugger) : String :=
  match d.suspension? with
  | some s => "line=" ++ toString s.line ++ ",elementType=" ++ s.kind.name ++ ">"
  | none => ">"

/-- Abandons the suspended run, if there is one. -/
def stop (d : Debugger) : Debugger :=
  { d with suspension? := none }

/-- The reply of a command that failed and changed nothing. -/
def refuse (d : Debugger) (error : CommandError) : Reply :=
  { debugger := d, error? := some error }

/-- Puts a breakpoint into the table, with a warning if it takes the place of another. -/
def install (d : Debugger) (line : Nat) (breakpoint : Breakpoint) : Reply :=
  { debugger := { d with breakpoints := d.breakpoints.insert line breakpoint }
    output := if d.breakpoints.contains line then (Notice.overwritten line).text else "" }

/-- Takes a breakpoint out of the table, with a warning if there is none. -/
def uninstall (d : Debugger) (line : Nat) : Reply :=
  { debugger := { d with breakpoints := d.breakpoints.remove line }
    output := if d.breakpoints.contains line then "" else (Notice.noBreakpoint line).text }

/-- Replaces the program by that in a file. A new program starts without breakpoints and without a
suspended run; if the file cannot be read or holds no program nothing changes. -/
def load (d : Debugger) (host : Host) (path : String) : Reply :=
  match host.read path with
  | .error .notFound => d.refuse .fileNotFound
  | .error failure => d.refuse (.unreadable path failure)
  | .ok source =>
    match Program.ofSource source with
    | .error e => d.refuse (.fault (.malformed e))
    | .ok program => { debugger := { program? := some program }, output := Notice.loaded.text }

/-- Lets a run go on to its next halt. It is kept if it is suspended by then. -/
def proceed (d : Debugger) (budget : Nat) (run : Monitored) : Option Reply :=
  (run.run d.breakpoints budget).map fun
    | .suspended suspension =>
      let (output, suspension) := suspension.takeOutput
      { debugger := { d with suspension? := some suspension }, output }
    | .finished (.ok _) world => { debugger := d.stop, output := world.output }
    | .finished (.error fault) world =>
      { debugger := d.stop, output := world.output, error? := some (.fault fault) }

/-- Abandons the suspended run and lets a new one go to its first halt. If no thread can be started
for that, there is no run any more. -/
def start (d : Debugger) (budget : Nat) (host : Host) (program : Program) : Option Reply :=
  match host.refusal? with
  | some reason => some (d.stop.refuse (.notStarted reason))
  | none => d.stop.proceed budget (.running (.ofProgram program))

/-- Evaluates an expression at the suspension and shows its value. -/
def evaluate (d : Debugger) (budget : Nat) (source : String) : Option Reply :=
  match d.suspension? with
  | none => some (d.refuse .notRunning)
  | some suspension =>
    match Expr.ofSource source with
    | .error e => some (d.refuse (.fault (.malformed e)))
    | .ok e =>
      (suspension.evaluate budget e).map fun (outcome, suspension) =>
        let (output, suspension) := suspension.takeOutput
        let d := { d with suspension? := some suspension }
        match outcome with
        | .ok value => { debugger := d, output := output ++ (Notice.value value).text }
        | .error fault => { debugger := d, output, error? := some (.fault fault) }

/-- Carries out a command, evaluating for at most `budget` steps. -/
def execute (d : Debugger) (budget : Nat) (host : Host) (command : Command) : Option Reply :=
  match command with
  | .load path => some (d.load host path)
  | .breakpoint line => some (d.install line .unconditional)
  | .condition line text =>
    if text.isEmpty then some (d.refuse .emptyCondition)
    else
      match Breakpoint.ofText text with
      | .error e => some (d.refuse (.fault (.malformed e)))
      | .ok breakpoint => some (d.install line breakpoint)
  | .list => some { debugger := d, output := d.breakpoints.listing }
  | .remove line => some (d.uninstall line)
  | .run =>
    match d.program? with
    | none => some (d.refuse .noProgram)
    | some program => d.start budget host program
  | .evaluate text => d.evaluate budget text
  | .stop => some { debugger := d.stop }
  | .resume =>
    match d.suspension? with
    | none => some (d.refuse .nothingToContinue)
    | some suspension => d.proceed budget suspension.resume

/-- Carries out a command as `execute` does, and reports an error in the text written. -/
def report (d : Debugger) (budget : Nat) (host : Host) (command : Command) (extra : Bool) :
    Option (Debugger × String) :=
  (d.execute budget host command).map fun reply =>
    match reply.error? with
    | some error => (reply.debugger, reply.output ++ (Notice.failed error).text)
    | none =>
      (reply.debugger, reply.output ++ if extra then Notice.extraArguments.text else "")

/-- Carries out what a line of input says. Gives the debugger after it and the text written. -/
def executeLine (d : Debugger) (budget : Nat) (host : Host) (line : String) :
    Option (Debugger × String) :=
  match Input.ofLine line with
  | .ok .empty => some (d, Notice.emptyCommand.text)
  | .ok .unknown => some (d, "")
  | .ok (.command command extra) => d.report budget host command extra
  | .error error => some (d, (Notice.failed error).text)

end Debugger

end FunLanguage
