import FunLanguage.CommandLine

/-!
# The program

The outer layer of the program: it gets arguments, files and input, hands them to the command line
and the debugger, and writes what they say. Programs and debugger lines are evaluated without a
limit that anyone could reach.
-/

namespace FunLanguage.Main

/-- More steps than any machine will do. -/
def budget : Nat := 1000000000000000000

/-- Writes to the standard output at once. -/
def put (text : String) : IO Unit := do
  let output ← IO.getStdout
  output.putStr text
  output.flush

/-- The number of a system error. Some layers of the system give it with a minus sign. -/
def errorNumber (code : UInt32) : Nat :=
  code.toInt32.toInt.natAbs

/-- Why the system could not read a file. -/
def failureOf (e : IO.Error) : ReadFailure :=
  let known (code : UInt32) : ReadFailure :=
    match errorNumber code with
    | 20 => .notDirectory
    | 21 => .isDirectory
    | 36 => .nameTooLong
    | _ => .other e.toString
  match e with
  | .noFileOrDirectory .. => .notFound
  | .inappropriateType _ code _ => known code
  | .invalidArgument _ code _ => known code
  | .unsatisfiedConstraints code _ => known code
  | .otherError code _ => known code
  | _ => .other e.toString

/-- Reads the text of a file. -/
def readText (path : String) : IO (Except ReadFailure String) := do
  if path.isEmpty then return .error .notFound
  if path.toList.contains '\x00' then return .error .nullInName
  match ← (IO.FS.readBinFile path).toBaseIO with
  | .error e => return .error (failureOf e)
  | .ok content =>
    match Text.Utf8.decode? content.toList with
    | some text => return .ok (String.ofList text)
    | none => return .error .notUtf8

/-- A host that knows the file that a line of input asks for. Programs run on the thread that there
is. -/
def hostFor (line : String) : IO Host := do
  match Input.ofLine line with
  | .ok (.command (.load path) _) =>
    let content ← readText path
    return { read := fun _ => content }
  | _ => return { read := fun _ => .error .notFound }

/-- Reads the bytes of a line up to its line feed. There are none at the end of the input. -/
partial def readLine (input : IO.FS.Stream) (before : ByteArray := .empty) : IO ByteArray := do
  let byte ← input.read 1
  if byte.isEmpty then return before
  let line := before ++ byte
  if byte[0]? == some 0x0A then return line else readLine input line

/-- Responds to the lines of the input, until it ends. -/
partial def converse (d : Debugger) (input : IO.FS.Stream) : IO Unit := do
  let bytes ← readLine input
  unless bytes.isEmpty do
    let line := Text.lineOfBytes bytes.toList
    if let some (next, shown) := d.respond budget (← hostFor line) line then
      put shown
      converse next input

/-- Runs a machine to its end and writes the text of the program as it comes. -/
partial def stream (m : Machine) : IO (Except Fault Int32) := do
  let (written, rest) := m.emit
  unless written.isEmpty do put written
  match rest with
  | .inl outcome => return outcome
  | .inr m => stream m

/-- Runs a source text. Its output has been written by the end. -/
def run (path source : String) : IO Exit := do
  let outcome ←
    match SourceRun.machine source with
    | .error fault => pure (.error fault)
    | .ok m => stream m
  return .ofRun (.ended source (some path) outcome "")

/-- Does what the arguments ask for. -/
def start (arguments : List String) : IO Exit := do
  match Invocation.ofArguments arguments with
  | .help => return .help
  | .misuse => return .misuse
  | .run path =>
    match ← readText path with
    | .ok source => run path source
    | .error failure => return .unreadable path failure
  | .debug path? =>
    let host ← hostFor ((path?.map Invocation.preload).getD "")
    if let some (d, written) := Invocation.debugger budget host path? then
      put (written ++ d.prompt)
      converse d (← IO.getStdin)
    return {}

end FunLanguage.Main

/-- Does what the arguments ask for, and ends with what is still to be written. -/
def main (arguments : List String) : IO UInt32 := do
  let exit ← FunLanguage.Main.start arguments
  FunLanguage.Main.put exit.output
  IO.eprint exit.errors.text
  return exit.code.toUInt32
