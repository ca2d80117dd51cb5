import FunLanguage.Fault
import FunLanguage.Files
import FunLanguage.Text.Basic
import FunLanguage.Text.Numeral
import FunLanguage.Unicode.WhiteSpace

/-!
# Debugger commands

A command is written on one line: its word, then a line number where it takes one, then a text where
it takes one. Words and numbers end at white space. A text is all the rest of the line without the
white space around it. What is left over behind a command that takes no text is only noted.
-/

namespace FunLanguage

/-- What the debugger can be told to do. -/
inductive Command where
  | load (path : String)
  | breakpoint (line : Nat)
  | condition (line : Nat) (text : String)
  | list
  | remove (line : Nat)
  | run
  | evaluate (text : String)
  | stop
  | resume
  deriving DecidableEq, Repr

/-- Why a command was not carried out. -/
inductive CommandError where
  | missingArgument
  | wrongArgumentType
  | fileNotFound
  | unreadable (path : String) (failure : ReadFailure)
  | emptyCondition
  | notRunning
  | nothingToContinue
  | noProgram
  /-- No thread could be started to run the program on, for a reason in the words of the system. -/
  | notStarted (reason : String)
  /-- A text that the command needs is malformed, or an evaluation ended in a fault. -/
  | fault (fault : Fault)
  deriving DecidableEq, Repr

/-- The error in words. -/
def CommandError.message : CommandError → String
  | missingArgument => "some arguments missed"
  | wrongArgumentType => "wrong types of arguments"
  | fileNotFound => "file wasn't found"
  | unreadable path failure => "failed to read '" ++ path ++ "': " ++ failure.message
  | emptyCondition => "condition expression is missed"
  | notRunning => "command isn't available now - run any program first"
  | nothingToContinue => "there is nothing to continue"
  | noProgram => "no program loaded"
  | notStarted reason => "failed to start evaluation: " ++ reason
  | fault f => f.message

/-- What a line of input says. -/
inductive Input where
  /-- Nothing but white space. -/
  | empty
  /-- The first word is no command. -/
  | unknown
  /-- A command, and whether words are left over behind it. -/
  | command (command : Command) (extra : Bool)
  deriving DecidableEq, Repr

namespace Input

open Unicode (isWhiteSpace)

/-- The first word of a text and what stands behind it. -/
def word? (cs : List Char) : Option (List Char × List Char) :=
  match cs.dropWhile isWhiteSpace with
  | [] => none
  | c :: cs =>
    some ((c :: cs).takeWhile (!isWhiteSpace ·), (c :: cs).dropWhile (!isWhiteSpace ·))

/-- The text without the white space around it. -/
def remainder (cs : List Char) : String :=
  String.ofList (Text.trim isWhiteSpace cs)

/-- Whether the text holds more than white space. -/
def hasMore (cs : List Char) : Bool :=
  cs.any (!isWhiteSpace ·)

/-- A line number and what stands behind it. -/
def lineNumber (cs : List Char) : Except CommandError (Nat × List Char) :=
  match word? cs with
  | none => .error .missingArgument
  | some (word, rest) =>
    match Text.lineNumber? word with
    | none => .error .wrongArgumentType
    | some line => .ok (line, rest)

/-- The text that the rest of the line holds, which must not be empty. -/
def requiredText (cs : List Char) : Except CommandError String :=
  if hasMore cs then .ok (remainder cs) else .error .missingArgument

/-- The command with the given word, and what is left over of the text behind the word. There is
none if the word is not that of a command. -/
def arguments? (word : String) (cs : List Char) :
    Option (Except CommandError (Command × List Char)) :=
  match word with
  | "load" => some do return (.load (← requiredText cs), [])
  | "breakpoint" => some do
    let (line, rest) ← lineNumber cs
    return (.breakpoint line, rest)
  | "condition" => some do
    let (line, rest) ← lineNumber cs
    return (.condition line (remainder rest), [])
  | "list" => some (.ok (.list, cs))
  | "remove" => some do
    let (line, rest) ← lineNumber cs
    return (.remove line, rest)
  | "run" => some (.ok (.run, cs))
  | "evaluate" => some do return (.evaluate (← requiredText cs), [])
  | "stop" => some (.ok (.stop, cs))
  | "continue" => some (.ok (.resume, cs))
  | _ => none

/-- What a line of input says. -/
def ofLine (line : String) : Except CommandError Input :=
  match word? line.toList with
  | none => .ok .empty
  | some (word, rest) =>
    match arguments? (String.ofList word) rest with
    | none => .ok .unknown
    | some result => result.map fun (c, rest) => .command c (hasMore rest)

end Input

end FunLanguage
