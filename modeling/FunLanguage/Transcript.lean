import FunLanguage.Debugger
import FunLanguage.Text.Utf8

/-!
# Transcripts

A transcript is all that the debugger writes while it reads its input line by line: the prompt in
front of each line, what the line makes it write, and a last prompt where the input ends.
-/

namespace FunLanguage

/-- The text of a line of input given in bytes, without the carriage returns and the line feed that
end it. Bytes that are no UTF-8 show as replacement characters. -/
def Text.lineOfBytes (bytes : List UInt8) : String :=
  String.ofList (trimEnd isLineEnd (Utf8.decodeLenient bytes))

/-- The lines of an input given in bytes. -/
def Text.linesOfBytes (bytes : List UInt8) : List String :=
  (splitAfter (· == 0x0A) bytes).map lineOfBytes

namespace Debugger

/-- Carries out a line, and shows the prompt for the next one. Gives the debugger after the line and
the text written. -/
def respond (d : Debugger) (budget : Nat) (host : Host) (line : String) :
    Option (Debugger × String) :=
  (d.executeLine budget host line).map fun (next, written) => (next, written ++ next.prompt)

/-- Responds to one line after the other. -/
def respondEach (d : Debugger) (budget : Nat) (host : Host) :
    (lines : List String) → Option (Debugger × String)
  | [] => some (d, "")
  | line :: lines => do
    let (next, shown) ← d.respond budget host line
    let (last, rest) ← next.respondEach budget host lines
    return (last, shown ++ rest)

/-- Shows the prompt, and responds to lines. Gives the debugger after that and the text written. -/
def converse (d : Debugger) (budget : Nat) (host : Host) (lines : List String) :
    Option (Debugger × String) :=
  (d.respondEach budget host lines).map fun (last, shown) => (last, d.prompt ++ shown)

/-- The whole conversation over an input. A run that is still suspended where the input ends is
abandoned. -/
def transcript (d : Debugger) (budget : Nat) (host : Host) (input : List UInt8) :
    Option (Debugger × String) :=
  (d.converse budget host (Text.linesOfBytes input)).map fun (last, written) =>
    (last.stop, written)

end Debugger

end FunLanguage
