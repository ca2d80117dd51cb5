import FunLanguage.Fault

/-!
# Diagnostics

A diagnostic shows a fault at its place in the source. Its headline carries colours as terminal
codes. The offsets of the fault's span are bytes, but they are taken for characters when the place
is looked up, so behind text that is not ASCII the place shown lies further on, and it may lie
outside of the source; then only the headline is shown.
-/

namespace FunLanguage

/-- Characters of the source that are marked, and what is written at them. -/
structure Label where
  place : Span
  message : String
  deriving DecidableEq, Repr

/-- What is shown of a fault. Parts that cannot be placed in the source are missing. -/
structure Diagnostic where
  headline : String
  location? : Option String := none
  label? : Option Label := none
  help? : Option String := none
  deriving DecidableEq, Repr

/-! ## Places in the source -/

/-- Whether a character ends a line as it is shown. A carriage return in front of a line feed ends a
line only together with it. -/
def Text.isShownLineEnd (c : Char) : Bool :=
  c == '\n' || c == '\r' || c == '\x0b' || c == '\x0c' || c == '\u0085' || c == '\u2028'
    || c == '\u2029'

/-- The lines of a text as it is shown, each with what ends it. -/
def Text.shownLines : List Char → List (List Char)
  | [] => []
  | '\r' :: '\n' :: cs => ['\r', '\n'] :: shownLines cs
  | c :: cs =>
    if isShownLineEnd c then [c] :: shownLines cs
    else
      match shownLines cs with
      | [] => [[c]]
      | line :: lines => (c :: line) :: lines

/-- A line as it is shown: its number, counted from 1, and the characters in front of it and up to
its end. -/
structure ShownLine where
  number : Nat
  start : Nat
  stop : Nat
  deriving DecidableEq, Repr

/-- The line that holds the character at an offset, among lines of which the first has the given
number and start. The end of the text belongs to the last line. -/
def ShownLine.find? (number start offset : Nat) : List (List Char) → Option ShownLine
  | [] => none
  | [line] =>
    if offset ≤ start + line.length then some ⟨number, start, start + line.length⟩ else none
  | line :: lines =>
    if offset < start + line.length then some ⟨number, start, start + line.length⟩
    else find? (number + 1) (start + line.length) offset lines

/-! ## Faults -/

namespace Fault

/-- The kind of fault, as a title. -/
def title : Fault → String
  | malformed _ => "Syntax Error"
  | unknownIdentifier .. => "Unknown Identifier"
  | redefinition .. => "Redefinition Error"
  | arithmetic _ => "Arithmetic Error"
  | functionCall .. => "Function Call Error"
  | wrongArgumentsNumber .. => "Function Call Error"
  | stopped => "Stopped"

/-- What is written at the place of the fault. -/
def label : Fault → String
  | malformed e => e.message
  | unknownIdentifier name _ => "'" ++ name ++ "' is not defined"
  | redefinition name _ => "'" ++ name ++ "' is already defined in this scope"
  | arithmetic _ => "division or remainder by zero"
  | functionCall name _ => "'" ++ name ++ "' called with the wrong number of arguments"
  | fault => fault.message

/-- The advice on the fault. -/
def help? : Fault → Option String
  | malformed e => e.help?
  | _ => none

/-- The terminal code of the colour that the title has. -/
def colour : Fault → String
  | malformed _ => "33"
  | _ => "35"

/-- The place of the fault: its own if it is a syntax error, else the line it points at, else the
beginning of the source. -/
def span (fault : Fault) (source : String) : Span :=
  match fault with
  | malformed e => e.span
  | fault =>
    match fault.line? with
    | some line => .ofLine source line
    | none => .single 0

/-- A text between the terminal codes that set a colour and reset it. -/
def coloured (code text : String) : String :=
  "\x1b[" ++ code ++ "m" ++ text ++ "\x1b[0m"

/-- The first line of a diagnostic of the fault. -/
def headline (fault : Fault) : String :=
  let line := coloured "31" "Error:" ++ " " ++ coloured fault.colour fault.title ++ ": "
    ++ fault.message
  String.ofList (line.toList.takeWhile (· != '\n'))

/-- The diagnostic of the fault in a source with a name. -/
def diagnostic (fault : Fault) (source : String) (filename? : Option String) : Diagnostic :=
  let lines := Text.shownLines source.toList
  let place := fault.span source
  let first? := ShownLine.find? 1 0 place.start lines
  let last? :=
    if place.start < place.stop then ShownLine.find? 1 0 (place.stop - 1) lines else first?
  match first?, last? with
  | some first, some last =>
    let location := filename?.getD "<input>" ++ ":" ++ toString first.number ++ ":"
      ++ toString (place.start - first.start + 1)
    let isLabelled :=
      if first.number = last.number then decide (place.stop ≤ first.stop)
      else decide (place.stop - 1 < source.length)
    { headline := fault.headline
      location? := some location
      label? := if isLabelled then some ⟨place, fault.label⟩ else none
      help? := fault.help? }
  | _, _ => { headline := fault.headline }

end Fault

/-- The diagnostic as lines of text. -/
def Diagnostic.text (d : Diagnostic) : String :=
  let line (before : String) (part? : Option String) : String :=
    match part? with
    | some part => before ++ part ++ "\n"
    | none => ""
  d.headline ++ "\n" ++ line "  at " d.location? ++ line "  " (d.label?.map (·.message))
    ++ line "  help: " d.help?

end FunLanguage
