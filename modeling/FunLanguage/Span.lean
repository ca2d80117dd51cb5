import FunLanguage.Text.Basic

/-!
# Spans of a source text

A span is a range of byte offsets. The span of a line leaves out the carriage returns and the line
feed that end it, and is never empty.
-/

namespace FunLanguage

/-- The bytes from offset `start` up to, but not including, offset `stop`. -/
structure Span where
  start : Nat
  stop : Nat
  deriving DecidableEq, Repr, Inhabited

namespace Span

/-- The span of the one byte at an offset. -/
def single (offset : Nat) : Span :=
  ⟨offset, offset + 1⟩

/-- The span of the `n`-th of the lines that start at byte `offset`, counting from 0. Past the last
line it is the one byte after the text. -/
def ofLineFrom (offset : Nat) : List (List Char) → Nat → Span
  | [], _ => single offset
  | line :: _, 0 =>
    ⟨offset, offset + max 1 (Text.byteLength (Text.trimEnd Text.isLineEnd line))⟩
  | line :: lines, n + 1 => ofLineFrom (offset + Text.byteLength line) lines n

/-- The span of a line of the source, the first line being number 1. A line that does not exist has
the span of the one byte after the source. -/
def ofLine (source : String) : Nat → Span
  | 0 => single (Text.byteLength source.toList)
  | n + 1 => ofLineFrom 0 (Text.lines source.toList) n

end Span

end FunLanguage
