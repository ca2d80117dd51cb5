import FunLanguage.SyntaxError
import FunLanguage.Text.Numeral
import FunLanguage.Unicode.Alphabetic
import FunLanguage.Unicode.Numeric

/-!
# Scanning a text into tokens

A text is cut, from left to right, into pieces: blanks, comments and lexemes, each as long as it can
be. `Piece.cut` takes one piece off a text, and `Token.scanFrom` repeats it, keeping the place of
each lexeme. The pieces lose nothing: a piece and what it leaves are the text it was cut from
(`Piece.cut_text`).
-/

namespace FunLanguage

open Text (byteLength)

/-- A place in a source text: the bytes before it, and the line, counted from 1, that it is on. -/
structure Mark where
  offset : Nat
  line : Nat
  deriving DecidableEq, Repr

namespace Mark

/-- The beginning of a text. -/
def origin : Mark := ⟨0, 1⟩

/-- The place reached from a mark by passing over `text`. -/
def advance (m : Mark) (text : List Char) : Mark :=
  ⟨m.offset + byteLength text, m.line + text.count '\n'⟩

/-- The span of `text` where it starts at the mark. -/
def spanOf (m : Mark) (text : List Char) : Span :=
  ⟨m.offset, m.offset + byteLength text⟩

end Mark

/-! ## Pieces -/

/-- Whether a character only separates lexemes. -/
def isBlank (c : Char) : Bool :=
  c == ' ' || c == '\t' || c == '\r' || c == '\n'

/-- Whether an identifier may start with the character. -/
def isWordStart (c : Char) : Bool :=
  Unicode.isAlphabetic c || c == '_'

/-- Whether an identifier may go on with the character. -/
def isWordPart (c : Char) : Bool :=
  Unicode.isAlphabetic c || c == '_' || Unicode.isNumeric c

/-- What a text is cut into. -/
inductive Piece where
  /-- A blank or a comment, which makes no token. -/
  | gap (text : List Char)
  | lexeme (kind : TokenKind) (text : List Char)
  deriving DecidableEq, Repr

/-- The characters of a piece. -/
def Piece.text : Piece → List Char
  | gap text => text
  | lexeme _ text => text

/-- Why no piece can be cut off, with the characters to blame. -/
structure Obstacle where
  complaint : Complaint
  text : List Char
  deriving DecidableEq, Repr

namespace Piece

/-- Cuts the first piece off the text that starts with `c` and goes on with `cs`, and gives what
is left. -/
def cut (c : Char) (cs : List Char) : Except Obstacle (Piece × List Char) :=
  if isBlank c then .ok (gap [c], cs)
  else if c.isDigit then
    let digits := c :: cs.takeWhile Char.isDigit
    if (Text.int32? digits).isSome then
      .ok (lexeme .integer digits, cs.dropWhile Char.isDigit)
    else .error ⟨.integerOutOfRange (String.ofList digits), digits⟩
  else if isWordStart c then
    let word := c :: cs.takeWhile isWordPart
    .ok (lexeme (.ofWord (String.ofList word)) word, cs.dropWhile isWordPart)
  else if c = '/' ∧ cs.head? = some '/' then
    .ok (gap (c :: cs.takeWhile (· != '\n')), cs.dropWhile (· != '\n'))
  else
    match cs.head?.bind (TokenKind.ofDoubleSign? c), TokenKind.ofSign? c with
    | some kind, _ => .ok (lexeme kind (c :: cs.take 1), cs.drop 1)
    | none, some kind => .ok (lexeme kind [c], cs)
    | none, none => .error ⟨.unexpectedCharacter c, [c]⟩

/-- A piece followed by what it leaves is the text it was cut from. -/
theorem cut_text {c : Char} {cs : List Char} {piece : Piece} {rest : List Char}
    (h : cut c cs = .ok (piece, rest)) : piece.text ++ rest = c :: cs := by
  unfold cut at h
  grind [Piece.text, List.takeWhile_append_dropWhile, List.take_append_drop]

/-- No piece is empty. -/
theorem cut_text_ne_nil {c : Char} {cs : List Char} {piece : Piece} {rest : List Char}
    (h : cut c cs = .ok (piece, rest)) : piece.text ≠ [] := by
  unfold cut at h
  grind [Piece.text]

/-- What is left is shorter than the text. -/
theorem cut_shorter {c : Char} {cs : List Char} {piece : Piece} {rest : List Char}
    (h : cut c cs = .ok (piece, rest)) : rest.length < (c :: cs).length := by
  have lengths := congrArg List.length (cut_text h)
  have := List.length_pos_iff.mpr (cut_text_ne_nil h)
  rw [List.length_append] at lengths
  omega

end Piece

/-! ## Tokens -/

namespace Token

/-- The token that marks the end of a text. -/
def endAt (m : Mark) : Token :=
  ⟨.endMark, "", .single m.offset, m.line⟩

/-- The token of a piece that starts at the mark, if it makes one. -/
def ofPiece? (m : Mark) : Piece → Option Token
  | .gap _ => none
  | .lexeme kind text => some ⟨kind, String.ofList text, m.spanOf text, m.line⟩

/-- The tokens of a text that starts at the mark, the end mark last. -/
def scanFrom (m : Mark) (text : List Char) : Except SyntaxError (List Token) :=
  match text with
  | [] => .ok [endAt m]
  | c :: cs =>
    match h : Piece.cut c cs with
    | .error obstacle => .error (obstacle.complaint.toError m.line (m.spanOf obstacle.text))
    | .ok (piece, rest) => do
      have := Piece.cut_shorter h
      let tokens ← scanFrom (m.advance piece.text) rest
      return (ofPiece? m piece).toList ++ tokens
termination_by text.length
decreasing_by assumption

theorem marked_of_scanFrom {m : Mark} {text : List Char} {tokens : List Token}
    (h : scanFrom m text = .ok tokens) : Marked tokens := by
  unfold scanFrom at h
  split at h
  · obtain rfl := Except.ok.inj h
    exact ⟨_, List.mem_cons_self, rfl⟩
  · split at h
    · cases h
    · next piece rest cut =>
      have := Piece.cut_shorter cut
      cases scanned : scanFrom (m.advance piece.text) rest with
      | error e =>
        rw [scanned] at h
        cases h
      | ok others =>
        rw [scanned] at h
        obtain rfl := Except.ok.inj h
        obtain ⟨mark, mem, ends⟩ := marked_of_scanFrom scanned
        exact ⟨mark, List.mem_append_right _ mem, ends⟩
termination_by text.length

/-- The tokens of a source text, the end mark last. -/
def scan (source : String) : Except SyntaxError (List Token) :=
  scanFrom .origin source.toList

/-- The tokens of a source text have an end mark. -/
theorem marked_of_scan {source : String} {tokens : List Token} (h : scan source = .ok tokens) :
    Marked tokens :=
  marked_of_scanFrom h

end Token

end FunLanguage
