import FunLanguage.Span

/-!
# Tokens

A token is a lexeme with its kind and its place: the span it covers and the line it starts on. The
last token of a scanned text is an end mark.
-/

namespace FunLanguage

/-- The kinds of token. -/
inductive TokenKind where
  | leftParen
  | rightParen
  | leftBrace
  | rightBrace
  | comma
  | semicolon
  | minus
  | plus
  | slash
  | star
  | percent
  | equal
  | equalEqual
  | bangEqual
  | greater
  | greaterEqual
  | less
  | lessEqual
  | andAnd
  | orOr
  | identifier
  | integer
  | elseWord
  | funWord
  | ifWord
  | returnWord
  | varWord
  | whileWord
  | endMark
  deriving DecidableEq, Repr, Inhabited

/-- A lexeme with its kind, the span it covers and the line, counted from 1, that it starts on. -/
structure Token where
  kind : TokenKind
  lexeme : String
  span : Span
  line : Nat
  deriving DecidableEq, Repr, Inhabited

/-- One of the tokens is an end mark. -/
abbrev Token.Marked (tokens : List Token) : Prop :=
  ∃ t ∈ tokens, t.kind = .endMark

namespace TokenKind

/-- The kind of a word that is reserved. -/
def ofKeyword? : String → Option TokenKind
  | "else" => some elseWord
  | "fun" => some funWord
  | "if" => some ifWord
  | "return" => some returnWord
  | "var" => some varWord
  | "while" => some whileWord
  | _ => none

/-- The kind of a word: its own if it is reserved, else identifier. -/
def ofWord (word : String) : TokenKind :=
  (ofKeyword? word).getD identifier

/-- The kind of a sign made of one character. -/
def ofSign? : Char → Option TokenKind
  | '(' => some leftParen
  | ')' => some rightParen
  | '{' => some leftBrace
  | '}' => some rightBrace
  | ',' => some comma
  | ';' => some semicolon
  | '-' => some minus
  | '+' => some plus
  | '/' => some slash
  | '*' => some star
  | '%' => some percent
  | '=' => some equal
  | '>' => some greater
  | '<' => some less
  | _ => none

/-- The kind of a sign made of two characters. -/
def ofDoubleSign? : Char → Char → Option TokenKind
  | '=', '=' => some equalEqual
  | '!', '=' => some bangEqual
  | '>', '=' => some greaterEqual
  | '<', '=' => some lessEqual
  | '&', '&' => some andAnd
  | '|', '|' => some orOr
  | _, _ => none

end TokenKind

end FunLanguage
