import FunLanguage.SyntaxError
import FunLanguage.Tree.Operator

/-!
# Reading tokens

A cursor is a position in tokens of which one at the position or behind it is an end mark. It does
not pass an end mark, so there always is a token at it. What is read from a cursor comes with the
cursor behind it, and with the proof that tokens were used up; so the rules of the grammar can be
written as plain recursive functions.
-/

namespace FunLanguage

/-- A position in tokens, with an end mark there or behind. -/
structure Cursor where
  tokens : Array Token
  position : Nat
  marked : Token.Marked (tokens.toList.drop position)

/-- The number of tokens from the cursor on. -/
def Cursor.size (c : Cursor) : Nat :=
  c.tokens.size - c.position

/-- A cursor behind a cursor behind `c` has fewer tokens left than `c`. -/
theorem Cursor.size_lt_trans {a b c : Cursor} (hab : a.size < b.size) (hbc : b.size < c.size) :
    a.size < c.size :=
  Nat.lt_trans hab hbc

/-- A value read, and the cursor behind it, which has fewer than `bound` tokens left. -/
structure Parsed (α : Type) (bound : Nat) where
  value : α
  next : Cursor
  shorter : next.size < bound

/-- A looser bound holds as well. -/
def Parsed.weaken {α : Type} {m n : Nat} (p : Parsed α m) (h : m ≤ n) : Parsed α n :=
  ⟨p.value, p.next, Nat.lt_of_lt_of_le p.shorter h⟩

/-- What comes of reading an `α`: a syntax error, or the value with the cursor behind it. -/
abbrev Reading (α : Type) (bound : Nat) := Except SyntaxError (Parsed α bound)

/-- A looser bound holds as well. -/
def Reading.weaken {α : Type} {m n : Nat} (h : m ≤ n) (r : Reading α m) : Reading α n :=
  r.map (·.weaken h)

namespace Cursor

/-- A cursor in front of all tokens. -/
def ofTokens (tokens : List Token) (marked : Token.Marked tokens) : Cursor :=
  ⟨tokens.toArray, 0, marked⟩

theorem position_lt (c : Cursor) : c.position < c.tokens.size := by
  obtain ⟨mark, mem, -⟩ := c.marked
  have := List.length_pos_of_mem mem
  rw [List.length_drop, Array.length_toList] at this
  omega

/-- The next token. -/
def peek (c : Cursor) : Token :=
  have := c.position_lt
  c.tokens[c.position]

/-- The token in front of the cursor. -/
def previous? (c : Cursor) : Option Token :=
  match c.position with
  | 0 => none
  | n + 1 => c.tokens[n]?

/-- Whether the next token is an end mark. -/
def atEnd (c : Cursor) : Bool :=
  c.peek.kind == .endMark

/-- Whether a token of the given kind is to be read next. An end mark is not to be read. -/
def holds (c : Cursor) (kind : TokenKind) : Bool :=
  !c.atEnd && c.peek.kind == kind

/-- The tokens from the cursor on are the next token and those behind it. -/
theorem drop_position (c : Cursor) : c.tokens.toList.drop c.position =
    c.peek :: c.tokens.toList.drop (c.position + 1) :=
  List.drop_eq_getElem_cons c.position_lt

/-- Behind a token that is no end mark there still is one. -/
theorem marked_succ {c : Cursor} (more : c.atEnd = false) :
    Token.Marked (c.tokens.toList.drop (c.position + 1)) := by
  obtain ⟨mark, mem, ends⟩ := c.marked
  rw [c.drop_position] at mem
  rcases List.mem_cons.mp mem with rfl | later
  · exact absurd ends (by simpa [atEnd] using more)
  · exact ⟨mark, later, ends⟩

/-- The cursor behind the next token, which is no end mark. -/
def advance (c : Cursor) (more : c.atEnd = false) : Cursor :=
  ⟨c.tokens, c.position + 1, marked_succ more⟩

theorem size_advance_lt {c : Cursor} (more : c.atEnd = false) : (c.advance more).size < c.size :=
  Nat.sub_succ_lt_self _ _ c.position_lt

/-- Reads the next token, if it is no end mark. -/
def read? (c : Cursor) : Option (Parsed Token c.size) :=
  match more : c.atEnd with
  | true => none
  | false => some ⟨c.peek, c.advance more, size_advance_lt more⟩

/-- Reads a token of the given kind, if one comes next. -/
def take? (c : Cursor) (kind : TokenKind) : Option (Parsed Token c.size) :=
  c.read?.filter (·.value.kind == kind)

/-- Reads an operator of the given ones, if one comes next, with its token. -/
def takeOperator? (c : Cursor) (operators : List BinaryOp) :
    Option (Parsed (BinaryOp × Token) c.size) :=
  c.read?.bind fun ⟨token, next, shorter⟩ =>
    (operators.find? (·.tokenKind == token.kind)).map fun operator =>
      ⟨(operator, token), next, shorter⟩

/-- The cursor behind the tokens of the given kind that come next. -/
def skip (kind : TokenKind) (c : Cursor) : Cursor :=
  match c.take? kind with
  | none => c
  | some ⟨_, next, _⟩ => next.skip kind
termination_by c.size

/-- Skipping does not add tokens. -/
theorem skip_size_le (kind : TokenKind) (c : Cursor) : (c.skip kind).size ≤ c.size := by
  induction c using skip.induct kind with
  | case1 c none =>
    have stays : c.skip kind = c := by rw [skip, none]
    exact Nat.le_of_eq (congrArg size stays)
  | case2 c token next shorter taken ih =>
    rw [skip, taken]
    exact Nat.le_of_lt (Nat.lt_of_le_of_lt ih shorter)

/-- The error that the complaint makes where something else was to be read. At an end mark it points
at the byte behind the token in front of it. -/
def reject (c : Cursor) (complaint : Complaint) : SyntaxError :=
  match c.atEnd, c.previous? with
  | true, some t => complaint.toError t.line (.single t.span.stop)
  | _, _ => complaint.toError c.peek.line c.peek.span

/-- Reads a token of the given kind, which has to come next. -/
def expect (c : Cursor) (kind : TokenKind) (complaint : Complaint) : Reading Token c.size :=
  match c.take? kind with
  | some p => .ok p
  | none => .error (c.reject complaint)

end Cursor

end FunLanguage
