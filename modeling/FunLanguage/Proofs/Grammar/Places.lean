import Mathlib.Data.List.Induction
import FunLanguage.Proofs.Grammar.Acceptance
import FunLanguage.Proofs.Grammar.Scanning

/-!
# Where syntax errors point

Every rule of the grammar leaves its cursor among the tokens that it started on, or fails with an
error about a place among them (`Reading.Stays`): a token, the end mark, the byte behind the last
token, or two tokens side by side. Where an outer rule replaces the error of an inner one, it points
at a token that it has read itself.

The tokens of a source text stand where they say, so all these places are parts of the source on
their lines (`Place.coherent`). The obstacle that stops a scan is one as well.
-/

namespace FunLanguage

open Grammar
open Text (byteLength)

/-! ## Places among tokens -/

section Tokens

variable (ts : List Token) (mark : Token)

/-- The cursor stands among the tokens in front of the mark, right behind the one it read last. -/
structure Cursor.Among (c : Cursor) : Prop where
  split : ∃ front, ts = front ++ c.rest ∧ c.previous? = front.getLast?
  stop : c.stop = mark

/-- The lines and the spans of a token, of the end mark, of the byte behind the last token, and of
two tokens side by side. -/
inductive Place : Nat → Span → Prop
  | token {t} (mem : t ∈ ts) : Place t.line t.span
  | mark : Place mark.line mark.span
  | behind {t} (last : ts.getLast? = some t) : Place t.line (.single t.span.stop)
  | pair {front o c back} (split : ts = front ++ o :: c :: back) :
      Place o.line ⟨o.span.start, c.span.stop⟩

/-- The error is a complaint about a place among the tokens. It is that an integer is unreadable
only if one of them has no value. -/
inductive SyntaxError.About : SyntaxError → Prop
  | intro {complaint : Complaint} {line span} (place : Place ts mark line span)
      (unreadable : complaint = .unreadableInteger → ¬ Readable ts) :
      About (complaint.toError line span)

/-- Reading stays among the tokens, or fails at one of their places. -/
inductive Reading.Stays {α : Type} {n : Nat} : Reading α n → Prop
  | ok {p} : p.next.Among ts mark → Stays (.ok p)
  | error {e} : e.About ts mark → Stays (.error e)

end Tokens

variable {ts : List Token} {mark : Token}

/-- The complaints about anything but the value of an integer ask for nothing but their place. -/
theorem SyntaxError.About.complain {complaint : Complaint} {line : Nat} {span : Span}
    (place : Place ts mark line span) (other : complaint ≠ .unreadableInteger := by simp) :
    (complaint.toError line span).About ts mark :=
  .intro place fun same => absurd same other

namespace Reading.Stays

variable {α β : Type} {m n : Nat}

theorem bind {x : Reading α m} {f : Parsed α m → Reading β n} (h : Stays ts mark x)
    (next : ∀ p, p.next.Among ts mark → Stays ts mark (f p)) : Stays ts mark (x >>= f) := by
  cases h with
  | ok among => exact next _ among
  | error about => exact .error about

theorem weaken {x : Reading α m} (h : Stays ts mark x) (le : m ≤ n) :
    Stays ts mark (x.weaken le) := by
  cases h with
  | ok among => exact .ok among
  | error about => exact .error about

theorem among {x : Reading α m} {p : Parsed α m} (h : Stays ts mark x) (ok : x = .ok p) :
    p.next.Among ts mark := by
  subst ok
  cases h with
  | ok among => exact among

theorem about {x : Reading α m} {e : SyntaxError} (h : Stays ts mark x) (error : x = .error e) :
    e.About ts mark := by
  subst error
  cases h with
  | error about => exact about

end Reading.Stays

namespace Cursor

open Reading (Stays)

/-! ## Single tokens -/

namespace Among

variable {c : Cursor} (h : c.Among ts mark)

include h

theorem read? {p : Parsed Token c.size} (read : c.read? = some p) :
    p.value ∈ ts ∧ p.next.Among ts mark := by
  obtain ⟨more, rfl⟩ := exists_advance_of_read? read
  obtain ⟨⟨front, rfl, -⟩, rfl⟩ := h
  rw [rest_of_more more]
  exact ⟨by simp, ⟨front ++ [c.peek], by simp, by simp [previous?_advance]⟩, stop_advance more⟩

theorem take? {kind : TokenKind} {p : Parsed Token c.size} (taken : c.take? kind = some p) :
    p.value ∈ ts ∧ p.next.Among ts mark :=
  h.read? (Option.filter_eq_some_iff.mp taken).1

theorem takeOperator? {operators : List BinaryOp} {p : Parsed (BinaryOp × Token) c.size}
    (taken : c.takeOperator? operators = some p) : p.value.2 ∈ ts ∧ p.next.Among ts mark := by
  obtain ⟨q, read, found⟩ := Option.bind_eq_some_iff.mp taken
  obtain ⟨operator, -, rfl⟩ := Option.map_eq_some_iff.mp found
  exact h.read? read

theorem target? {p : Parsed Token c.size} (taken : c.target? = some p) :
    p.value ∈ ts ∧ p.next.Among ts mark := by
  obtain ⟨⟨name, next, _⟩, named, taken⟩ := Option.bind_eq_some_iff.mp taken
  obtain ⟨⟨sign, after, _⟩, signed, taken⟩ := Option.bind_eq_some_iff.mp taken
  obtain rfl := Option.some.inj taken
  obtain ⟨mem, inside⟩ := h.take? named
  exact ⟨mem, (Among.take? inside signed).2⟩

/-- The next token has a place, be it the end mark. -/
theorem peek : Place ts mark c.peek.line c.peek.span := by
  obtain ⟨⟨front, rfl, -⟩, rfl⟩ := h
  cases ends : c.atEnd with
  | true =>
    rw [← stop_of_atEnd ends]
    exact .mark
  | false => exact .token (by simp [rest_of_more ends])

/-- A complaint about what is to be read next. -/
theorem reject {complaint : Complaint} (other : complaint ≠ .unreadableInteger) :
    (c.reject complaint).About ts mark := by
  obtain ⟨front, split, last⟩ := h.split
  unfold Cursor.reject
  split
  · next t ends before =>
    rw [rest_of_atEnd ends, List.append_nil] at split
    exact .complain (.behind (by rw [split, ← last, before])) other
  · exact .complain h.peek other

theorem expect (kind : TokenKind) (complaint : Complaint)
    (other : complaint ≠ .unreadableInteger := by simp) :
    Stays ts mark (c.expect kind complaint) := by
  unfold Cursor.expect
  split
  · next p taken => exact .ok (h.take? taken).2
  · exact .error (h.reject other)

/-- A complaint about the next token. -/
theorem missing (complaint : Complaint)
    (other : complaint ≠ .unreadableInteger := by simp) :
    (complaint.toError c.peek.line c.peek.span).About ts mark :=
  .complain h.peek other

/-- The token read and the one behind it stand side by side. -/
theorem pair {token : Token} {next : Cursor} {shorter : next.size < c.size} {kind : TokenKind}
    (read : c.read? = some ⟨token, next, shorter⟩) (holds : next.holds kind = true) :
    Place ts mark token.line ⟨token.span.start, next.peek.span.stop⟩ := by
  obtain ⟨front, split, -⟩ := h.split
  have rest := (read?_eq_some read).1
  have more : next.atEnd = false := by
    rw [Cursor.holds, Bool.and_eq_true, Bool.not_eq_true'] at holds
    exact holds.1
  rw [rest, rest_of_more more] at split
  exact .pair split

end Among

theorem Among.skip {c : Cursor} (h : c.Among ts mark) (kind : TokenKind) :
    (c.skip kind).Among ts mark := by
  induction c using skip.induct kind with
  | case1 c none =>
    rw [Cursor.skip, none]
    exact h
  | case2 c t next shorter taken ih =>
    rw [Cursor.skip, taken]
    exact ih (h.take? taken).2

/-! ## Expressions -/

mutual

theorem level_stays (levels : List (List BinaryOp)) {c : Cursor} (h : c.Among ts mark) :
    Stays ts mark (c.level levels) := by
  cases levels with
  | nil =>
    rw [level]
    exact operand_stays h
  | cons operators tighter =>
    rw [level]
    refine (level_stays tighter h).bind fun p first => ?_
    have := p.shorter -- for the measure, here and below
    exact (chain_stays operators tighter p.value first).weaken _
termination_by (c.size, levels.length + 1)

theorem chain_stays (operators : List BinaryOp) (tighter : List (List BinaryOp)) (left : Expr)
    {c : Cursor} (h : c.Among ts mark) : Stays ts mark (c.chain operators tighter left) := by
  rw [chain]
  split
  · exact .ok h
  · next operator token next shorter taken =>
    obtain ⟨mem, inside⟩ := h.takeOperator? taken
    split
    · exact .error (.complain (.token mem))
    · next right after shorter' read =>
      have behind := (level_stays tighter inside).among read
      exact (chain_stays operators tighter _ behind).weaken _
termination_by (c.size, 0)

theorem operand_stays {c : Cursor} (h : c.Among ts mark) : Stays ts mark c.operand := by
  rw [operand]
  split
  · exact .error (h.missing _)
  · next token next started read =>
    obtain ⟨mem, inside⟩ := h.read? read
    split
    · next kind =>
      split
      · exact .ok inside
      · next none =>
        refine .error (.intro (.token mem) fun _ readable => ?_)
        have value := readable token mem kind
        rw [none] at value
        cases value
    · split
      · exact .ok inside
      · next opening inside' shorter taken =>
        have opened := (inside.take? taken).2
        exact (callArguments_stays opened).bind fun p after => .ok after
    · split
      · next closes => exact .error (.complain (h.pair read closes))
      · refine (level_stays BinaryOp.levels inside).bind fun p unclosed => ?_
        exact (unclosed.expect .rightParen .unclosedParenthesis).bind fun q after => .ok after
    · exact .error (.complain (.token mem))
termination_by (c.size, 0)

theorem callArguments_stays {c : Cursor} (h : c.Among ts mark) :
    Stays ts mark c.callArguments := by
  rw [callArguments]
  split
  · next closing next closed taken => exact .ok (h.take? taken).2
  · refine (arguments_stays h).bind fun p unclosed => ?_
    exact (unclosed.expect .rightParen .unclosedCall).bind fun q after => .ok after
termination_by (c.size, BinaryOp.levels.length + 3)

theorem arguments_stays {c : Cursor} (h : c.Among ts mark) : Stays ts mark c.arguments := by
  rw [arguments]
  split
  · exact .error (h.missing _)
  · refine (level_stays BinaryOp.levels h).bind fun p inside => ?_
    obtain ⟨first, next, shorter⟩ := p
    dsimp only
    split
    · exact .ok inside
    · next comma next' shorter' taken =>
      have behind := (inside.take? taken).2
      exact (arguments_stays behind).bind fun q after => .ok after
termination_by (c.size, BinaryOp.levels.length + 2)

end

variable {c : Cursor}

theorem expression_stays (h : c.Among ts mark) : Stays ts mark c.expression :=
  level_stays BinaryOp.levels h

/-! ## Parts of statements -/

theorem parameterNames_stays {c : Cursor} (h : c.Among ts mark) :
    Stays ts mark c.parameterNames := by
  rw [parameterNames]
  refine (h.expect .identifier .missingParameterName).bind fun p inside => ?_
  obtain ⟨first, next, shorter⟩ := p
  dsimp only
  split
  · exact .ok inside
  · next comma next' shorter' taken =>
    have behind := (inside.take? taken).2
    exact (parameterNames_stays behind).bind fun q after => .ok after
termination_by c.size

theorem parameters_stays (h : c.Among ts mark) : Stays ts mark c.parameters := by
  unfold parameters
  refine (h.expect .leftParen .missingParameterList).bind fun p inside => ?_
  obtain ⟨opening, next, shorter⟩ := p
  dsimp only
  split
  · next closing after closed taken => exact .ok (inside.take? taken).2
  · refine (parameterNames_stays inside).bind fun q unclosed => ?_
    exact (unclosed.expect .rightParen .unclosedParameterList).bind fun r after => .ok after

theorem condition_stays (of : Conditional) (h : c.Among ts mark) :
    Stays ts mark (c.condition of) := by
  unfold condition
  refine (h.expect .leftParen (.missingCondition of)).bind fun p inside => ?_
  refine (expression_stays inside).bind fun q unclosed => ?_
  exact (unclosed.expect .rightParen (.unclosedCondition of)).bind fun r after => .ok after

theorem declaration_stays (line : Nat) (h : c.Among ts mark) :
    Stays ts mark (c.declaration line) := by
  unfold declaration
  refine (h.expect .identifier .missingVariableName).bind fun p inside => ?_
  obtain ⟨name, next, shorter⟩ := p
  dsimp only
  split
  · exact .ok inside
  · next sign next' shorter' taken =>
    have behind := (inside.take? taken).2
    exact (expression_stays behind).bind fun q after => .ok after

theorem returns_stays (line : Nat) (h : c.Among ts mark) : Stays ts mark (c.returns line) := by
  unfold returns
  exact (expression_stays h).bind fun p after => .ok after

/-- Whatever is wrong with the value, the error is about the target. -/
theorem assignment_stays {target : Token} (mem : target ∈ ts) (h : c.Among ts mark) :
    Stays ts mark (c.assignment target) := by
  unfold assignment
  split
  · exact .error (.complain (.token mem))
  · next value after shorter read => exact .ok ((expression_stays h).among read)

/-! ## Statements -/

mutual

theorem statement_stays {c : Cursor} (h : c.Among ts mark) : Stays ts mark c.statement := by
  rw [statement]
  split
  · exact .error (h.missing _)
  · next token next started read =>
    have inside : next.Among ts mark := (h.read? read).2
    split
    · refine (inside.expect .identifier .missingFunctionName).bind fun p unopened => ?_
      refine (parameters_stays unopened).bind fun q unbraced => ?_
      have := p.shorter
      have := q.shorter
      exact (body_stays .parameters unbraced).bind fun r after => .ok after
    · exact (declaration_stays token.line inside).weaken _
    · refine (condition_stays .whileLoop inside).bind fun p unbraced => ?_
      have := p.shorter
      exact (body_stays (.condition .whileLoop) unbraced).bind fun q after => .ok after
    · refine (condition_stays .ifBranch inside).bind fun p unbraced => ?_
      have := p.shorter
      refine (body_stays (.condition .ifBranch) unbraced).bind fun q behind => ?_
      obtain ⟨body, after, ended⟩ := q
      dsimp only
      split
      · exact .ok behind
      · next word unbraced' shorter taken =>
        have otherwise := (behind.take? taken).2
        exact (body_stays .otherwise otherwise).bind fun r after => .ok after
    · exact (returns_stays token.line inside).weaken _
    · split
      · next target next' shorter taken =>
        obtain ⟨mem, behind⟩ := h.target? taken
        exact (assignment_stays mem behind).weaken _
      · exact (expression_stays h).bind fun p after => .ok after
termination_by (c.size, 0)

theorem body_stays (owner : BodyOwner) {c : Cursor} (h : c.Among ts mark) :
    Stays ts mark (c.body owner) := by
  rw [body]
  refine (h.expect .leftBrace (.missingLeftBrace owner)).bind fun p inside => ?_
  have := p.shorter
  refine (statements_stays inside).bind fun q unclosed => ?_
  exact (unclosed.expect .rightBrace .missingRightBrace).bind fun r after => .ok after
termination_by (c.size, 0)

theorem statements_stays {c : Cursor} (h : c.Among ts mark) : Stays ts mark c.statements := by
  rw [statements]
  split
  · exact .ok h
  · refine (statement_stays h).bind fun p inside => ?_
    have := p.shorter
    have := p.next.skip_size_le .semicolon
    exact (statements_stays (inside.skip .semicolon)).bind fun q after => .ok after
termination_by (c.size, 1)

end

end Cursor

open Cursor

/-- Every cursor that reading comes to is among the tokens. -/
theorem Grammar.Visits.among {start c : Cursor} (h : Visits start c) (hs : start.Among ts mark) :
    c.Among ts mark := by
  induction h with
  | start => exact hs
  | read _ h ih => exact (ih.read? h).2
  | take _ h ih => exact (ih.take? h).2
  | takeOperator _ h ih => exact (ih.takeOperator? h).2
  | expect _ h ih =>
    unfold Cursor.expect at h
    split at h
    · next p taken => exact Except.ok.inj h ▸ (ih.take? taken).2
    · cases h
  | skip kind _ ih => exact ih.skip kind
  | level _ h ih => exact (level_stays _ ih).among h
  | chain _ h ih => exact (chain_stays _ _ _ ih).among h
  | operand _ h ih => exact (operand_stays ih).among h
  | callArguments _ h ih => exact (callArguments_stays ih).among h
  | arguments _ h ih => exact (arguments_stays ih).among h
  | parameterNames _ h ih => exact (parameterNames_stays ih).among h
  | parameters _ h ih => exact (parameters_stays ih).among h
  | condition _ h ih => exact (condition_stays _ ih).among h
  | declaration _ h ih => exact (declaration_stays _ ih).among h
  | returns _ h ih => exact (returns_stays _ ih).among h
  | assignment _ h ih =>
    unfold Cursor.assignment at h
    split at h
    · cases h
    · next read => exact Except.ok.inj h ▸ (expression_stays ih).among read
  | target _ h ih => exact (ih.target? h).2
  | statement _ h ih => exact (statement_stays ih).among h
  | body _ h ih => exact (body_stays _ ih).among h
  | statements _ h ih => exact (statements_stays ih).among h

/-- What is wrong with tokens is wrong at one of their places. -/
theorem Program.about_of_ofTokens {tokens : List Token} {marked : Token.Marked tokens}
    {e : SyntaxError} (start : (Cursor.ofTokens tokens marked).Among ts mark)
    (h : ofTokens tokens marked = .error e) : e.About ts mark := by
  have read := statements_stays start
  cases result : (Cursor.ofTokens tokens marked).statements with
  | error e' =>
    simp only [ofTokens, result, bind, Except.bind, Except.error.injEq] at h
    exact h ▸ read.about result
  | ok p =>
    simp only [ofTokens, result, bind, Except.bind] at h
    split at h
    · cases h
    · next left =>
      have mem := ((read.among result).read? left).1
      exact Except.error.inj h ▸ .complain (.token mem)

/-- Only two messages start with the first letter of that about an unreadable integer. -/
theorem Complaint.of_message_head? {complaint : Complaint}
    (h : complaint.message.toList.head? = some 'I') :
    complaint = .unreadableInteger ∨ ∃ digits, complaint = .integerOutOfRange digits := by
  delta message at h
  cases complaint with
  | unreadableInteger => exact .inl rfl
  | integerOutOfRange digits => exact .inr ⟨digits, rfl⟩
  | _ => simp at h

/-- No other complaint has the message of an unreadable integer. -/
theorem Complaint.message_eq_iff (complaint : Complaint) :
    complaint.message = unreadableInteger.message ↔ complaint = .unreadableInteger := by
  constructor
  · intro same
    obtain rfl | ⟨digits, rfl⟩ := of_message_head? (by rw [same]; rfl)
    · rfl
    · have length : ("Invalid integer: " ++ digits).length = unreadableInteger.message.length :=
        congrArg String.length same
      rw [String.length_append] at length
      have longer : "Invalid integer: ".length = 17 := by decide
      have shorter : unreadableInteger.message.length = 15 := by decide
      omega
  · rintro rfl
    rfl

/-! ## Places in a source text -/

/-- A character of the text starts at the offset, or the text ends there. -/
def Text.IsBoundary (text : List Char) (offset : Nat) : Prop :=
  ∃ before after, text = before ++ after ∧ offset = byteLength before

/-- The span starts in the source, on the line, and is not empty. It ends between two characters of
the source, or one byte behind all of them. -/
structure Coherent (source : List Char) (line : Nat) (span : Span) : Prop where
  start : ∃ before after, source = before ++ after ∧ span.start = byteLength before ∧
    line = 1 + before.count '\n'
  nonempty : span.start < span.stop
  stop_le : span.stop ≤ byteLength source + 1
  stop : span.stop = byteLength source + 1 ∨ Text.IsBoundary source span.stop

namespace Text.IsBoundary

variable {text : List Char} {offset : Nat}

theorem le_byteLength (h : IsBoundary text offset) : offset ≤ byteLength text := by
  obtain ⟨before, after, rfl, rfl⟩ := h
  rw [byteLength_append]
  exact Nat.le_add_right ..

end Text.IsBoundary

namespace Coherent

variable {before text after : List Char}

/-- A part of the source is where it starts. -/
theorem part (nonempty : text ≠ []) :
    Coherent (before ++ text ++ after) (1 + before.count '\n')
      ⟨byteLength before, byteLength before + byteLength text⟩ := by
  have stop : Text.IsBoundary (before ++ text ++ after) (byteLength before + byteLength text) :=
    ⟨before ++ text, after, rfl, (Text.byteLength_append before text).symm⟩
  have length : 0 < byteLength text :=
    Nat.lt_of_lt_of_le (List.length_pos_iff.mpr nonempty) (Text.length_le_byteLength text)
  exact ⟨⟨before, text ++ after, List.append_assoc .., rfl, rfl⟩, Nat.lt_add_of_pos_right length,
    Nat.le_succ_of_le stop.le_byteLength, .inr stop⟩

/-- The byte behind the source is on its last line. -/
theorem behind (source : List Char) :
    Coherent source (1 + source.count '\n') (.single (byteLength source)) :=
  ⟨⟨source, [], (List.append_nil source).symm, rfl, rfl⟩, Nat.lt_succ_self _, Nat.le_refl _,
    .inl rfl⟩

end Coherent

namespace Piece

/-- No character of a lexeme is blank. -/
theorem Form.not_isBlank {kind : TokenKind} {text : List Char} (form : (lexeme kind text).Form) :
    ∀ c ∈ text, isBlank c = false := by
  cases form with
  | integer digits => exact fun c mem => not_isBlank_of_isDigit (digits c mem)
  | word start parts =>
    refine List.forall_mem_cons.mpr ⟨not_isBlank_of_isWordStart start, fun c mem => ?_⟩
    refine Bool.eq_false_iff.mpr fun blank => ?_
    cases (parts c mem).symm.trans (not_isWordPart_of_isBlank blank)
  | sign sign => simpa using (TokenKind.ofSign?_other sign).1
  | doubleSign sign =>
    obtain ⟨first, -, -, second, -⟩ := TokenKind.ofDoubleSign?_other sign
    simpa using ⟨first, second⟩

/-- What separates lexemes starts with a character of one byte. -/
theorem Form.gap_head {text : List Char} (form : (gap text).Form) :
    ∃ c cs, text = c :: cs ∧ c.utf8Size = 1 := by
  cases form with
  | @blank c blank =>
    refine ⟨c, [], rfl, ?_⟩
    obtain rfl | rfl | rfl | rfl := isBlank_iff.mp blank <;> rfl
  | comment => exact ⟨'/', _, rfl, rfl⟩

/-- Only digits make an integer. -/
theorem Form.isDigit {text : List Char} (form : (lexeme .integer text).Form) :
    ∀ d ∈ text, d.isDigit = true := by
  generalize same : TokenKind.integer = kind at form
  cases form with
  | integer digits => exact digits
  | word =>
    unfold TokenKind.ofWord TokenKind.ofKeyword? at same
    split at same <;> cases same
  | sign sign =>
    subst same
    unfold TokenKind.ofSign? at sign
    split at sign <;> cases sign
  | doubleSign sign =>
    subst same
    unfold TokenKind.ofDoubleSign? at sign
    split at sign <;> cases sign

theorem tokens_append (m : Mark) (front back : List Piece) :
    tokens m (front ++ back) = tokens m front ++ tokens (m.advance (texts front)) back := by
  induction front generalizing m with
  | nil => rw [show texts [] = [] from rfl, m.advance_nil]; rfl
  | cons piece front ih =>
    rw [List.cons_append, tokens, tokens, ih, texts_cons, m.advance_append, List.append_assoc]

/-- Behind the last token there are only gaps. -/
theorem exists_of_getLast?_tokens {m : Mark} {pieces : List Piece} {t : Token}
    (last : (tokens m pieces).getLast? = some t) : ∃ front kind text gaps,
      pieces = front ++ lexeme kind text :: gaps ∧ (∀ piece ∈ gaps, ∃ text, piece = gap text) ∧
        t = ⟨kind, String.ofList text, (m.advance (texts front)).spanOf text,
          (m.advance (texts front)).line⟩ := by
  induction pieces using List.reverseRec with
  | nil => cases last
  | append_singleton pieces piece ih =>
    rw [tokens_append] at last
    cases piece with
    | gap text =>
      rw [show tokens _ [gap text] = [] from rfl, List.append_nil] at last
      obtain ⟨front, kind, text', gaps, rfl, all, same⟩ := ih last
      refine ⟨front, kind, text', gaps ++ [gap text], by simp, ?_, same⟩
      exact List.forall_mem_append.mpr ⟨all, by simp⟩
    | lexeme kind text =>
      rw [show tokens _ [lexeme kind text] = [_] from rfl, List.getLast?_append] at last
      exact ⟨pieces, kind, text, [], rfl, nofun, (Option.some.inj last).symm⟩

end Piece

section Scanned

variable {source : List Char} {pieces : List Piece}

theorem Token.StandsIn.coherent {t : Token} (h : t.StandsIn source)
    (nonempty : t.span.start < t.span.stop) : Coherent source t.line t.span := by
  obtain ⟨before, after, rfl, span, line⟩ := h
  rw [span] at nonempty ⊢
  rw [line]
  refine .part fun none => ?_
  rw [none] at nonempty
  exact Nat.lt_irrefl _ nonempty

/-- The byte behind the last token is a character of what separates lexemes, or the end. -/
theorem Cuts.coherent_behind (cuts : Cuts source pieces []) {t : Token}
    (last : (Piece.tokens .origin pieces).getLast? = some t) :
    Coherent source t.line (.single t.span.stop) := by
  obtain ⟨front, kind, text, gaps, rfl, all, rfl⟩ := Piece.exists_of_getLast?_tokens last
  have form := cuts.form_of_mem (List.mem_append_right front List.mem_cons_self)
  have whole : source = Piece.texts front ++ text ++ Piece.texts gaps := by
    rw [← cuts.texts_append]
    simp [Piece.texts, Piece.text]
  have line : (Mark.origin.advance (Piece.texts front)).line =
      1 + (Piece.texts front ++ text).count '\n' := by
    have none : text.count '\n' = 0 :=
      List.count_eq_zero_of_not_mem fun mem => by cases form.not_isBlank _ mem
    rw [List.count_append, none]
    rfl
  have stop : ((Mark.origin.advance (Piece.texts front)).spanOf text).stop =
      byteLength (Piece.texts front ++ text) := by
    simp [Mark.spanOf, Mark.advance, Mark.origin]
  dsimp only
  rw [line, stop]
  cases gaps with
  | nil =>
    rw [show Piece.texts [] = [] from rfl, List.append_nil] at whole
    rw [← whole]
    exact .behind source
  | cons piece gaps =>
    obtain ⟨blank, rfl⟩ := all piece List.mem_cons_self
    have form := cuts.form_of_mem (List.mem_append_right front (.tail _ List.mem_cons_self))
    obtain ⟨c, cs, rfl, size⟩ := form.gap_head
    rw [Piece.texts_cons] at whole
    have part : Coherent (Piece.texts front ++ text ++ [c] ++ (cs ++ Piece.texts gaps))
        (1 + (Piece.texts front ++ text).count '\n')
        ⟨byteLength (Piece.texts front ++ text), _ + byteLength [c]⟩ :=
      .part (List.cons_ne_nil c [])
    rw [Text.byteLength_cons, size] at part
    simpa [whole, Piece.text, Span.single] using part

/-- The places among the tokens of a source text are coherent. -/
theorem Place.coherent (cuts : Cuts source pieces []) {line : Nat} {span : Span}
    (h : Place (Piece.tokens .origin pieces)
      ⟨.endMark, "", .single (byteLength source), 1 + source.count '\n'⟩ line span) :
    Coherent source line span := by
  have at_token {t} (mem : t ∈ Piece.tokens .origin pieces) : Coherent source t.line t.span := by
    obtain ⟨-, stands, nonempty, -⟩ := cuts.token_spec mem
    exact stands.coherent nonempty
  cases h with
  | token mem => exact at_token mem
  | mark => exact .behind source
  | behind last => exact cuts.coherent_behind last
  | @pair front o c back split =>
    have opening := at_token (t := o) (by simp [split])
    have closing := at_token (t := c) (by simp [split])
    have sorted := Piece.pairwise_tokens .origin pieces
    rw [split, List.pairwise_append] at sorted
    have apart : o.span.stop ≤ c.span.start :=
      List.rel_of_pairwise_cons sorted.2.1 List.mem_cons_self
    refine ⟨opening.start, ?_, closing.stop_le, closing.stop⟩
    exact opening.nonempty.trans (Nat.lt_of_le_of_lt apart closing.nonempty)

theorem Cuts.fits_of_mem {text left : List Char} (h : Cuts text pieces left) {piece : Piece}
    (mem : piece ∈ pieces) : piece.Fits := by
  induction h with
  | nothing => cases mem
  | piece form longest fits cuts ih =>
    obtain rfl | later := List.mem_cons.mp mem
    · exact fits
    · exact ih later

/-- Every integer among the tokens of a source text has a value. -/
theorem Cuts.readable (cuts : Cuts source pieces []) : Readable (Piece.tokens .origin pieces) := by
  intro t mem kind
  obtain ⟨front, kind', text, back, rfl, rfl⟩ := Piece.exists_of_mem_tokens mem
  obtain rfl : kind' = .integer := kind
  have inside : .lexeme .integer text ∈ front ++ .lexeme .integer text :: back := by simp
  have form := cuts.form_of_mem inside
  obtain ⟨c, cs, rfl⟩ := List.exists_cons_of_ne_nil form.text_ne_nil
  rw [String.toList_ofList]
  exact (Piece.isSome_int32?_iff form.isDigit).mpr (cuts.fits_of_mem inside)

end Scanned

/-- An obstacle is in front of the text, and is no complaint of the grammar. -/
theorem Obstacle.Blocks.spec {obstacle : Obstacle} {text : List Char} (h : obstacle.Blocks text) :
    obstacle.text ≠ [] ∧ obstacle.text <+: text ∧ obstacle.complaint ≠ .unreadableInteger := by
  cases h with
  | unexpected => exact ⟨nofun, List.prefix_append [_] _, nofun⟩
  | outOfRange form => exact ⟨form.text_ne_nil, List.prefix_append .., nofun⟩

/-- What stops a scan is a part of the source. -/
theorem Token.coherent_of_scan {source : String} {e : SyntaxError} (h : scan source = .error e) :
    Coherent source.toList e.line e.span ∧ e.message ≠ Complaint.unreadableInteger.message := by
  obtain ⟨pieces, left, obstacle, cuts, blocks, rfl⟩ := scan_eq_error_iff.mp h
  obtain ⟨nonempty, ⟨rest, split⟩, other⟩ := blocks.spec
  refine ⟨?_, fun same => other ((Complaint.message_eq_iff _).mp same)⟩
  rw [← cuts.texts_append, ← split, ← List.append_assoc]
  exact .part nonempty

namespace SyntaxError.About

variable {e : SyntaxError} (h : e.About ts mark)

include h

theorem place : Place ts mark e.line e.span := by
  obtain ⟨place, -⟩ := h
  exact place

theorem message_ne (readable : Readable ts) : e.message ≠ Complaint.unreadableInteger.message := by
  obtain ⟨-, unreadable⟩ := h
  intro same
  exact unreadable ((Complaint.message_eq_iff _).mp same) readable

end SyntaxError.About

/-- Every error about a source text points at a part of it, or at the byte behind it, and is on the
line where this part starts. No integer of a source text is called unreadable, nor is one by an
inner rule whose error an outer one replaces. -/
theorem Program.errors_are_placed :
    (∀ source e, ofSource source = .error e → Coherent source.toList e.line e.span ∧
      e.message ≠ Complaint.unreadableInteger.message) ∧
    ∀ source tokens (scanned : Token.scan source = .ok tokens), Readable tokens ∧
      ∀ c, Visits (.ofTokens tokens (Token.marked_of_scan scanned)) c → ∀ e,
        c.operand = .error e → e.message ≠ Complaint.unreadableInteger.message := by
  have scanned {source tokens} (h : Token.scan source = .ok tokens) : ∃ pieces mark,
      Cuts source.toList pieces [] ∧ tokens = Piece.tokens .origin pieces ++ [mark] ∧
      mark = ⟨.endMark, "", .single (byteLength source.toList), 1 + source.toList.count '\n'⟩ ∧
      (Cursor.ofTokens tokens (Token.marked_of_scan h)).Among (Piece.tokens .origin pieces)
        mark := by
    obtain ⟨pieces, cuts, rfl⟩ := Token.scan_eq_ok_iff.mp h
    have unmarked : ∀ t ∈ Piece.tokens .origin pieces, t.kind ≠ .endMark :=
      fun t mem => (cuts.token_spec mem).1
    refine ⟨pieces, _, cuts, rfl, rfl, ⟨[], ?_, rfl⟩, ?_⟩
    · exact (ofTokens_ahead unmarked rfl []).1.symm
    · exact (ofTokens_ahead unmarked rfl []).2
  constructor
  · intro source e rejected
    cases result : Token.scan source with
    | error e' =>
      rw [ofSource_eq_error result] at rejected
      obtain rfl := Except.error.inj rejected
      exact Token.coherent_of_scan result
    | ok tokens =>
      rw [ofSource_eq_ofTokens result] at rejected
      obtain ⟨pieces, mark, cuts, rfl, rfl, start⟩ := scanned result
      have about := about_of_ofTokens start rejected
      exact ⟨about.place.coherent cuts, about.message_ne cuts.readable⟩
  · intro source tokens result
    obtain ⟨pieces, mark, cuts, rfl, rfl, start⟩ := scanned result
    refine ⟨Grammar.readable_append.mpr ⟨cuts.readable, by simp⟩, fun c visits e failed => ?_⟩
    exact ((operand_stays (visits.among start)).about failed).message_ne cuts.readable

/-- The tokens of a definition that ends with its name. -/
def Grammar.headlessTokens : List Token :=
  [⟨.funWord, "fun", ⟨1, 4⟩, 2⟩, ⟨.identifier, "é", ⟨5, 7⟩, 2⟩]

/-- The byte behind a name of two bytes, which a blank and a comment follow. -/
theorem Program.errors_are_placed_of_headless :
    let source := "\nfun é // (\n"
    let mark : Token := ⟨.endMark, "", ⟨13, 14⟩, 3⟩
    (ofSource source = .error (Complaint.missingParameterList.toError 2 ⟨7, 8⟩) ∧
      Coherent source.toList 2 ⟨7, 8⟩) ∧
    Token.scan source = .ok (headlessTokens ++ [mark]) ∧ Readable (headlessTokens ++ [mark]) ∧
      "Expected expression, found 'fun'" ≠ Complaint.unreadableInteger.message := by
  intro source mark
  have real : ∀ t ∈ headlessTokens, t.kind ≠ .endMark := by decide
  have scanned : Token.scan source = .ok (headlessTokens ++ [mark]) := by decide +kernel
  have rejected : ofSource source = .error (Complaint.missingParameterList.toError 2 ⟨7, 8⟩) := by
    rw [ofSource_eq_ofTokens scanned, ofTokens, Cursor.statements, Cursor.statement]
    rfl
  have failed :
      (Cursor.ofTokens (headlessTokens ++ [mark]) (Token.marked_of_scan scanned)).operand =
      .error ((Complaint.expressionExpected .funWord "fun").toError 2 ⟨1, 4⟩) := by
    rw [Cursor.operand]
    rfl
  obtain ⟨places, integers⟩ := errors_are_placed
  obtain ⟨readable, never⟩ := integers source _ scanned
  exact ⟨⟨rejected, (places source _ rejected).1⟩, scanned, readable, never _ .start _ failed⟩

end FunLanguage
