import Mathlib.Data.List.Forall2
import Mathlib.Data.List.TakeWhile
import FunLanguage.Grammar.Program
import FunLanguage.Proofs.Grammar.Cursors
import FunLanguage.Proofs.Relabelling

/-!
# Reading the same tokens at other places

Two lists of tokens are *alike* if they differ only in lines, one line going over into another, and
in spans (`Placing`). What is read from the second is what is read from the first with its lines
changed in the same way; if there is nothing to be read, the errors are in the same words, and their
places differ as those of the tokens do (`Reading.Alike`). This holds of every rule of the grammar,
as none of them asks for a line or for a span but to say where an error is.
-/

namespace FunLanguage

/-- The same names and other lines. -/
def Relabelling.ofLines (lines : Nat → Nat) : Relabelling :=
  ⟨fun _ => id, lines⟩

theorem Relabelling.faithful_ofLines (lines : Nat → Nat) : (ofLines lines).Faithful :=
  ⟨fun _ => Function.injective_id, fun _ => rfl⟩

/-! ## What is alike -/

/-- How the tokens of two texts differ in their places: the lines of the one as a function of those
of the other, and a relation between their spans, which the places behind them and between them have
as well. -/
structure Placing where
  lines : Nat → Nat
  spans : Span → Span → Prop
  behind {s s'} : spans s s' → spans (.single s.stop) (.single s'.stop)
  between {s s' t t'} : spans s s' → spans t t' →
    spans ⟨s.start, t.stop⟩ ⟨s'.start, t'.stop⟩

namespace Placing

/-- Other lines, and any spans. -/
def ofLines (lines : Nat → Nat) : Placing where
  lines := lines
  spans _ _ := True
  behind _ := trivial
  between _ _ := trivial

/-- The same places. -/
def same : Placing where
  lines := id
  spans := Eq
  behind := by
    rintro _ _ rfl
    rfl
  between := by
    rintro _ _ _ _ rfl rfl
    rfl

end Placing

section Alike

variable (π : Placing)

/-- The second token is the first at its other place. -/
structure Token.Alike (t t' : Token) : Prop where
  kind : t'.kind = t.kind
  lexeme : t'.lexeme = t.lexeme
  line : t'.line = π.lines t.line
  span : π.spans t.span t'.span

/-- The tokens still to be read are alike, and so are those in front of the cursors. -/
structure Cursor.Alike (c c' : Cursor) : Prop where
  rest : List.Forall₂ (Token.Alike π) c.rest c'.rest
  stop : c.stop.Alike π c'.stop
  previous : Option.Rel (Token.Alike π) c.previous? c'.previous?

/-- The values are related and the cursors behind them are alike. -/
structure Parsed.Alike {α : Type} {m n : Nat} (same : α → α → Prop) (p : Parsed α m)
    (p' : Parsed α n) : Prop where
  value : same p.value p'.value
  next : p.next.Alike π p'.next

/-- The errors are in the same words, and about places that differ as the tokens do. -/
structure SyntaxError.Alike (e e' : SyntaxError) : Prop where
  message : e'.message = e.message
  help : e'.help? = e.help?
  line : e'.line = π.lines e.line
  span : π.spans e.span e'.span

/-- Both readings give values and cursors that are alike, or errors that are alike. -/
inductive Reading.Alike {α : Type} {m n : Nat} (same : α → α → Prop) :
    Reading α m → Reading α n → Prop
  | ok {p p'} : Parsed.Alike π same p p' → Alike same (.ok p) (.ok p')
  | error {e e'} : e.Alike π e' → Alike same (.error e) (.error e')

/-- The second expression is the first with its lines changed. -/
def Expr.Alike (e e' : Expr) : Prop :=
  e' = e.relabel (.ofLines π.lines)

/-- The second statement is the first with its lines changed. -/
def Stmt.Alike (s s' : Stmt) : Prop :=
  s' = s.relabel (.ofLines π.lines)

/-- The second block is the first with its lines changed. -/
def Block.Alike (b b' : Block) : Prop :=
  b' = b.relabel (.ofLines π.lines)

end Alike

variable {π : Placing}

theorem Token.Alike.refl (t : Token) : t.Alike .same t :=
  ⟨rfl, rfl, rfl, rfl⟩

/-- Errors that are alike and about the same place are the same. -/
theorem SyntaxError.Alike.eq {e e' : SyntaxError} (h : e.Alike .same e') : e' = e := by
  obtain ⟨message, help, line, span⟩ := h
  cases e
  cases e'
  simp_all [Placing.same]

/-- Complaints about tokens that are alike are alike. -/
theorem SyntaxError.Alike.complain (complaint : Complaint) {line line' : Nat} {span span' : Span}
    (lines : line' = π.lines line) (spans : π.spans span span') :
    (complaint.toError line span).Alike π (complaint.toError line' span') :=
  ⟨rfl, rfl, lines, spans⟩

namespace Reading.Alike

variable {α β : Type} {m n k l : Nat} {same : α → α → Prop} {same' : β → β → Prop}

/-- Readings that are alike go on with readings that are alike. -/
theorem bind {x : Reading α m} {x' : Reading α n} {f : Parsed α m → Reading β k}
    {f' : Parsed α n → Reading β l} (h : Alike π same x x')
    (next : ∀ p p', Parsed.Alike π same p p' → Alike π same' (f p) (f' p')) :
    Alike π same' (x >>= f) (x' >>= f') := by
  cases h with
  | ok alike => exact next _ _ alike
  | error alike => exact .error alike

theorem weaken {x : Reading α m} {x' : Reading α n} (h : Alike π same x x') (le : m ≤ k)
    (le' : n ≤ l) : Alike π same (x.weaken le) (x'.weaken le') := by
  cases h with
  | ok alike => exact .ok ⟨alike.value, alike.next⟩
  | error alike => exact .error alike

end Reading.Alike

namespace Cursor

/-! ## Single tokens -/

variable {c c' : Cursor}

section Tokens

variable (h : c.Alike π c')

include h

theorem Alike.peek : c.peek.Alike π c'.peek := by
  have rest := h.rest
  rw [peek_eq c, peek_eq c']
  generalize c.rest = ts, c'.rest = ts' at rest ⊢
  cases rest with
  | nil => exact h.stop
  | cons first _ => exact first

theorem Alike.atEnd : c'.atEnd = c.atEnd := by
  rw [Cursor.atEnd, Cursor.atEnd, h.peek.kind]

theorem Alike.holds (kind : TokenKind) : c'.holds kind = c.holds kind := by
  rw [Cursor.holds, Cursor.holds, h.atEnd, h.peek.kind]

theorem Alike.read? : Option.Rel (Parsed.Alike π (Token.Alike π)) c.read? c'.read? := by
  have rest := h.rest
  generalize ahead : c.rest = ts, ahead' : c'.rest = ts' at rest
  cases rest with
  | nil =>
    rw [read?_eq_none_iff.mpr ahead, read?_eq_none_iff.mpr ahead']
    exact .none
  | cons first others =>
    obtain ⟨more, read, next⟩ := exists_read?_of_cons ahead
    obtain ⟨more', read', next'⟩ := exists_read?_of_cons ahead'
    rw [read, read']
    refine .some ⟨first, by rwa [next, next'], ?_, ?_⟩
    · rw [stop_advance, stop_advance]
      exact h.stop
    · rw [previous?_advance, previous?_advance]
      exact .some h.peek

theorem Alike.take? (kind : TokenKind) :
    Option.Rel (Parsed.Alike π (Token.Alike π)) (c.take? kind) (c'.take? kind) := by
  have read := h.read?
  unfold Cursor.take?
  generalize c.read? = next?, c'.read? = next?' at read ⊢
  cases read with
  | none => exact .none
  | @some p p' alike =>
    rw [Option.filter_some, Option.filter_some, alike.value.kind]
    split
    · exact .some alike
    · exact .none

theorem Alike.takeOperator? (operators : List BinaryOp) :
    Option.Rel (Parsed.Alike π fun x x' => x'.1 = x.1 ∧ x.2.Alike π x'.2)
      (c.takeOperator? operators) (c'.takeOperator? operators) := by
  have read := h.read?
  unfold Cursor.takeOperator?
  generalize c.read? = next?, c'.read? = next?' at read ⊢
  cases read with
  | none => exact .none
  | @some p p' alike =>
    simp only [Option.bind_some, alike.value.kind]
    cases operators.find? (·.tokenKind == p.value.kind) with
    | none => exact .none
    | some operator => exact .some ⟨⟨rfl, alike.value⟩, alike.next⟩

theorem Alike.reject (complaint : Complaint) :
    (c.reject complaint).Alike π (c'.reject complaint) := by
  have before := h.previous
  unfold Cursor.reject
  rw [h.atEnd]
  have here := SyntaxError.Alike.complain complaint h.peek.line h.peek.span
  generalize c.previous? = last?, c'.previous? = last?' at before ⊢
  cases c.atEnd with
  | false => exact here
  | true =>
    cases before with
    | none => exact here
    | some last => exact SyntaxError.Alike.complain complaint last.line (π.behind last.span)

theorem Alike.expect (kind : TokenKind) (complaint : Complaint) :
    Reading.Alike π (Token.Alike π) (c.expect kind complaint)
      (c'.expect kind complaint) := by
  have taken := h.take? kind
  unfold Cursor.expect
  generalize c.take? kind = next?, c'.take? kind = next?' at taken ⊢
  cases taken with
  | none => exact .error (h.reject complaint)
  | some alike => exact .ok alike

end Tokens

theorem Alike.skip (h : c.Alike π c') (kind : TokenKind) :
    (c.skip kind).Alike π (c'.skip kind) := by
  induction c using skip.induct kind generalizing c' with
  | case1 c none =>
    have taken := h.take? kind
    rw [Cursor.skip, Cursor.skip, none]
    rw [none] at taken
    generalize c'.take? kind = next? at taken
    cases taken with
    | none => exact h
  | case2 c t next shorter some ih =>
    have taken := h.take? kind
    rw [Cursor.skip, some]
    rw [some] at taken
    rw [Cursor.skip]
    generalize c'.take? kind = next? at taken
    cases taken with
    | some alike => exact ih alike.next

/-! ## Expressions -/

mutual

theorem level_alike (levels : List (List BinaryOp)) {c c' : Cursor} (h : c.Alike π c') :
    Reading.Alike π (Expr.Alike π) (c.level levels) (c'.level levels) := by
  cases levels with
  | nil =>
    rw [level, level]
    exact operand_alike h
  | cons operators tighter =>
    rw [level, level]
    refine (level_alike tighter h).bind fun p p' first => ?_
    have := p.shorter -- for the measure, here and below
    exact (chain_alike operators tighter first.value first.next).weaken _ _
termination_by (c.size, levels.length + 1)

theorem chain_alike (operators : List BinaryOp) (tighter : List (List BinaryOp)) {left left' : Expr}
    (lefts : left.Alike π left') {c c' : Cursor} (h : c.Alike π c') :
    Reading.Alike π (Expr.Alike π) (c.chain operators tighter left)
      (c'.chain operators tighter left') := by
  have taken := h.takeOperator? operators
  rw [chain, chain]
  generalize c.takeOperator? operators = next?, c'.takeOperator? operators = next?' at taken ⊢
  cases taken with
  | none => exact .ok ⟨lefts, h⟩
  | @some p p' sign =>
    obtain ⟨⟨operator, token⟩, next, shorter⟩ := p
    obtain ⟨⟨operator', token'⟩, next', shorter'⟩ := p'
    obtain ⟨⟨same, tokens⟩, nexts⟩ := sign
    obtain rfl : operator' = operator := same
    have right := level_alike tighter nexts
    dsimp only
    generalize next.level tighter = right?, next'.level tighter = right?' at right ⊢
    cases right with
    | error _ =>
      rw [show token'.lexeme = token.lexeme from tokens.lexeme]
      exact .error (SyntaxError.Alike.complain _ tokens.line tokens.span)
    | @ok q q' right =>
      have := q.shorter
      -- the invariant of the chain: what has been read so far is alike
      have joined : (Expr.binary operator' left q.value left.line).Alike π
          (.binary operator' left' q'.value left'.line) := by
        rw [Expr.Alike, show left' = _ from lefts, show q'.value = _ from right.value,
          Expr.line_relabel]
        rfl
      exact (chain_alike operators tighter joined right.next).weaken _ _
termination_by (c.size, 0)

theorem operand_alike {c c' : Cursor} (h : c.Alike π c') :
    Reading.Alike π (Expr.Alike π) c.operand c'.operand := by
  have read := h.read?
  rw [operand, operand]
  generalize c.read? = next?, c'.read? = next?' at read ⊢
  cases read with
  | none => exact .error (.complain _ h.peek.line h.peek.span)
  | @some p p' first =>
    obtain ⟨token, next, started⟩ := p
    obtain ⟨⟨kind', lexeme', span', line'⟩, next', started'⟩ := p'
    obtain ⟨⟨kinds, lexemes, lines, spans⟩, nexts⟩ := first
    dsimp only at kinds lexemes lines spans nexts ⊢
    subst kinds lexemes lines
    split
    · split
      · exact .ok ⟨rfl, nexts⟩
      · exact .error (.complain _ rfl spans)
    · have taken := nexts.take? .leftParen
      generalize next.take? .leftParen = inside?, next'.take? .leftParen = inside?' at taken ⊢
      cases taken with
      | none => exact .ok ⟨rfl, nexts⟩
      | @some q q' opening =>
        have := q.shorter
        refine (callArguments_alike opening.next).bind fun r r' arguments => ?_
        refine .ok ⟨?_, arguments.next⟩
        rw [Expr.Alike, show r'.value = _ from arguments.value, ← Expr.listRelabel_eq_map]
        rfl
    · rw [nexts.holds]
      split
      · exact .error (.complain _ rfl (π.between spans nexts.peek.span))
      · refine (level_alike BinaryOp.levels nexts).bind fun q q' inner => ?_
        refine (inner.next.expect .rightParen .unclosedParenthesis).bind fun r r' closing => ?_
        exact .ok ⟨inner.value, closing.next⟩
    · exact .error (.complain _ rfl spans)
termination_by (c.size, 0)

theorem callArguments_alike {c c' : Cursor} (h : c.Alike π c') :
    Reading.Alike π (fun es es' => es' = es.map (Expr.relabel (.ofLines π.lines)))
      c.callArguments c'.callArguments := by
  have taken := h.take? .rightParen
  rw [callArguments, callArguments]
  generalize c.take? .rightParen = next?, c'.take? .rightParen = next?' at taken ⊢
  cases taken with
  | some closing => exact .ok ⟨rfl, closing.next⟩
  | none =>
    refine (arguments_alike h).bind fun p p' arguments => ?_
    refine (arguments.next.expect .rightParen .unclosedCall).bind fun q q' closing => ?_
    exact .ok ⟨arguments.value, closing.next⟩
termination_by (c.size, BinaryOp.levels.length + 3)

theorem arguments_alike {c c' : Cursor} (h : c.Alike π c') :
    Reading.Alike π (fun es es' => es' = es.map (Expr.relabel (.ofLines π.lines)))
      c.arguments c'.arguments := by
  rw [arguments, arguments, h.atEnd]
  split
  · exact .error (.complain _ h.peek.line h.peek.span)
  · refine (level_alike BinaryOp.levels h).bind fun p p' first => ?_
    obtain ⟨value, next, shorter⟩ := p
    obtain ⟨value', next', shorter'⟩ := p'
    obtain ⟨rfl, nexts⟩ := first
    have taken := Alike.take? nexts .comma
    dsimp only at taken ⊢
    generalize next.take? .comma = inside?, next'.take? .comma = inside?' at taken ⊢
    cases taken with
    | none => exact .ok ⟨rfl, nexts⟩
    | @some q q' comma =>
      have := q.shorter
      refine (arguments_alike comma.next).bind fun r r' others => ?_
      refine .ok ⟨?_, others.next⟩
      rw [show r'.value = _ from others.value, List.map_cons]
termination_by (c.size, BinaryOp.levels.length + 2)

end

variable {c c' : Cursor}

theorem expression_alike (h : c.Alike π c') :
    Reading.Alike π (Expr.Alike π) c.expression c'.expression :=
  level_alike BinaryOp.levels h

/-! ## Parts of statements -/

theorem parameterNames_alike {c c' : Cursor} (h : c.Alike π c') :
    Reading.Alike π (fun names names' => names' = names) c.parameterNames
      c'.parameterNames := by
  rw [parameterNames, parameterNames]
  refine (h.expect .identifier .missingParameterName).bind fun p p' first => ?_
  obtain ⟨name, next, shorter⟩ := p
  obtain ⟨name', next', shorter'⟩ := p'
  obtain ⟨names, nexts⟩ := first
  have taken := Alike.take? nexts .comma
  have same : name'.lexeme = name.lexeme := names.lexeme
  dsimp only at taken ⊢
  rw [same]
  generalize next.take? .comma = inside?, next'.take? .comma = inside?' at taken ⊢
  cases taken with
  | none => exact .ok ⟨rfl, nexts⟩
  | @some q q' comma =>
    have := q.shorter
    refine (parameterNames_alike comma.next).bind fun r r' others => ?_
    exact .ok ⟨congrArg (name.lexeme :: ·) others.value, others.next⟩
termination_by c.size

theorem parameters_alike (h : c.Alike π c') :
    Reading.Alike π (fun names names' => names' = names) c.parameters c'.parameters := by
  unfold parameters
  refine (h.expect .leftParen .missingParameterList).bind fun p p' opening => ?_
  obtain ⟨_, inside, shorter⟩ := p
  obtain ⟨_, inside', shorter'⟩ := p'
  have taken := Alike.take? opening.next .rightParen
  dsimp only at taken ⊢
  generalize inside.take? .rightParen = after?, inside'.take? .rightParen = after?' at taken ⊢
  cases taken with
  | some closing => exact .ok ⟨rfl, closing.next⟩
  | none =>
    refine (parameterNames_alike opening.next).bind fun q q' names => ?_
    refine (names.next.expect .rightParen .unclosedParameterList).bind fun r r' closing => ?_
    exact .ok ⟨names.value, closing.next⟩

theorem condition_alike (of : Conditional) (h : c.Alike π c') :
    Reading.Alike π (Expr.Alike π) (c.condition of) (c'.condition of) := by
  unfold condition
  refine (h.expect .leftParen (.missingCondition of)).bind fun p p' opening => ?_
  refine (expression_alike opening.next).bind fun q q' value => ?_
  refine (value.next.expect .rightParen (.unclosedCondition of)).bind fun r r' closing => ?_
  exact .ok ⟨value.value, closing.next⟩

theorem declaration_alike (line : Nat) (h : c.Alike π c') :
    Reading.Alike π (Stmt.Alike π) (c.declaration line)
      (c'.declaration (π.lines line)) := by
  unfold declaration
  refine (h.expect .identifier .missingVariableName).bind fun p p' named => ?_
  obtain ⟨name, next, shorter⟩ := p
  obtain ⟨name', next', shorter'⟩ := p'
  obtain ⟨names, nexts⟩ := named
  have taken := Alike.take? nexts .equal
  have same : name'.lexeme = name.lexeme := names.lexeme
  dsimp only at taken ⊢
  rw [same]
  generalize next.take? .equal = inside?, next'.take? .equal = inside?' at taken ⊢
  cases taken with
  | none => exact .ok ⟨rfl, nexts⟩
  | some sign =>
    refine (expression_alike sign.next).bind fun q q' value => ?_
    refine .ok ⟨?_, value.next⟩
    rw [show q'.value = _ from value.value]
    rfl

theorem returns_alike (line : Nat) (h : c.Alike π c') :
    Reading.Alike π (Stmt.Alike π) (c.returns line) (c'.returns (π.lines line)) := by
  unfold returns
  refine (expression_alike h).bind fun p p' value => .ok ⟨?_, value.next⟩
  rw [show p'.value = _ from value.value]
  rfl

theorem assignment_alike {target target' : Token} (targets : target.Alike π target')
    (h : c.Alike π c') :
    Reading.Alike π (Stmt.Alike π) (c.assignment target) (c'.assignment target') := by
  have read := expression_alike h
  unfold assignment
  rw [targets.lexeme, targets.line]
  generalize c.expression = value?, c'.expression = value?' at read ⊢
  cases read with
  | error _ => exact .error (.complain _ rfl targets.span)
  | @ok p p' value =>
    refine .ok ⟨?_, value.next⟩
    rw [show p'.value = _ from value.value]
    rfl

theorem Alike.target? (h : c.Alike π c') :
    Option.Rel (Parsed.Alike π (Token.Alike π)) c.target? c'.target? := by
  have taken := h.take? .identifier
  unfold Cursor.target?
  generalize c.take? .identifier = name?, c'.take? .identifier = name?' at taken ⊢
  cases taken with
  | none => exact .none
  | @some p p' name =>
    obtain ⟨token, next, shorter⟩ := p
    obtain ⟨token', next', shorter'⟩ := p'
    have signed := Alike.take? name.next .equal
    simp only [Option.bind_eq_bind, Option.bind_some] at signed ⊢
    generalize next.take? .equal = sign?, next'.take? .equal = sign?' at signed ⊢
    cases signed with
    | none => exact .none
    | some sign => exact .some ⟨name.value, sign.next⟩

/-! ## Statements -/

mutual

theorem statement_alike {c c' : Cursor} (h : c.Alike π c') :
    Reading.Alike π (Stmt.Alike π) c.statement c'.statement := by
  have read := h.read?
  rw [statement, statement]
  generalize c.read? = next?, c'.read? = next?' at read ⊢
  cases read with
  | none => exact .error (.complain _ h.peek.line h.peek.span)
  | @some p p' first =>
    obtain ⟨token, next, started⟩ := p
    obtain ⟨⟨kind', lexeme', span', line'⟩, next', started'⟩ := p'
    obtain ⟨⟨kinds, lexemes, lines, spans⟩, nexts⟩ := first
    dsimp only at kinds lexemes lines spans nexts ⊢
    subst kinds lexemes lines
    split
    · refine (nexts.expect .identifier .missingFunctionName).bind fun q q' name => ?_
      refine (parameters_alike name.next).bind fun r r' names => ?_
      have := r.shorter
      have := q.shorter
      refine (body_alike .parameters names.next).bind fun u u' body => .ok ⟨?_, body.next⟩
      rw [show u'.value = _ from body.value, show r'.value = _ from names.value,
        name.value.lexeme, Stmt.Alike, Stmt.relabel, Relabelling.ofLines, List.map_id]
      rfl
    · exact (declaration_alike token.line nexts).weaken _ _
    · refine (condition_alike .whileLoop nexts).bind fun q q' test => ?_
      have := q.shorter
      refine (body_alike (.condition .whileLoop) test.next).bind fun r r' body =>
        .ok ⟨?_, body.next⟩
      rw [show q'.value = _ from test.value, show r'.value = _ from body.value]
      rfl
    · refine (condition_alike .ifBranch nexts).bind fun q q' test => ?_
      have := q.shorter
      refine (body_alike (.condition .ifBranch) test.next).bind fun r r' body => ?_
      obtain ⟨block, after, ended⟩ := r
      obtain ⟨block', after', ended'⟩ := r'
      have taken := Alike.take? body.next .elseWord
      dsimp only at taken ⊢
      rw [show q'.value = _ from test.value, show block' = _ from body.value]
      generalize after.take? .elseWord = unbraced?, after'.take? .elseWord = unbraced?' at taken ⊢
      cases taken with
      | none => exact .ok ⟨rfl, body.next⟩
      | @some u u' word =>
        have := u.shorter
        refine (body_alike .otherwise word.next).bind fun v v' otherwise => .ok ⟨?_, otherwise.next⟩
        rw [show v'.value = _ from otherwise.value]
        rfl
    · exact (returns_alike token.line nexts).weaken _ _
    · have targets := h.target?
      generalize c.target? = target?, c'.target? = target?' at targets ⊢
      cases targets with
      | some target => exact (assignment_alike target.value target.next).weaken _ _
      | none =>
        refine (expression_alike h).bind fun q q' value => .ok ⟨?_, value.next⟩
        rw [show q'.value = _ from value.value]
        rfl
termination_by (c.size, 0)

theorem body_alike (owner : BodyOwner) {c c' : Cursor} (h : c.Alike π c') :
    Reading.Alike π (Block.Alike π) (c.body owner) (c'.body owner) := by
  rw [body, body]
  refine (h.expect .leftBrace (.missingLeftBrace owner)).bind fun p p' opening => ?_
  have := p.shorter
  refine (statements_alike opening.next).bind fun q q' inner => ?_
  refine (inner.next.expect .rightBrace .missingRightBrace).bind fun r r' closing => ?_
  refine .ok ⟨?_, closing.next⟩
  rw [Block.Alike, show q'.value = _ from inner.value, opening.next.peek.line,
    ← Stmt.listRelabel_eq_map]
  rfl
termination_by (c.size, 0)

theorem statements_alike {c c' : Cursor} (h : c.Alike π c') :
    Reading.Alike π (fun ss ss' => ss' = ss.map (Stmt.relabel (.ofLines π.lines)))
      c.statements c'.statements := by
  rw [statements, statements, h.atEnd, h.holds]
  split
  · exact .ok ⟨rfl, h⟩
  · refine (statement_alike h).bind fun p p' first => ?_
    have := p.shorter
    have := p.next.skip_size_le .semicolon
    refine (statements_alike (first.next.skip .semicolon)).bind fun q q' others => ?_
    refine .ok ⟨?_, others.next⟩
    rw [show q'.value = _ from others.value, show p'.value = _ from first.value, List.map_cons]
termination_by (c.size, 1)

end

/-! ## Programs -/

section Lists

variable {α β : Type} {same : α → β → Prop} {p : α → Bool} {q : β → Bool} {as : List α}
  {bs : List β} (agree : ∀ a b, same a b → q b = p a) (related : List.Forall₂ same as bs)

include agree related

theorem forall₂_takeWhile : List.Forall₂ same (as.takeWhile p) (bs.takeWhile q) := by
  induction related with
  | nil => exact .nil
  | @cons a b as bs first _ ih =>
    rw [List.takeWhile_cons, List.takeWhile_cons, agree a b first]
    split
    · exact .cons first ih
    · exact .nil

theorem rel_find? : Option.Rel same (as.find? p) (bs.find? q) := by
  induction related with
  | nil => exact .none
  | @cons a b as bs first _ ih =>
    rw [List.find?_cons, List.find?_cons, agree a b first]
    split
    · exact .some first
    · exact ih

end Lists

/-- The first end marks of tokens that are alike are alike. -/
theorem rel_find?_endMark {tokens tokens' : List Token}
    (alike : List.Forall₂ (Token.Alike π) tokens tokens') :
    Option.Rel (Token.Alike π) (tokens.find? (·.kind == .endMark))
      (tokens'.find? (·.kind == .endMark)) :=
  rel_find? (fun t t' h => by rw [h.kind]) alike

theorem marked_of_alike {tokens tokens' : List Token}
    (alike : List.Forall₂ (Token.Alike π) tokens tokens') (marked : Token.Marked tokens') :
    Token.Marked tokens := by
  have marks := rel_find?_endMark alike
  obtain ⟨mark', found'⟩ := marked.exists_find?
  rw [found'] at marks
  generalize found : tokens.find? (·.kind == .endMark) = mark? at marks
  cases marks with
  | some =>
    exact ⟨_, List.mem_of_find?_eq_some found, by simpa using List.find?_some found⟩

/-- From the front of two lists of tokens that are alike the same is to be read. -/
theorem ofTokens_alike {tokens tokens' : List Token}
    (alike : List.Forall₂ (Token.Alike π) tokens tokens') (marked : Token.Marked tokens)
    (marked' : Token.Marked tokens') :
    (ofTokens tokens marked).Alike π (ofTokens tokens' marked') := by
  have unmarked (t t' : Token) (h : t.Alike π t') :
      (t'.kind != .endMark) = (t.kind != .endMark) := by rw [h.kind]
  have mark := rel_find?_endMark alike
  obtain ⟨stop, found⟩ := marked.exists_find?
  obtain ⟨stop', found'⟩ := marked'.exists_find?
  rw [found, found'] at mark
  refine ⟨forall₂_takeWhile unmarked alike, ?_, .none⟩
  simp only [Cursor.stop, ofTokens, List.drop_zero, found, found', Option.getD_some]
  cases mark with
  | some alike => exact alike

end Cursor

/-- Lists of tokens from the fronts of which the same is to be read make the same program but for
its lines, or errors that are alike. -/
theorem Program.ofTokens_alike {tokens tokens' : List Token} {marked : Token.Marked tokens}
    {marked' : Token.Marked tokens'}
    (start : (Cursor.ofTokens tokens marked).Alike π (.ofTokens tokens' marked')) :
    (∃ p, ofTokens tokens marked = .ok p ∧
        ofTokens tokens' marked' = .ok (p.relabel (.ofLines π.lines))) ∨
      ∃ e e', ofTokens tokens marked = .error e ∧ ofTokens tokens' marked' = .error e' ∧
        e.Alike π e' := by
  have read := Cursor.statements_alike start
  unfold ofTokens
  dsimp only
  generalize (Cursor.ofTokens tokens marked).statements = read?,
    (Cursor.ofTokens tokens' marked').statements = read?' at read ⊢
  cases read with
  | error alike => exact .inr ⟨_, _, rfl, rfl, alike⟩
  | @ok p p' inner =>
    obtain ⟨statements, next, shorter⟩ := p
    obtain ⟨statements', next', shorter'⟩ := p'
    have rest := Cursor.Alike.read? inner.next
    dsimp only [bind, Except.bind] at rest ⊢
    generalize next.read? = left?, next'.read? = left?' at rest ⊢
    cases rest with
    | some left =>
      dsimp only
      rw [left.value.lexeme]
      exact .inr ⟨_, _, rfl, rfl, .complain _ left.value.line left.value.span⟩
    | none =>
      refine .inl ⟨_, rfl, ?_⟩
      rw [show statements' = _ from inner.value, start.peek.line, ← Stmt.listRelabel_eq_map]
      rfl

end FunLanguage
