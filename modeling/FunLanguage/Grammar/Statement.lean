import FunLanguage.Grammar.Expression

/-!
# Reading statements

The first token of a statement says what it is; an identifier starts an assignment if an equals sign
follows, and an expression otherwise. The statements of a block go on to a closing brace or to the
end of the tokens, and any number of semicolons may follow each of them.
-/

namespace FunLanguage.Cursor

/-! ## Parts of statements -/

/-- Reads one or more parameter names separated by commas. -/
def parameterNames (c : Cursor) : Reading (List String) c.size := do
  let ⟨first, next, _⟩ ← c.expect .identifier .missingParameterName
  match next.take? .comma with
  | none => return ⟨[first.lexeme], next, by assumption⟩
  | some ⟨_, next, _⟩ =>
    let ⟨others, after, _⟩ ← next.parameterNames
    return ⟨first.lexeme :: others, after, by omega⟩
termination_by c.size

/-- Reads the parameter names of a definition with the parentheses around them. -/
def parameters (c : Cursor) : Reading (List String) c.size := do
  let ⟨_, inside, opened⟩ ← c.expect .leftParen .missingParameterList
  match inside.take? .rightParen with
  | some ⟨_, after, closed⟩ => return ⟨[], after, size_lt_trans closed opened⟩
  | none =>
    let ⟨names, unclosed, _⟩ ← inside.parameterNames
    let ⟨_, after, _⟩ ← unclosed.expect .rightParen .unclosedParameterList
    return ⟨names, after, by omega⟩

/-- Reads the condition of a statement with the parentheses around it. -/
def condition (of : Conditional) (c : Cursor) : Reading Expr c.size := do
  let ⟨_, inside, _⟩ ← c.expect .leftParen (.missingCondition of)
  let ⟨value, unclosed, _⟩ ← inside.expression
  let ⟨_, after, _⟩ ← unclosed.expect .rightParen (.unclosedCondition of)
  return ⟨value, after, by omega⟩

/-! ## Statements without a body -/

/-- Reads a declaration from behind its keyword, which stands on the given line. -/
def declaration (line : Nat) (c : Cursor) : Reading Stmt c.size := do
  let ⟨name, next, _⟩ ← c.expect .identifier .missingVariableName
  match next.take? .equal with
  | none => return ⟨.declaration name.lexeme none line, next, by assumption⟩
  | some ⟨_, next, _⟩ =>
    let ⟨value, after, _⟩ ← next.expression
    return ⟨.declaration name.lexeme (some value) line, after, by omega⟩

/-- Reads a return statement from behind its keyword, which stands on the given line. -/
def returns (line : Nat) (c : Cursor) : Reading Stmt c.size := do
  let ⟨value, after, _⟩ ← c.expression
  return ⟨.returns value line, after, by assumption⟩

/-- Reads the value assigned to the variable that the token `target` names. Whatever is wrong with
the value, the error is that the target lacks one. -/
def assignment (target : Token) (c : Cursor) : Reading Stmt c.size :=
  match c.expression with
  | .error _ =>
    .error ((Complaint.missingAssignedValue target.lexeme).toError target.line target.span)
  | .ok ⟨value, after, _⟩ => .ok ⟨.assignment target.lexeme value target.line, after, by assumption⟩

/-- Reads the name of a variable and the equals sign behind it, if they come next. -/
def target? (c : Cursor) : Option (Parsed Token c.size) := do
  let ⟨name, next, named⟩ ← c.take? .identifier
  let ⟨_, after, signed⟩ ← next.take? .equal
  return ⟨name, after, size_lt_trans signed named⟩

/-! ## Statements and blocks -/

mutual

/-- Reads a statement. -/
def statement (c : Cursor) : Reading Stmt c.size :=
  match c.read? with
  | none => .error (Complaint.missingExpression.toError c.peek.line c.peek.span)
  | some ⟨token, next, _⟩ =>
    match token.kind with
    | .funWord => do
      let ⟨name, unopened, _⟩ ← next.expect .identifier .missingFunctionName
      let ⟨names, unbraced, _⟩ ← unopened.parameters
      let ⟨body, after, _⟩ ← unbraced.body .parameters
      return ⟨.definition name.lexeme names body token.line, after, by omega⟩
    | .varWord => (next.declaration token.line).weaken (by omega)
    | .whileWord => do
      let ⟨test, unbraced, _⟩ ← next.condition .whileLoop
      let ⟨body, after, _⟩ ← unbraced.body (.condition .whileLoop)
      return ⟨.loop test body token.line, after, by omega⟩
    | .ifWord => do
      let ⟨test, unbraced, _⟩ ← next.condition .ifBranch
      let ⟨body, after, _⟩ ← unbraced.body (.condition .ifBranch)
      match after.take? .elseWord with
      | none => return ⟨.branch test body none token.line, after, by omega⟩
      | some ⟨_, unbraced, _⟩ =>
        let ⟨otherwise, after, _⟩ ← unbraced.body .otherwise
        return ⟨.branch test body (some otherwise) token.line, after, by omega⟩
    | .returnWord => (next.returns token.line).weaken (by omega)
    | _ =>
      match c.target? with
      | some ⟨target, next, _⟩ => (next.assignment target).weaken (by omega)
      | none => do
        let ⟨value, after, _⟩ ← c.expression
        return ⟨.expression value, after, by assumption⟩
termination_by (c.size, 0)

/-- Reads a block in braces. -/
def body (after : BodyOwner) (c : Cursor) : Reading Block c.size := do
  let ⟨_, inside, _⟩ ← c.expect .leftBrace (.missingLeftBrace after)
  let ⟨statements, unclosed, _⟩ ← inside.statements
  let ⟨_, after, _⟩ ← unclosed.expect .rightBrace .missingRightBrace
  return ⟨⟨statements, inside.peek.line⟩, after, by omega⟩
termination_by (c.size, 0)

/-- Reads statements up to a closing brace or the end of the tokens. -/
def statements (c : Cursor) : Reading (List Stmt) (c.size + 1) :=
  if c.atEnd || c.holds .rightBrace then .ok ⟨[], c, Nat.lt_succ_self _⟩
  else do
    let ⟨first, next, _⟩ ← c.statement
    have := next.skip_size_le .semicolon
    let ⟨others, after, _⟩ ← (next.skip .semicolon).statements
    return ⟨first :: others, after, by omega⟩
termination_by (c.size, 1)

end

end FunLanguage.Cursor
