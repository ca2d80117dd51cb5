import FunLanguage.Fault
import FunLanguage.Grammar.Statement
import FunLanguage.Token.Scan

/-!
# Programs from tokens and from text

A list of tokens with an end mark is read up to the first one; what stands behind that is never
looked at. A program is the statements of the whole list, so all that can be left over is a closing
brace.
-/

namespace FunLanguage

namespace Program

/-- The program that a list of tokens makes. -/
def ofTokens (tokens : List Token) (marked : Token.Marked tokens) : Except SyntaxError Program := do
  let start := Cursor.ofTokens tokens marked
  let ⟨statements, next, _⟩ ← start.statements
  match next.read? with
  | none => return ⟨⟨statements, start.peek.line⟩, start.peek.line⟩
  | some ⟨token, _, _⟩ =>
    throw ((Complaint.statementExpected token.lexeme).toError token.line token.span)

/-- The program that a source text makes. -/
def ofSource (source : String) : Except SyntaxError Program :=
  match scanned : Token.scan source with
  | .error e => .error e
  | .ok tokens => ofTokens tokens (Token.marked_of_scan scanned)

theorem ofSource_eq_ofTokens {source : String} {tokens : List Token}
    (scanned : Token.scan source = .ok tokens) :
    ofSource source = ofTokens tokens (Token.marked_of_scan scanned) := by
  unfold ofSource
  split
  · next error =>
    cases scanned.symm.trans error
  · next ok =>
    cases scanned.symm.trans ok
    rfl

theorem ofSource_eq_error {source : String} {e : SyntaxError}
    (stopped : Token.scan source = .error e) :
    ofSource source = .error e := by
  unfold ofSource
  split
  · next error =>
    cases stopped.symm.trans error
    rfl
  · next ok =>
    cases stopped.symm.trans ok

theorem exists_scan_of_ofSource {source : String} {p : Program} (read : ofSource source = .ok p) :
    ∃ tokens, Token.scan source = .ok tokens := by
  unfold ofSource at read
  split at read
  · cases read
  · next tokens scanned => exact ⟨tokens, scanned⟩

end Program

/-- The expression that a source text makes, which has to be its only statement. -/
def Expr.ofSource (source : String) : Except SyntaxError Expr := do
  let program ← Program.ofSource source
  match program.block.statements with
  | [.expression value] => return value
  | statements =>
    throw (Complaint.notOneExpression.toError ((statements.head?.map Stmt.line).getD program.line)
      ⟨0, max 1 (Text.byteLength source.toList)⟩)

end FunLanguage
