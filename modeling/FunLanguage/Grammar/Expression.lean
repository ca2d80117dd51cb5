import FunLanguage.Grammar.Cursor
import FunLanguage.Text.Numeral
import FunLanguage.Tree.Basic

/-!
# Reading expressions

An expression of a level of precedence is a chain of expressions of the next tighter level, joined
from the left by the operators of the level. Tighter than all levels are the operands: literals,
variables, calls, and expressions in parentheses, which leave no node of their own. An identifier in
front of a parenthesis is always a call.
-/

namespace FunLanguage.Cursor

mutual

/-- Reads an expression made with the operators of the levels, the loosest first. -/
def level (levels : List (List BinaryOp)) (c : Cursor) : Reading Expr c.size :=
  match levels with
  | [] => c.operand
  | operators :: tighter => do
    let ⟨first, next, shorter⟩ ← c.level tighter
    (next.chain operators tighter first).weaken shorter
termination_by (c.size, levels.length + 1)

/-- Goes on with the expression `left` for as long as operators of a level follow. -/
def chain (operators : List BinaryOp) (tighter : List (List BinaryOp)) (left : Expr) (c : Cursor) :
    Reading Expr (c.size + 1) :=
  match c.takeOperator? operators with
  | none => .ok ⟨left, c, Nat.lt_succ_self _⟩
  | some ⟨(operator, token), next, _⟩ =>
    match next.level tighter with
    | .error _ =>
      .error ((Complaint.missingRightOperand token.lexeme).toError token.line token.span)
    | .ok ⟨right, after, _⟩ =>
      (after.chain operators tighter (.binary operator left right left.line)).weaken (by omega)
termination_by (c.size, 0)

/-- Reads an operand. -/
def operand (c : Cursor) : Reading Expr c.size :=
  match c.read? with
  | none => .error (Complaint.missingExpression.toError c.peek.line c.peek.span)
  | some ⟨token, next, started⟩ =>
    match token.kind with
    | .integer =>
      match Text.int32? token.lexeme.toList with
      | some value => .ok ⟨.literal value token.line, next, started⟩
      | none => .error (Complaint.unreadableInteger.toError token.line token.span)
    | .identifier =>
      match next.take? .leftParen with
      | none => .ok ⟨.identifier token.lexeme token.line, next, started⟩
      | some ⟨_, inside, _⟩ => do
        let ⟨arguments, after, _⟩ ← inside.callArguments
        return ⟨.call token.lexeme arguments token.line, after, by omega⟩
    | .leftParen =>
      if next.holds .rightParen then
        .error (Complaint.emptyParentheses.toError token.line
          ⟨token.span.start, next.peek.span.stop⟩)
      else do
        let ⟨inner, unclosed, _⟩ ← next.level BinaryOp.levels
        let ⟨_, after, _⟩ ← unclosed.expect .rightParen .unclosedParenthesis
        return ⟨inner, after, by omega⟩
    | kind =>
      .error ((Complaint.expressionExpected kind token.lexeme).toError token.line token.span)
termination_by (c.size, 0)

/-- Reads the arguments of a call, whose parenthesis is open, and the closing parenthesis. -/
def callArguments (c : Cursor) : Reading (List Expr) c.size :=
  match c.take? .rightParen with
  | some ⟨_, next, closed⟩ => .ok ⟨[], next, closed⟩
  | none => do
    let ⟨arguments, unclosed, read⟩ ← c.arguments
    let ⟨_, after, closed⟩ ← unclosed.expect .rightParen .unclosedCall
    return ⟨arguments, after, size_lt_trans closed read⟩
termination_by (c.size, BinaryOp.levels.length + 3)

/-- Reads one or more expressions separated by commas. -/
def arguments (c : Cursor) : Reading (List Expr) c.size :=
  if c.atEnd then .error (Complaint.missingArgument.toError c.peek.line c.peek.span)
  else do
    let ⟨first, next, _⟩ ← c.level BinaryOp.levels
    match next.take? .comma with
    | none => return ⟨[first], next, by assumption⟩
    | some ⟨_, next, _⟩ =>
      let ⟨others, after, _⟩ ← next.arguments
      return ⟨first :: others, after, by omega⟩
termination_by (c.size, BinaryOp.levels.length + 2)

end

/-- Reads an expression. -/
def expression (c : Cursor) : Reading Expr c.size :=
  c.level BinaryOp.levels

end FunLanguage.Cursor
