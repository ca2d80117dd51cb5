import FunLanguage.Text.Numeral
import FunLanguage.Tree.Basic

/-!
# Outlines of trees

The outline of a tree is one line of text that shows all of it: each node in parentheses, with its
kind, its line and its parts, separated by single spaces. An expression statement is shown as its
expression.
-/

namespace FunLanguage

/-- The outline of a node with the given parts. -/
def NodeKind.outline (kind : NodeKind) (line : Nat) (parts : List String) : String :=
  "(" ++ String.intercalate " " ((kind.name ++ "@" ++ toString line) :: parts) ++ ")"

mutual

/-- The outline of an expression. -/
def Expr.outline : Expr → String
  | .literal value line => NodeKind.literal.outline line [Text.ofInt32 value]
  | .identifier name line => NodeKind.identifier.outline line [name]
  | .binary operator left right line =>
    NodeKind.binary.outline line [operator.symbol, left.outline, right.outline]
  | .call name arguments line => NodeKind.call.outline line (name :: Expr.outlines arguments)

/-- The outlines of the expressions of a list. -/
def Expr.outlines : List Expr → List String
  | [] => []
  | e :: es => e.outline :: Expr.outlines es

end

mutual

/-- The outline of a statement. -/
def Stmt.outline : Stmt → String
  | .expression e => e.outline
  | .definition name parameters body line =>
    NodeKind.definition.outline line
      [name, "(" ++ String.intercalate " " parameters ++ ")", body.outline]
  | .declaration name none line => NodeKind.declaration.outline line [name]
  | .declaration name (some value) line => NodeKind.declaration.outline line [name, value.outline]
  | .loop condition body line => NodeKind.loop.outline line [condition.outline, body.outline]
  | .branch condition body none line =>
    NodeKind.branch.outline line [condition.outline, body.outline]
  | .branch condition body (some otherwise) line =>
    NodeKind.branch.outline line [condition.outline, body.outline, otherwise.outline]
  | .assignment name value line => NodeKind.assignment.outline line [name, value.outline]
  | .returns value line => NodeKind.returns.outline line [value.outline]

/-- The outline of a block. -/
def Block.outline : Block → String
  | ⟨statements, line⟩ => NodeKind.block.outline line (Stmt.outlines statements)

/-- The outlines of the statements of a list. -/
def Stmt.outlines : List Stmt → List String
  | [] => []
  | s :: ss => s.outline :: Stmt.outlines ss

end

/-- The outline of a program. -/
def Program.outline (program : Program) : String :=
  NodeKind.program.outline program.line [program.block.outline]

end FunLanguage
