import FunLanguage.Tree.Operator

/-!
# Syntax trees

A program is a block, a block is a list of statements, and statements hold expressions and further
blocks. Every node records the line of the source it starts on, counted from 1. `Node` is any node
of a tree, and `NodeKind` the name it goes by.
-/

namespace FunLanguage

/-! ## Trees -/

/-- An expression, which has a value. -/
inductive Expr where
  | literal (value : Int32) (line : Nat)
  | identifier (name : String) (line : Nat)
  | binary (operator : BinaryOp) (left right : Expr) (line : Nat)
  | call (name : String) (arguments : List Expr) (line : Nat)
  deriving Repr, Inhabited

mutual

/-- A statement. -/
inductive Stmt where
  | expression (value : Expr)
  /-- The definition of a function. -/
  | definition (name : String) (parameters : List String) (body : Block) (line : Nat)
  /-- The declaration of a variable, which starts out as 0 unless a value is given. -/
  | declaration (name : String) (value? : Option Expr) (line : Nat)
  | loop (condition : Expr) (body : Block) (line : Nat)
  | branch (condition : Expr) (body : Block) (otherwise? : Option Block) (line : Nat)
  | assignment (name : String) (value : Expr) (line : Nat)
  | returns (value : Expr) (line : Nat)

/-- Statements in order. -/
structure Block where
  statements : List Stmt
  line : Nat

end

/-- A whole program. -/
structure Program where
  block : Block
  line : Nat

/-- The line that the expression starts on. -/
def Expr.line : Expr → Nat
  | literal _ line => line
  | identifier _ line => line
  | binary _ _ _ line => line
  | call _ _ line => line

/-- The line that the statement starts on. -/
def Stmt.line : Stmt → Nat
  | expression e => e.line
  | definition _ _ _ line => line
  | declaration _ _ line => line
  | loop _ _ line => line
  | branch _ _ _ line => line
  | assignment _ _ line => line
  | returns _ line => line

/-! ## Nodes -/

/-- The kinds of node. -/
inductive NodeKind where
  | program
  | block
  | literal
  | identifier
  | binary
  | call
  | definition
  | declaration
  | loop
  | branch
  | assignment
  | returns
  deriving DecidableEq, Repr

/-- The name that a kind of node goes by. -/
def NodeKind.name : NodeKind → String
  | program => "File"
  | block => "Block"
  | literal => "Literal"
  | identifier => "Identifier"
  | binary => "BinaryExpression"
  | call => "FunctionCall"
  | definition => "FunctionDefinition"
  | declaration => "VariableDeclaration"
  | loop => "WhileStatement"
  | branch => "IfStatement"
  | assignment => "AssignmentStatement"
  | returns => "ReturnStatement"

/-- The kind of an expression. -/
def Expr.kind : Expr → NodeKind
  | literal .. => .literal
  | identifier .. => .identifier
  | binary .. => .binary
  | call .. => .call

/-- The kind of a statement. An expression statement is of the kind of its expression. -/
def Stmt.kind : Stmt → NodeKind
  | expression e => e.kind
  | definition .. => .definition
  | declaration .. => .declaration
  | loop .. => .loop
  | branch .. => .branch
  | assignment .. => .assignment
  | returns .. => .returns

/-- Any node of a tree. -/
inductive Node where
  | program (program : Program)
  | block (block : Block)
  | statement (statement : Stmt)
  | expression (expression : Expr)

namespace Node

/-- The line that the node starts on. -/
def line : Node → Nat
  | program p => p.line
  | block b => b.line
  | statement s => s.line
  | expression e => e.line

/-- The kind of the node. -/
def kind : Node → NodeKind
  | program _ => .program
  | block _ => .block
  | statement s => s.kind
  | expression e => e.kind

/-- Whether an evaluation that comes to the node is said to visit it. Programs and literals are
passed over, and an expression statement is visited as its expression. -/
def isVisited : Node → Bool
  | program _ => false
  | block _ => true
  | statement (.expression _) => false
  | statement _ => true
  | expression (.literal ..) => false
  | expression _ => true

/-- Whether the evaluation of the node gives a value. -/
def hasValue : Node → Bool
  | program _ => true
  | block _ => false
  | statement (.expression _) => true
  | statement _ => false
  | expression _ => true

end Node

end FunLanguage
