import FunLanguage.Proofs.Nodes

/-!
# Walks over trees

A walk over a tree meets each node in front of the nodes that it is made of, and those in their
order (`Node.preorder_eq`).
-/

namespace FunLanguage

mutual

/-- The nodes of the expression, each in front of its parts. -/
def Expr.preorder : Expr → List Node
  | .literal value line => [.expression (.literal value line)]
  | .identifier name line => [.expression (.identifier name line)]
  | .binary operator left right line =>
    .expression (.binary operator left right line) :: (left.preorder ++ right.preorder)
  | .call name arguments line =>
    .expression (.call name arguments line) :: Expr.listPreorder arguments

/-- The nodes of the expressions of a list, one expression after another. -/
def Expr.listPreorder : List Expr → List Node
  | [] => []
  | e :: es => e.preorder ++ Expr.listPreorder es

end

mutual

/-- The nodes of the statement, each in front of its parts. -/
def Stmt.preorder : Stmt → List Node
  | .expression e => .statement (.expression e) :: e.preorder
  | .definition name parameters body line =>
    .statement (.definition name parameters body line) :: body.preorder
  | .declaration name none line => [.statement (.declaration name none line)]
  | .declaration name (some value) line =>
    .statement (.declaration name (some value) line) :: value.preorder
  | .loop condition body line =>
    .statement (.loop condition body line) :: (condition.preorder ++ body.preorder)
  | .branch condition body none line =>
    .statement (.branch condition body none line) :: (condition.preorder ++ body.preorder)
  | .branch condition body (some otherwise) line =>
    .statement (.branch condition body (some otherwise) line) ::
      (condition.preorder ++ (body.preorder ++ otherwise.preorder))
  | .assignment name value line => .statement (.assignment name value line) :: value.preorder
  | .returns value line => .statement (.returns value line) :: value.preorder

/-- The nodes of the block, each in front of its parts. -/
def Block.preorder : Block → List Node
  | ⟨statements, line⟩ => .block ⟨statements, line⟩ :: Stmt.listPreorder statements

/-- The nodes of the statements of a list, one statement after another. -/
def Stmt.listPreorder : List Stmt → List Node
  | [] => []
  | s :: ss => s.preorder ++ Stmt.listPreorder ss

end

namespace Node

/-- The nodes of the tree, each in front of its parts. -/
def preorder : Node → List Node
  | program p => .program p :: p.block.preorder
  | block b => b.preorder
  | statement s => s.preorder
  | expression e => e.preorder

theorem listPreorder_expressions (es : List Expr) :
    Expr.listPreorder es = (es.map expression).flatMap preorder := by
  induction es with
  | nil => rfl
  | cons e es ih => rw [Expr.listPreorder, ih, List.map_cons, List.flatMap_cons, preorder]

theorem listPreorder_statements (ss : List Stmt) :
    Stmt.listPreorder ss = (ss.map statement).flatMap preorder := by
  induction ss with
  | nil => rfl
  | cons s ss ih => rw [Stmt.listPreorder, ih, List.map_cons, List.flatMap_cons, preorder]

/-- A tree is walked over from its root on, through one part after another. -/
theorem preorder_eq (node : Node) : node.preorder = node :: node.parts.flatMap preorder := by
  cases node with
  | program p => simp [preorder, parts]
  | block b =>
    obtain ⟨statements, line⟩ := b
    rw [preorder, Block.preorder, listPreorder_statements, parts]
  | statement s =>
    cases s with
    | declaration name value? line =>
      cases value? <;> simp [preorder, Stmt.preorder, parts, Stmt.parts]
    | branch condition body otherwise? line =>
      cases otherwise? <;> simp [preorder, Stmt.preorder, parts, Stmt.parts]
    | _ => simp [preorder, Stmt.preorder, parts, Stmt.parts]
  | expression e =>
    cases e with
    | call name arguments line =>
      rw [preorder, Expr.preorder, listPreorder_expressions, parts, Expr.parts]
    | _ => simp [preorder, Expr.preorder, parts, Expr.parts]

end Node

end FunLanguage
