import FunLanguage.Fault
import FunLanguage.Scope

/-!
# The evaluation machine

An evaluation is a sequence of small steps of a machine. The machine holds what it is about to do
(`Control`), what is to be done after that (a stack of `Frame`s) and everything that a program can
change (`World`). A stack is thus the whole rest of a half-finished evaluation, which can be kept
and taken up again.
-/

namespace FunLanguage

/-- What programs change: the scopes, and the text written so far. -/
structure World where
  scopes : Scopes := {}
  output : String := ""
  deriving Inhabited

/-- What the machine is about to do. -/
inductive Control where
  /-- Evaluate a node in a scope. -/
  | evaluate (node : Node) (scope : ScopeId)
  /-- Hand the value of what has been evaluated to the frame on top. Blocks and statements that have
  no value of their own give 0. -/
  | deliver (value : Int32)
  /-- Give up the frame on top because of a fault. -/
  | raise (fault : Fault)

/-- What is to be done with the value of a part, and with which remaining parts. -/
inductive Frame where
  /-- The value is the left operand. -/
  | leftOperand (operator : BinaryOp) (right : Expr) (line : Nat) (scope : ScopeId)
  /-- The value is the right operand. -/
  | rightOperand (operator : BinaryOp) (left : Int32) (line : Nat)
  /-- The value is an argument of a call; those before it are in `done`, the last first. -/
  | argument (function : Function) (name : String) (line : Nat) (done : List Int32)
      (todo : List Expr) (scope : ScopeId)
  /-- The value is that of the function called. -/
  | call (name : String) (line : Nat)
  /-- A body has ended, and its value is what the scope around it returns. -/
  | result (scope : ScopeId)
  /-- The value is that of a variable to be declared. -/
  | declaration (name : String) (line : Nat) (scope : ScopeId)
  /-- The value is to be assigned to a variable. -/
  | assignment (name : String) (line : Nat) (scope : ScopeId)
  /-- The value is to be returned. -/
  | returns (scope : ScopeId)
  /-- The value decides between two blocks. -/
  | branch (body : Block) (otherwise? : Option Block) (scope : ScopeId)
  /-- The value decides whether the loop goes on. -/
  | loopTest (condition : Expr) (body : Block) (scope : ScopeId)
  /-- The body of the loop has ended. -/
  | loopBody (condition : Expr) (body : Block) (scope : ScopeId)
  /-- A statement of a block has ended; the block has its own scope `inner` inside `outer`. -/
  | sequence (rest : List Stmt) (inner outer : ScopeId)

/-- The state of an evaluation. -/
structure Machine where
  control : Control
  stack : List Frame
  world : World

namespace World

/-- Appends to the text written. -/
def write (w : World) (text : String) : World :=
  { w with output := w.output ++ text }

/-- The text written, and the world in which it has been taken away. -/
def takeOutput (w : World) : String × World :=
  (w.output, { w with output := "" })

/-- A new outermost scope in which the built-in functions are bound to their names. -/
def prelude (w : World) : ScopeId × World :=
  let (i, scopes) := w.scopes.root
  let bind (b : Builtin) (s : Scopes) : Scopes := s.modify i (·.addFunction b.name (.builtin b))
  (i, { w with scopes := bind .println (bind .print scopes) })

end World

namespace Machine

/-- A machine that is to evaluate a node and nothing else. -/
def start (node : Node) (scope : ScopeId) (world : World) : Machine :=
  ⟨.evaluate node scope, [], world⟩

/-- A machine that is to run a program from the beginning. -/
def ofProgram (program : Program) : Machine :=
  let (scope, world) := World.prelude {}
  start (.program program) scope world

/-- How the evaluation has ended, once it has: with a value or with a fault. -/
def outcome? : Machine → Option (Except Fault Int32)
  | ⟨.deliver value, [], _⟩ => some (.ok value)
  | ⟨.raise fault, [], _⟩ => some (.error fault)
  | _ => none

/-- The node that the machine is about to visit, and the scope that it visits it in. -/
def visit? : Machine → Option (Node × ScopeId)
  | ⟨.evaluate node scope, _, _⟩ => if node.isVisited then some (node, scope) else none
  | _ => none

end Machine

end FunLanguage
