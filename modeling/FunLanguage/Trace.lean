import FunLanguage.Machine.Inspection

/-!
# Traces

A trace is the record of the nodes that an evaluation visits, in order, with the values that some
watched variables have at each visit. It can be made to stop the evaluation at a line, or after a
number of visits; the visit that stops it is still recorded.
-/

namespace FunLanguage

/-- The record of a visit. -/
structure Visit where
  line : Nat
  kind : NodeKind
  /-- The watched variables with their values, as seen from the scope of the visit. -/
  values : List (String × Option Int32)
  deriving DecidableEq, Repr

/-- The record as a text. A variable that is not bound shows as a question mark. -/
def Visit.text (v : Visit) : String :=
  let shown (value : String × Option Int32) : String :=
    " " ++ value.1 ++ "=" ++ (value.2.map Text.ofInt32).getD "?"
  toString v.line ++ ":" ++ v.kind.name ++ String.join (v.values.map shown)

/-- What a trace watches, and where it stops the evaluation. -/
structure Tracer where
  watched : List String := []
  stopLine? : Option Nat := none
  stopCount? : Option Nat := none

namespace Tracer

/-- The record of a visit of a node. -/
def visit (t : Tracer) (node : Node) (scope : ScopeId) (world : World) : Visit :=
  ⟨node.line, node.kind, t.watched.map fun name => (name, world.scopes.get? scope name)⟩

/-- The inspector that keeps the visits so far. -/
def inspector (t : Tracer) : Inspector (Array Visit) where
  visit visits node scope world :=
    let visits := visits.push (t.visit node scope world)
    let stops := t.stopLine? == some node.line || t.stopCount? == some visits.size
    (if stops then some .stopped else none, visits, world)

/-- Runs a program under the tracer for at most `budget` steps. -/
def run (t : Tracer) (budget : Nat) (program : Program) :
    Option (Except Fault Int32 × Array Visit × World) :=
  t.inspector.run budget #[] (.ofProgram program)

end Tracer

end FunLanguage
