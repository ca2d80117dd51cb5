import FunLanguage.Breakpoint
import FunLanguage.Machine.Step

/-!
# Runs under breakpoints

A monitored run stops to test at every visit of a node whose line has a breakpoint: the condition is
evaluated, without regard to breakpoints, in the scope and the world of the visit. If its value is
not 0 the run is suspended in front of the node, and if the condition ends in a fault the run ends
with it.

A suspended run is the rest of its evaluation, so it can be kept, looked into and resumed. What is
evaluated at a suspension changes the world that the run goes on in, and nothing else of the run.
-/

namespace FunLanguage

/-- A run in front of a node that it is about to visit. -/
structure Pause where
  node : Node
  scope : ScopeId
  stack : List Frame

/-- The machine that is about to visit the node in the given world. -/
def Pause.machine (p : Pause) (world : World) : Machine :=
  ⟨.evaluate p.node p.scope, p.stack, world⟩

/-- A run that waits in front of a node, with the world as it is by then. -/
structure Suspension where
  pause : Pause
  world : World

/-- A run that is tested against breakpoints. -/
inductive Monitored where
  | running (machine : Machine)
  /-- The condition of the breakpoint on the line of the node is being evaluated. -/
  | testing (condition : Machine) (pause : Pause)
  | suspended (suspension : Suspension)
  | finished (outcome : Except Fault Int32) (world : World)

namespace Suspension

/-- The line of the node. -/
def line (s : Suspension) : Nat :=
  s.pause.node.line

/-- The kind of the node. -/
def kind (s : Suspension) : NodeKind :=
  s.pause.node.kind

/-- The run that goes on with the node, which is not tested again. -/
def resume (s : Suspension) : Monitored :=
  .running (s.pause.machine s.world).step

/-- Evaluates an expression in the scope of the node, for at most `budget` steps. Gives how that
ended, and the suspended run in the world it left. -/
def evaluate (s : Suspension) (budget : Nat) (e : Expr) :
    Option (Except Fault Int32 × Suspension) :=
  ((Machine.start (.expression e) s.pause.scope s.world).run budget).map fun (outcome, world) =>
    (outcome, { s with world })

/-- The text written since it was last taken, and the suspended run without it. -/
def takeOutput (s : Suspension) : String × Suspension :=
  let (output, world) := s.world.takeOutput
  (output, { s with world })

end Suspension

/-- How a monitored run comes to a halt. -/
inductive Halt where
  | suspended (suspension : Suspension)
  | finished (outcome : Except Fault Int32) (world : World)

namespace Monitored

/-- Does the next step of a machine, or begins to test the breakpoint on the line of the node that
the machine is about to visit. -/
def advance (table : Breakpoints) : Machine → Monitored
  | ⟨.evaluate node scope, stack, world⟩ =>
    match if node.isVisited then table.get? node.line else none with
    | some breakpoint =>
      .testing (.start (.expression breakpoint.condition) scope world) ⟨node, scope, stack⟩
    | none => .running (Machine.step ⟨.evaluate node scope, stack, world⟩)
  | m =>
    match m.outcome? with
    | some outcome => .finished outcome m.world
    | none => .running m.step

/-- Acts on the outcome of a condition. -/
def settle (pause : Pause) (outcome : Except Fault Int32) (world : World) : Monitored :=
  match outcome with
  | .error fault => .running ⟨.raise fault, pause.stack, world⟩
  | .ok value =>
    if value = 0 then .running (pause.machine world).step else .suspended ⟨pause, world⟩

/-- Does the next step. A run that has come to a halt stays as it is. -/
def step (table : Breakpoints) : Monitored → Monitored
  | .running m => advance table m
  | .testing condition pause =>
    match condition.outcome? with
    | some outcome => settle pause outcome condition.world
    | none => .testing condition.step pause
  | .suspended s => .suspended s
  | .finished outcome world => .finished outcome world

/-- Steps until the run has come to a halt, but no more than `budget` times. -/
def run (table : Breakpoints) : (budget : Nat) → Monitored → Option Halt
  | 0, _ => none
  | budget + 1, r =>
    match r with
    | .suspended s => some (.suspended s)
    | .finished outcome world => some (.finished outcome world)
    | r => run table budget (r.step table)

end Monitored

end FunLanguage
