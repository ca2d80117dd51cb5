import FunLanguage.Proofs.Sessions

/-!
# The nodes that a run is about

All that a run evaluates are nodes of its program. A machine is *over* a set of nodes if the node
that it is to evaluate, those that its stack waits to evaluate, and the bodies of all closures
belong to the set. If the parts of every node in the set belong to it too, a step keeps the machine
over it (`Machine.Over.step`).

What is evaluated at a suspension, or as the condition of a breakpoint, is no node of the program.
But expressions make no closures, so all that they leave behind are bodies of the program
(`Monitored.Over.step`). Hence whatever a session of a program does, it is suspended in front of a
node of the program (`Session.Reached.staysOver`).
-/

namespace FunLanguage

/-! ## Parts of nodes -/

/-- The nodes that an expression is made of, in order. -/
def Expr.parts : Expr → List Node
  | literal .. => []
  | identifier .. => []
  | binary _ left right _ => [.expression left, .expression right]
  | call _ arguments _ => arguments.map .expression

/-- The nodes that a statement is made of, in order. -/
def Stmt.parts : Stmt → List Node
  | expression e => [.expression e]
  | definition _ _ body _ => [.block body]
  | declaration _ value? _ => (value?.map .expression).toList
  | loop condition body _ => [.expression condition, .block body]
  | branch condition body otherwise? _ =>
    .expression condition :: .block body :: (otherwise?.map .block).toList
  | assignment _ value _ => [.expression value]
  | returns value _ => [.expression value]

namespace Node

/-- The nodes that a node is made of, in order. -/
def parts : Node → List Node
  | program p => [.block p.block]
  | block b => b.statements.map .statement
  | statement s => s.parts
  | expression e => e.parts

/-- The tree has the node: it is the whole tree, or a part of a node that the tree has. -/
inductive Has (tree : Node) : Node → Prop
  | whole : Has tree tree
  | part {node part : Node} (has : Has tree node) (mem : part ∈ node.parts) : Has tree part

/-- The parts of every node in the set belong to it too. -/
def Closed (N : Node → Prop) : Prop :=
  ∀ node, N node → ∀ part ∈ node.parts, N part

/-- A node of the set, or any expression. -/
def OrExpression (N : Node → Prop) (node : Node) : Prop :=
  N node ∨ ∃ e, node = .expression e

theorem closed_has (tree : Node) : Closed tree.Has :=
  fun _ has _ mem => .part has mem

theorem Closed.orExpression {N : Node → Prop} (closed : Closed N) : Closed (OrExpression N) := by
  rintro node (inside | ⟨e, rfl⟩) part mem
  · exact .inl (closed node inside part mem)
  · cases e with
    | literal => cases mem
    | identifier => cases mem
    | binary operator left right line =>
      simp only [parts, Expr.parts, List.mem_cons, List.not_mem_nil, or_false] at mem
      rcases mem with rfl | rfl
      · exact .inr ⟨left, rfl⟩
      · exact .inr ⟨right, rfl⟩
    | call name arguments line =>
      obtain ⟨e, -, rfl⟩ := List.mem_map.mp mem
      exact .inr ⟨e, rfl⟩

/-- Only nodes that are neither programs nor literals are visited. -/
theorem kind_of_isVisited {node : Node} (visited : node.isVisited = true) :
    node.kind ≠ .program ∧ node.kind ≠ .literal := by
  cases node with
  | program p => cases visited
  | block b => exact ⟨nofun, nofun⟩
  | statement s =>
    cases s with
    | expression e => cases visited
    | _ => exact ⟨nofun, nofun⟩
  | expression e =>
    cases e with
    | literal => cases visited
    | _ => exact ⟨nofun, nofun⟩

end Node

/-- The nodes that a function evaluates when it is applied. -/
def Function.nodes : Function → List Node
  | builtin _ => []
  | closure c => [.block c.body]

/-- The nodes that a frame waits to evaluate. -/
def Frame.nodes : Frame → List Node
  | leftOperand _ right _ _ => [.expression right]
  | argument function _ _ _ todo _ => function.nodes ++ todo.map .expression
  | branch body otherwise? _ => .block body :: (otherwise?.map .block).toList
  | loopTest condition body _ => [.expression condition, .block body]
  | loopBody condition body _ => [.expression condition, .block body]
  | sequence rest _ _ => rest.map .statement
  | rightOperand .. => []
  | call .. => []
  | result _ => []
  | declaration .. => []
  | assignment .. => []
  | returns _ => []

/-- The parts of the node that the control is to evaluate. -/
def Control.parts : Control → List Node
  | evaluate node _ => node.parts
  | deliver _ => []
  | raise _ => []

/-! ## Scopes -/

namespace Scopes

variable {N : Node → Prop} {s : Scopes}

/-- The bodies of all closures belong to the set. -/
def Over (N : Node → Prop) (s : Scopes) : Prop :=
  ∀ i name function, (name, function) ∈ (s.scope i).functions → ∀ node ∈ function.nodes, N node

namespace Over

theorem modify (h : s.Over N) (i : ScopeId) {f : Scope → Scope}
    (functions : ∀ t name function, (name, function) ∈ (f t).functions →
      (name, function) ∈ t.functions ∨ ∀ node ∈ function.nodes, N node) :
    (s.modify i f).Over N := by
  intro j name function mem
  rw [scope_modify] at mem
  split at mem
  · rcases functions _ name function mem with old | new
    · exact h j name function old
    · exact new
  · exact h j name function mem

theorem addFunction (h : s.Over N) (i : ScopeId) (name : String) {function : Function}
    (nodes : ∀ node ∈ function.nodes, N node) :
    (s.modify i (·.addFunction name function)).Over N := by
  refine h.modify i fun t key function' mem => ?_
  rcases List.mem_cons.mp mem with new | old
  · cases new
    exact .inr nodes
  · exact .inl old

theorem addVariable (h : s.Over N) (i : ScopeId) (name : String) (value : Int32) :
    (s.modify i (·.addVariable name value)).Over N :=
  h.modify i fun _ _ _ old => .inl old

theorem setVariable (h : s.Over N) (i : ScopeId) (name : String) (value : Int32) :
    (s.modify i (·.setVariable name value)).Over N :=
  h.modify i fun _ _ _ old => .inl old

theorem interrupt (h : s.Over N) (i : ScopeId) (value : Int32) : (s.interrupt i value).Over N :=
  h.modify i fun _ _ _ old => .inl old

theorem release (h : s.Over N) (i : ScopeId) : (s.release i).Over N :=
  h.modify i fun _ _ _ none => nomatch none

theorem child (h : s.Over N) (parent : ScopeId) : (s.child parent).2.Over N := by
  intro j name function mem
  rw [scope_child] at mem
  split at mem
  · cases mem
  · exact h j name function mem

theorem bindParameters (h : s.Over N) (i : ScopeId) (bindings : List (String × Int32)) :
    (s.bindParameters i bindings).Over N :=
  bindParameters_induction (fun _ name value h => h.addVariable i name value) bindings h

theorem function? (h : s.Over N) {i : ScopeId} {name : String} {function : Function}
    (found : s.function? i name = some function) : ∀ node ∈ function.nodes, N node := by
  obtain ⟨j, -, bound⟩ := List.exists_of_findSome?_eq_some found
  exact h j name function (mem_of_functionOf? bound)

end Over

end Scopes

/-! ## Machines -/

namespace Machine

/-- All that the machine may come to evaluate, if it is but for parts, belongs to the set. -/
structure Over (N : Node → Prop) (m : Machine) : Prop where
  control : ∀ node i, m.control = .evaluate node i → N node
  stack : ∀ frame ∈ m.stack, ∀ node ∈ frame.nodes, N node
  closures : m.world.scopes.Over N

namespace Over

variable {N : Node → Prop} {i : ScopeId} {stack : List Frame} {world : World}

theorem evaluate {node : Node} (inside : N node)
    (below : ∀ frame ∈ stack, ∀ node ∈ frame.nodes, N node) (closures : world.scopes.Over N) :
    Over N ⟨.evaluate node i, stack, world⟩ := by
  refine ⟨fun node' j same => ?_, below, closures⟩
  cases same
  exact inside

theorem raise (fault : Fault) (below : ∀ frame ∈ stack, ∀ node ∈ frame.nodes, N node)
    (closures : world.scopes.Over N) : Over N ⟨.raise fault, stack, world⟩ :=
  ⟨nofun, below, closures⟩

end Over

/-! ### Moves -/

section Moves

variable {N : Node → Prop} {s : Scopes} {control control' : Control} {taken pushed : List Frame}
  {i : ScopeId} (parts : ∀ part ∈ control.parts, N part)
  (above : ∀ frame ∈ taken, ∀ node ∈ frame.nodes, N node) (closures : s.Over N)

include parts above

theorem Loops.over {condition : Expr} {body : Block}
    (loops : Loops control taken condition body i) :
    N (.expression condition) ∧ N (.block body) := by
  cases loops with
  | begin => exact ⟨parts _ List.mem_cons_self, parts _ (List.mem_cons_of_mem _ List.mem_cons_self)⟩
  | again =>
    have waiting := above _ List.mem_cons_self
    exact ⟨waiting _ List.mem_cons_self, waiting _ (List.mem_cons_of_mem _ List.mem_cons_self)⟩

include closures

theorem Calls.over {function : Function} {name : String} {line : Nat} {done : List Int32}
    {todo : List Expr} (calls : Calls s control taken function name line done todo i) :
    (∀ node ∈ function.nodes, N node) ∧ ∀ e ∈ todo, N (.expression e) := by
  cases calls with
  | begin found => exact ⟨closures.function? found, fun e mem => parts _ (List.mem_map_of_mem mem)⟩
  | argument =>
    have waiting := above _ List.mem_cons_self
    exact ⟨fun node mem => waiting node (List.mem_append_left _ mem),
      fun e mem => waiting _ (List.mem_append_right _ (List.mem_map_of_mem mem))⟩

theorem Begins.over {node : Node} (begins : Begins s control taken node i pushed) :
    N node ∧ ∀ frame ∈ pushed, ∀ node ∈ frame.nodes, N node := by
  cases begins with
  | program => exact ⟨parts _ List.mem_cons_self, List.forall_mem_singleton.mpr nofun⟩
  | next =>
    obtain ⟨first, rest⟩ := List.forall_mem_cons.mp (above _ List.mem_cons_self)
    exact ⟨first, List.forall_mem_singleton.mpr rest⟩
  | expression => exact ⟨parts _ List.mem_cons_self, nofun⟩
  | declaration => exact ⟨parts _ List.mem_cons_self, List.forall_mem_singleton.mpr nofun⟩
  | assignment => exact ⟨parts _ List.mem_cons_self, List.forall_mem_singleton.mpr nofun⟩
  | returns => exact ⟨parts _ List.mem_cons_self, List.forall_mem_singleton.mpr nofun⟩
  | branch =>
    obtain ⟨condition, blocks⟩ := List.forall_mem_cons.mp parts
    exact ⟨condition, List.forall_mem_singleton.mpr blocks⟩
  | chosen chosen =>
    obtain ⟨body, otherwise⟩ := List.forall_mem_cons.mp (above _ List.mem_cons_self)
    refine ⟨?_, nofun⟩
    split at chosen
    · exact otherwise _ (by simp [chosen])
    · cases chosen
      exact body
  | loopTest loops =>
    obtain ⟨condition, body⟩ := loops.over parts above
    exact ⟨condition, List.forall_mem_singleton.mpr (by simp [Frame.nodes, condition, body])⟩
  | loopBody =>
    have waiting := above _ List.mem_cons_self
    exact ⟨waiting _ (List.mem_cons_of_mem _ List.mem_cons_self),
      List.forall_mem_singleton.mpr waiting⟩
  | leftOperand =>
    obtain ⟨left, right⟩ := List.forall_mem_cons.mp parts
    exact ⟨left, List.forall_mem_singleton.mpr right⟩
  | rightOperand =>
    exact ⟨above _ List.mem_cons_self _ List.mem_cons_self, List.forall_mem_singleton.mpr nofun⟩
  | argument calls =>
    obtain ⟨applied, arguments⟩ := calls.over parts above closures
    refine ⟨arguments _ List.mem_cons_self, List.forall_mem_singleton.mpr fun node mem => ?_⟩
    rcases List.mem_append.mp mem with mem | mem
    · exact applied node mem
    · obtain ⟨e, later, rfl⟩ := List.mem_map.mp mem
      exact arguments e (List.mem_cons_of_mem _ later)

/-- All that a move may come to evaluate is a part of what the machine came to, or waited for. -/
theorem Moves.over {effect : Effect} (moves : Moves s control taken effect control' pushed) :
    (∀ node i, control' = .evaluate node i → N node) ∧
      (∀ frame ∈ pushed, ∀ node ∈ frame.nodes, N node) ∧ (effect.scopes s).Over N := by
  cases moves with
  | begins begins =>
    obtain ⟨inside, waiting⟩ := begins.over parts above closures
    refine ⟨fun node i same => ?_, waiting, closures⟩
    cases same
    exact inside
  | yields => exact ⟨nofun, nofun, closures⟩
  | fails => exact ⟨nofun, nofun, closures⟩
  | write => exact ⟨nofun, List.forall_mem_singleton.mpr nofun, closures⟩
  | call calls =>
    obtain ⟨applied, -⟩ := calls.over parts above closures
    refine ⟨fun node i same => ?_, by simp [Frame.nodes], (closures.child _).bindParameters _ _⟩
    cases same
    exact applied _ List.mem_cons_self
  | mismatch => exact ⟨nofun, List.forall_mem_singleton.mpr nofun, closures⟩
  | enter statements =>
    rw [Control.parts, Node.parts, statements, List.map_cons, List.forall_mem_cons] at parts
    refine ⟨fun node i same => ?_, List.forall_mem_singleton.mpr parts.2, closures.child _⟩
    cases same
    exact parts.1
  | skip => exact ⟨nofun, nofun, (closures.child _).release _⟩
  | close => exact ⟨nofun, nofun, closures.release _⟩
  | leave => exact ⟨nofun, nofun, (closures.interrupt _ _).release _⟩
  | abandon => exact ⟨nofun, nofun, closures.release _⟩
  | declare => exact ⟨nofun, nofun, closures.addVariable _ _ _⟩
  | define => exact ⟨nofun, nofun, closures.addFunction _ _ parts⟩
  | assign => exact ⟨nofun, nofun, closures.setVariable _ _ _⟩
  | interrupt => exact ⟨nofun, nofun, closures.interrupt _ _⟩
  | rename => exact ⟨nofun, nofun, closures⟩
  | pass => exact ⟨nofun, nofun, closures⟩

end Moves

namespace Over

variable {N : Node → Prop} {m : Machine}

/-- A step keeps a machine over its nodes. -/
theorem step (closed : Node.Closed N) (h : m.Over N) : m.step.Over N := by
  obtain ⟨-, same⟩ | ⟨control, taken, effect, control', pushed, stack, world, rfl, next, moves⟩ :=
    m.step_cases
  · rwa [same]
  · obtain ⟨above, below⟩ := List.forall_mem_append.mp h.stack
    have parts : ∀ part ∈ control.parts, N part := by
      cases control with
      | evaluate node i => exact closed node (h.control node i rfl)
      | deliver value => exact nofun
      | raise fault => exact nofun
    obtain ⟨inside, waiting, closures⟩ := moves.over parts above h.closures
    rw [next]
    exact ⟨inside, List.forall_mem_append.mpr ⟨waiting, below⟩, closures⟩

theorem after (closed : Node.Closed N) (h : m.Over N) (n : Nat) : (m.after n).Over N :=
  after_induction (motive := Over N) (fun _ => step closed) n h

end Over

theorem over_ofProgram (program : Program) :
    (ofProgram program).Over (Node.program program).Has := by
  have root : Scopes.Over (Node.program program).Has (Scopes.root {}).2 := by
    intro i name function mem
    cases i <;> cases mem
  have bound (b : Builtin) {s : Scopes} (h : s.Over (Node.program program).Has) :
      (s.modify 0 (·.addFunction b.name (.builtin b))).Over (Node.program program).Has :=
    h.addFunction 0 _ nofun
  exact .evaluate .whole nofun (bound .println (bound .print root))

end Machine

/-! ## Runs under breakpoints -/

namespace Scopes.Over

variable {N : Node → Prop} {s : Scopes}

/-- No closure has an expression for its body. -/
theorem orExpression_iff : s.Over (Node.OrExpression N) ↔ s.Over N := by
  constructor
  · intro h i name function mem node body
    rcases h i name function mem node body with inside | ⟨e, rfl⟩
    · exact inside
    · cases function with
      | builtin b => cases body
      | closure c =>
        rcases List.mem_singleton.mp body with ⟨⟩
  · exact fun h i name function mem node body => .inl (h i name function mem node body)

end Scopes.Over

namespace Machine

variable {N : Node → Prop} {pause : Pause} {world : World}

/-- However far an expression has come that is evaluated at a visit, the run could go on with the
visit, or with a fault. -/
theorem Over.evaluated (closed : Node.Closed N) (h : (pause.machine world).Over N) (e : Expr)
    (n : Nat) :
    let world' := ((start (.expression e) pause.scope world).after n).world
    (pause.machine world').Over N ∧ ∀ fault, Over N ⟨.raise fault, pause.stack, world'⟩ := by
  have started : (start (.expression e) pause.scope world).Over (Node.OrExpression N) :=
    evaluate (.inr ⟨e, rfl⟩) nofun (Scopes.Over.orExpression_iff.mpr h.closures)
  have closures := Scopes.Over.orExpression_iff.mp (started.after closed.orExpression n).closures
  exact ⟨evaluate (h.control _ _ rfl) h.stack closures, fun fault => raise fault h.stack closures⟩

end Machine

namespace Monitored

variable {N : Node → Prop} {r : Monitored} {table : Breakpoints}

/-- All that the run may come to evaluate of its own, if it is but for parts, belongs to the set. -/
def Over (N : Node → Prop) : Monitored → Prop
  | running m => m.Over N
  | testing condition pause => ∃ world e n, (pause.machine world).Over N ∧
      condition = (Machine.start (.expression e) pause.scope world).after n
  | suspended s => (s.pause.machine s.world).Over N
  | finished _ _ => True

namespace Over

theorem settle (closed : Node.Closed N) {pause : Pause} {world : World}
    (goes_on : (pause.machine world).Over N)
    (fails : ∀ fault, Machine.Over N ⟨.raise fault, pause.stack, world⟩)
    (outcome : Except Fault Int32) : (settle pause outcome world).Over N := by
  cases outcome with
  | error fault => exact fails fault
  | ok value =>
    rw [Monitored.settle]
    split
    · exact goes_on.step closed
    · exact goes_on

theorem step (closed : Node.Closed N) (h : r.Over N) : (r.step table).Over N := by
  cases r with
  | running m =>
    rw [Monitored.step]
    obtain ⟨pause, world, breakpoint, rfl, -, -, next⟩ | next | ⟨outcome, -, next⟩ :=
      advance_cases table m
    · rw [next]
      exact ⟨world, breakpoint.condition, 0, h, rfl⟩
    · rw [next]
      exact Machine.Over.step closed h
    · rw [next]
      trivial
  | testing condition pause =>
    obtain ⟨world, e, n, visit, rfl⟩ := h
    rw [Monitored.step]
    split
    · obtain ⟨goes_on, fails⟩ := visit.evaluated closed e n
      exact settle closed goes_on fails _
    · exact ⟨world, e, n + 1, visit, (Machine.after_succ_eq_step ..).symm⟩
  | suspended s => exact h
  | finished outcome world => trivial

theorem after (closed : Node.Closed N) (h : r.Over N) (n : Nat) : (r.after table n).Over N := by
  induction n generalizing r with
  | zero => exact h
  | succ n ih => exact ih (h.step closed)

end Over

end Monitored

/-! ## Sessions -/

/-- What is left of the run belongs to the set. -/
def Stage.Over (N : Node → Prop) : Stage → Prop
  | started m => m.Over N
  | suspended s => (s.pause.machine s.world).Over N
  | finished => True
  | dropped => True

namespace Session

variable {N : Node → Prop} {s : Session}

theorem Pending.staysOver (closed : Node.Closed N) {request : Request} {r : Monitored}
    (pending : Pending request s r) (h : s.stage.Over N) : r.Over N := by
  cases pending with
  | wait => exact h
  | resume => exact Machine.Over.step closed h

theorem Turn.staysOver (closed : Node.Closed N) {stage : Stage} (turn : Turn s stage)
    (h : s.stage.Over N) : stage.Over N := by
  cases turn with
  | same => exact h
  | suspended pending ran =>
    obtain ⟨n, there⟩ := Monitored.exists_after_of_run ran
    have halted : (Monitored.after s.breakpoints n _).Over N :=
      (pending.staysOver closed h).after closed n
    rw [there] at halted
    exact ⟨halted.control, halted.stack, halted.closures⟩
  | @evaluated suspension suspension' budget e outcome here ran =>
    rw [here] at h
    obtain ⟨⟨outcome', world⟩, ran, left⟩ := Option.map_eq_some_iff.mp ran
    obtain ⟨n, -, -, rfl⟩ := Machine.run_eq_some_iff.mp ran
    cases left
    have halted := (Machine.Over.evaluated closed h e n).1
    exact ⟨halted.control, halted.stack, halted.closures⟩
  | finished => trivial
  | dropped => trivial

/-- A session of a program is about the nodes of the program. -/
theorem Reached.staysOver {program : Program} (h : Reached program s) :
    s.stage.Over (Node.program program).Has := by
  induction h with
  | start table => exact Machine.over_ofProgram program
  | answer _ answered ih => exact (turn_of_answer answered).staysOver (Node.closed_has _) ih

end Session

end FunLanguage
