import FunLanguage.Proofs.Run
import FunLanguage.Proofs.Scopes

/-!
# The moves of a machine

What a step does depends on the control, on the frame that it takes off the stack if it takes one,
and on the scopes. It depends neither on the rest of the stack nor on what has been written.
`Machine.Moves` says what a step does, case by case: its effect on the world (`Effect`), the new
control, and the frames that it puts on the stack.

A machine that is under way has a move, and its step is that move (`Machine.step_cases`,
`Machine.step_of_moves`). Whatever a step keeps is proved of moves, without a look at the functions
that do them.
-/

namespace FunLanguage

/-! ## Effects -/

/-- What a step does to the world. -/
inductive Effect where
  | nothing
  | write (text : String)
  /-- A scope is created for a call, inside the one that the closure captured, and the parameters
  are bound in it. -/
  | call (captured : ScopeId) (bindings : List (String × Int32))
  /-- A scope is created for a block. -/
  | enter (outer : ScopeId)
  /-- A block without statements is entered and ends. -/
  | skip (outer : ScopeId)
  /-- The block ends. -/
  | close (inner : ScopeId)
  /-- The block ends, and the scope around it is to return the value. -/
  | leave (inner outer : ScopeId) (value : Int32)
  | declare (scope : ScopeId) (name : String) (value : Int32)
  | define (scope : ScopeId) (name : String) (function : Function)
  /-- A variable that the scope itself binds gets another value. -/
  | assign (holder : ScopeId) (name : String) (value : Int32)
  | interrupt (scope : ScopeId) (value : Int32)

namespace Effect

/-- The scopes that the effect leaves. -/
@[simp] def scopes : Effect → Scopes → Scopes
  | nothing, s => s
  | write _, s => s
  | call captured bindings, s => (s.child captured).2.bindParameters s.size bindings
  | enter outer, s => (s.child outer).2
  | skip outer, s => (s.child outer).2.release s.size
  | close inner, s => s.release inner
  | leave inner outer value, s => (s.interrupt outer value).release inner
  | declare i name value, s => s.modify i (·.addVariable name value)
  | define i name function, s => s.modify i (·.addFunction name function)
  | assign i name value, s => s.modify i (·.setVariable name value)
  | interrupt i value, s => s.interrupt i value

/-- The text that the effect writes. -/
@[simp] def written : Effect → String
  | write text => text
  | _ => ""

def apply (e : Effect) (w : World) : World :=
  ⟨e.scopes w.scopes, w.output ++ e.written⟩

@[simp] theorem apply_scopes (e : Effect) (w : World) :
    (e.apply w).scopes = e.scopes w.scopes := rfl

@[simp] theorem apply_nothing (w : World) : nothing.apply w = w := by
  simp [apply, scopes, written]

end Effect

/-- The frame hands the fault on as it is, and there is nothing that it has to tidy up. -/
def Frame.Passes (fault : Fault) : Frame → Prop
  | call _ _ => fault.Passing
  | sequence _ _ _ => False
  | _ => True

namespace Machine

/-! ## Moves -/

/-- A call goes on: its first arguments have the values `done`, the last of them first, and `todo`
are still to be evaluated. -/
inductive Calls (s : Scopes) : Control → List Frame → Function → String → Nat → List Int32 →
    List Expr → ScopeId → Prop
  | begin {function name arguments line i} (found : s.function? i name = some function) :
      Calls s (.evaluate (.expression (.call name arguments line)) i) [] function name line []
        arguments i
  | argument {value function name line done todo i} :
      Calls s (.deliver value) [.argument function name line done todo i] function name line
        (value :: done) todo i

/-- A loop begins or goes on. -/
inductive Loops : Control → List Frame → Expr → Block → ScopeId → Prop
  | begin {condition body line i} :
      Loops (.evaluate (.statement (.loop condition body line)) i) [] condition body i
  | again {value condition body i} :
      Loops (.deliver value) [.loopBody condition body i] condition body i

/-- A variable is declared: without a value, or with the value that has come. -/
inductive Declares : Control → List Frame → String → Int32 → Nat → ScopeId → Prop
  | plain {name line i} :
      Declares (.evaluate (.statement (.declaration name none line)) i) [] name 0 line i
  | valued {name value line i} :
      Declares (.deliver value) [.declaration name line i] name value line i

/-- The machine goes on with a part of a node, and leaves the world alone. -/
inductive Begins (s : Scopes) : Control → List Frame → Node → ScopeId → List Frame → Prop
  | program {p i} : Begins s (.evaluate (.program p) i) [] (.block p.block) i [.result i]
  | next {value t rest inner outer} (running : s.isInterrupted inner = false) :
      Begins s (.deliver value) [.sequence (t :: rest) inner outer] (.statement t) inner
        [.sequence rest inner outer]
  | expression {e i} :
      Begins s (.evaluate (.statement (.expression e)) i) [] (.expression e) i []
  | declaration {name e line i} :
      Begins s (.evaluate (.statement (.declaration name (some e) line)) i) [] (.expression e) i
        [.declaration name line i]
  | assignment {name e line i} :
      Begins s (.evaluate (.statement (.assignment name e line)) i) [] (.expression e) i
        [.assignment name line i]
  | returns {e line i} :
      Begins s (.evaluate (.statement (.returns e line)) i) [] (.expression e) i [.returns i]
  | branch {condition body otherwise? line i} :
      Begins s (.evaluate (.statement (.branch condition body otherwise? line)) i) []
        (.expression condition) i [.branch body otherwise? i]
  | chosen {value body otherwise? i b}
      (chosen : (if value = 0 then otherwise? else some body) = some b) :
      Begins s (.deliver value) [.branch body otherwise? i] (.block b) i []
  | loopTest {control taken condition body i} (loops : Loops control taken condition body i)
      (running : s.isInterrupted i = false) :
      Begins s control taken (.expression condition) i [.loopTest condition body i]
  | loopBody {value condition body i} (holds : value ≠ 0) :
      Begins s (.deliver value) [.loopTest condition body i] (.block body) i
        [.loopBody condition body i]
  | leftOperand {op left right line i} :
      Begins s (.evaluate (.expression (.binary op left right line)) i) [] (.expression left) i
        [.leftOperand op right line i]
  | rightOperand {value op right line i} :
      Begins s (.deliver value) [.leftOperand op right line i] (.expression right) i
        [.rightOperand op value line]
  | argument {control taken function name line done e todo i}
      (calls : Calls s control taken function name line done (e :: todo) i) :
      Begins s control taken (.expression e) i [.argument function name line done todo i]

/-- The machine comes to a value, and leaves the world alone. -/
inductive Yields (s : Scopes) : Control → List Frame → Int32 → Prop
  | literal {value line i} : Yields s (.evaluate (.expression (.literal value line)) i) [] value
  | identifier {name line value i} (bound : s.get? i name = some value) :
      Yields s (.evaluate (.expression (.identifier name line)) i) [] value
  | operator {op left right line value} (applied : op.apply left right = some value) :
      Yields s (.deliver right) [.rightOperand op left line] value
  | call {value name line} : Yields s (.deliver value) [.call name line] value
  | result {value i} : Yields s (.deliver value) [.result i] (s.result i)
  | branch {value body otherwise? i}
      (none : (if value = 0 then otherwise? else some body) = none) :
      Yields s (.deliver value) [.branch body otherwise? i] 0
  | loopTest {condition body i} : Yields s (.deliver 0) [.loopTest condition body i] 0
  | loop {control taken condition body i} (loops : Loops control taken condition body i)
      (returned : s.isInterrupted i = true) : Yields s control taken 0

/-- The machine comes to a fault of its own. -/
inductive Fails (s : Scopes) : Control → List Frame → Fault → Prop
  | identifier {name line i} (unbound : s.get? i name = none) :
      Fails s (.evaluate (.expression (.identifier name line)) i) [] (.unknownIdentifier name line)
  | target {name line i value} (unbound : s.holder? i name = none) :
      Fails s (.deliver value) [.assignment name line i] (.unknownIdentifier name line)
  | function {name arguments line i} (unbound : s.function? i name = none) :
      Fails s (.evaluate (.expression (.call name arguments line)) i) []
        (.unknownIdentifier name line)
  | declaration {control taken name value line i}
      (declares : Declares control taken name value line i)
      (bound : ((s.scope i).valueOf? name).isSome = true) :
      Fails s control taken (.redefinition name line)
  | definition {name parameters body line i}
      (bound : ((s.scope i).functionOf? name).isSome = true) :
      Fails s (.evaluate (.statement (.definition name parameters body line)) i) []
        (.redefinition name line)
  | operator {op left right line} (undefined : op.apply left right = none) :
      Fails s (.deliver right) [.rightOperand op left line] (.arithmetic line)

/-- What the machine does next: with this control, it takes frames off the stack, has an effect on
the world, gets another control and puts frames on the stack. -/
inductive Moves (s : Scopes) : Control → List Frame → Effect → Control → List Frame → Prop
  | begins {control taken node i pushed} (begins : Begins s control taken node i pushed) :
      Moves s control taken .nothing (.evaluate node i) pushed
  | yields {control taken value} (yields : Yields s control taken value) :
      Moves s control taken .nothing (.deliver value) []
  | fails {control taken fault} (fails : Fails s control taken fault) :
      Moves s control taken .nothing (.raise fault) []
  -- Calls whose arguments have been evaluated
  | write {control taken b name line done i}
      (calls : Calls s control taken (.builtin b) name line done [] i) :
      Moves s control taken (.write (b.written done.reverse)) (.deliver 0) [.call name line]
  | call {control taken c name line done i}
      (calls : Calls s control taken (.closure c) name line done [] i)
      (fits : done.length = c.parameters.length) :
      Moves s control taken (.call c.scope (c.parameters.zip done.reverse))
        (.evaluate (.block c.body) s.size) [.result s.size, .call name line]
  | mismatch {control taken c name line done i}
      (calls : Calls s control taken (.closure c) name line done [] i)
      (differ : done.length ≠ c.parameters.length) :
      Moves s control taken .nothing
        (.raise (.wrongArgumentsNumber c.parameters.length done.length))
        [.call name line]
  -- Blocks
  | enter {b t rest i} (statements : b.statements = t :: rest) :
      Moves s (.evaluate (.block b) i) [] (.enter i) (.evaluate (.statement t) s.size)
        [.sequence rest s.size i]
  | skip {b i} (empty : b.statements = []) :
      Moves s (.evaluate (.block b) i) [] (.skip i) (.deliver 0) []
  | close {value inner outer} (running : s.isInterrupted inner = false) :
      Moves s (.deliver value) [.sequence [] inner outer] (.close inner) (.deliver 0) []
  | leave {value rest inner outer} (returned : s.isInterrupted inner = true) :
      Moves s (.deliver value) [.sequence rest inner outer] (.leave inner outer (s.result inner))
        (.deliver 0) []
  | abandon {fault rest inner outer} :
      Moves s (.raise fault) [.sequence rest inner outer] (.close inner) (.raise fault) []
  -- Changes of one scope
  | declare {control taken name value line i}
      (declares : Declares control taken name value line i)
      (free : ((s.scope i).valueOf? name).isSome = false) :
      Moves s control taken (.declare i name value) (.deliver 0) []
  | define {name parameters body line i} (free : ((s.scope i).functionOf? name).isSome = false) :
      Moves s (.evaluate (.statement (.definition name parameters body line)) i) []
        (.define i name (.closure ⟨i, parameters, body⟩)) (.deliver 0) []
  | assign {value name line i j} (holder : s.holder? i name = some j) :
      Moves s (.deliver value) [.assignment name line i] (.assign j name value) (.deliver 0) []
  | interrupt {value i} :
      Moves s (.deliver value) [.returns i] (.interrupt i value) (.deliver 0) []
  -- Faults on their way out
  | rename {name line expected found} :
      Moves s (.raise (.wrongArgumentsNumber expected found)) [.call name line] .nothing
        (.raise (.functionCall name line)) []
  | pass {fault frame} (passes : frame.Passes fault) :
      Moves s (.raise fault) [frame] .nothing (.raise fault) []

/-! ## Steps are moves -/

section Functions

variable {control control' : Control} {taken pushed : List Frame} {function : Function}
  {name : String} {line : Nat} {done : List Int32} {todo : List Expr} {condition : Expr}
  {body : Block} {value : Int32} {i : ScopeId} {effect : Effect} (stack : List Frame)
  (world : World)

theorem step_of_calls (calls : Calls world.scopes control taken function name line done todo i) :
    step ⟨control, taken ++ stack, world⟩ =
      proceedCall function name line done todo i stack world := by
  cases calls with
  | begin found => simp [step, enter, enterExpression, found]
  | argument => rfl

theorem step_of_loops (loops : Loops control taken condition body i) :
    step ⟨control, taken ++ stack, world⟩ = proceedLoop condition body i stack world := by
  cases loops <;> rfl

theorem step_of_declares (declares : Declares control taken name value line i) :
    step ⟨control, taken ++ stack, world⟩ = declare name value line i stack world := by
  cases declares <;> rfl

theorem step_of_begins {node : Node} (begins : Begins world.scopes control taken node i pushed) :
    step ⟨control, taken ++ stack, world⟩ = ⟨.evaluate node i, pushed ++ stack, world⟩ := by
  cases begins with
  | next running => simp [step, receive, proceedBlock, running]
  | chosen chosen => simp [step, receive, chosen]
  | loopTest loops running => simp [step_of_loops stack world loops, proceedLoop, running]
  | loopBody holds => simp [step, receive, holds]
  | argument calls => exact step_of_calls stack world calls
  | _ => rfl

theorem step_of_yields (yields : Yields world.scopes control taken value) :
    step ⟨control, taken ++ stack, world⟩ = ⟨.deliver value, stack, world⟩ := by
  cases yields with
  | identifier bound => simp [step, enter, enterExpression, bound]
  | operator applied => simp [step, receive, applied]
  | branch none => simp [step, receive, none]
  | loop loops returned => simp [step_of_loops stack world loops, proceedLoop, returned]
  | _ => rfl

theorem step_of_fails {fault : Fault} (fails : Fails world.scopes control taken fault) :
    step ⟨control, taken ++ stack, world⟩ = ⟨.raise fault, stack, world⟩ := by
  cases fails with
  | identifier unbound => simp [step, enter, enterExpression, unbound]
  | target unbound => simp [step, receive, Scopes.set, unbound]
  | function unbound => simp [step, enter, enterExpression, unbound]
  | declaration declares bound =>
    simp [step_of_declares stack world declares, declare, Scopes.define, bound]
  | definition bound => simp [step, enter, enterStatement, Scopes.defineFunction, bound]
  | operator undefined => simp [step, receive, undefined]

theorem unwind_of_passes {frame : Frame} {fault : Fault} (passes : frame.Passes fault) :
    unwind frame fault stack world = ⟨.raise fault, stack, world⟩ := by
  cases frame with
  | call name line =>
    cases fault with
    | wrongArgumentsNumber expected found => exact absurd rfl (passes expected found)
    | _ => rfl
  | sequence rest inner outer => exact passes.elim
  | _ => rfl

/-- A machine that has a move steps so. -/
theorem step_of_moves (moves : Moves world.scopes control taken effect control' pushed) :
    step ⟨control, taken ++ stack, world⟩ = ⟨control', pushed ++ stack, effect.apply world⟩ := by
  cases moves with
  | begins begins => rw [step_of_begins stack world begins, Effect.apply_nothing]
  | yields yields => rw [step_of_yields stack world yields, Effect.apply_nothing, List.nil_append]
  | fails fails => rw [step_of_fails stack world fails, Effect.apply_nothing, List.nil_append]
  | write calls => exact step_of_calls stack world calls
  | call calls fits =>
    rw [step_of_calls stack world calls]
    simp [proceedCall, Machine.apply, fits, Effect.apply]
  | mismatch calls differ =>
    rw [step_of_calls stack world calls]
    simp [proceedCall, Machine.apply, differ]
  | enter statements => simp [step, Machine.enter, proceedBlock, statements, Effect.apply]
  | skip empty => simp [step, Machine.enter, proceedBlock, empty, Effect.apply]
  | close running => simp [step, receive, proceedBlock, running, Effect.apply]
  | leave returned => simp [step, receive, proceedBlock, returned, Effect.apply]
  | abandon => simp [step, unwind, Effect.apply]
  | declare declares free =>
    rw [step_of_declares stack world declares]
    simp [Machine.declare, Scopes.define, free, Effect.apply]
  | define free =>
    simp [step, Machine.enter, enterStatement, Scopes.defineFunction, free, Effect.apply]
  | assign holder => simp [step, receive, Scopes.set, holder, Effect.apply]
  | interrupt => simp [step, receive, Effect.apply]
  | rename => simp [step, unwind]
  | pass passes => simp [step, unwind_of_passes stack world passes]

end Functions

/-! ## Every step is a move -/

/-- The machine can move. -/
def Movable (s : Scopes) (control : Control) (taken : List Frame) : Prop :=
  ∃ effect control' pushed, Moves s control taken effect control' pushed

section Exhaustive

variable {s : Scopes} {control : Control} {taken : List Frame} {i : ScopeId}

theorem Calls.movable {function : Function} {name : String} {line : Nat} {done : List Int32}
    {todo : List Expr} (calls : Calls s control taken function name line done todo i) :
    Movable s control taken := by
  cases todo with
  | cons e todo => exact ⟨_, _, _, .begins (.argument calls)⟩
  | nil =>
    cases function with
    | builtin b => exact ⟨_, _, _, .write calls⟩
    | closure c =>
      by_cases fits : done.length = c.parameters.length
      · exact ⟨_, _, _, .call calls fits⟩
      · exact ⟨_, _, _, .mismatch calls fits⟩

theorem Loops.movable {condition : Expr} {body : Block}
    (loops : Loops control taken condition body i) : Movable s control taken := by
  cases returned : s.isInterrupted i with
  | true => exact ⟨_, _, _, .yields (.loop loops returned)⟩
  | false => exact ⟨_, _, _, .begins (.loopTest loops returned)⟩

theorem Declares.movable {name : String} {value : Int32} {line : Nat}
    (declares : Declares control taken name value line i) : Movable s control taken := by
  cases bound : ((s.scope i).valueOf? name).isSome with
  | true => exact ⟨_, _, _, .fails (.declaration declares bound)⟩
  | false => exact ⟨_, _, _, .declare declares bound⟩

variable (s)

theorem movable_of_expression (e : Expr) (i : ScopeId) :
    Movable s (.evaluate (.expression e) i) [] := by
  cases e with
  | literal value line => exact ⟨_, _, _, .yields .literal⟩
  | identifier name line =>
    cases found : s.get? i name with
    | none => exact ⟨_, _, _, .fails (.identifier found)⟩
    | some value => exact ⟨_, _, _, .yields (.identifier found)⟩
  | binary op left right line => exact ⟨_, _, _, .begins .leftOperand⟩
  | call name arguments line =>
    cases found : s.function? i name with
    | none => exact ⟨_, _, _, .fails (.function found)⟩
    | some function => exact (Calls.begin found).movable

theorem movable_of_statement (t : Stmt) (i : ScopeId) :
    Movable s (.evaluate (.statement t) i) [] := by
  cases t with
  | expression e => exact ⟨_, _, _, .begins .expression⟩
  | definition name parameters body line =>
    cases bound : ((s.scope i).functionOf? name).isSome with
    | true => exact ⟨_, _, _, .fails (.definition bound)⟩
    | false => exact ⟨_, _, _, .define bound⟩
  | declaration name value? line =>
    cases value? with
    | none => exact Declares.plain.movable
    | some e => exact ⟨_, _, _, .begins .declaration⟩
  | loop condition body line => exact Loops.begin.movable
  | branch condition body otherwise? line => exact ⟨_, _, _, .begins .branch⟩
  | assignment name e line => exact ⟨_, _, _, .begins .assignment⟩
  | returns e line => exact ⟨_, _, _, .begins .returns⟩

theorem movable_of_node (node : Node) (i : ScopeId) : Movable s (.evaluate node i) [] := by
  cases node with
  | program p => exact ⟨_, _, _, .begins .program⟩
  | block b =>
    cases statements : b.statements with
    | nil => exact ⟨_, _, _, .skip statements⟩
    | cons t rest => exact ⟨_, _, _, .enter statements⟩
  | statement t => exact movable_of_statement s t i
  | expression e => exact movable_of_expression s e i

theorem movable_of_value (value : Int32) (frame : Frame) : Movable s (.deliver value) [frame] := by
  cases frame with
  | leftOperand op right line i => exact ⟨_, _, _, .begins .rightOperand⟩
  | rightOperand op left line =>
    cases applied : op.apply left value with
    | none => exact ⟨_, _, _, .fails (.operator applied)⟩
    | some result => exact ⟨_, _, _, .yields (.operator applied)⟩
  | argument function name line done todo i => exact Calls.argument.movable
  | call name line => exact ⟨_, _, _, .yields .call⟩
  | result i => exact ⟨_, _, _, .yields .result⟩
  | declaration name line i => exact Declares.valued.movable
  | assignment name line i =>
    cases holder : s.holder? i name with
    | none => exact ⟨_, _, _, .fails (.target holder)⟩
    | some j => exact ⟨_, _, _, .assign holder⟩
  | returns i => exact ⟨_, _, _, .interrupt⟩
  | branch body otherwise? i =>
    cases chosen : if value = 0 then otherwise? else some body with
    | none => exact ⟨_, _, _, .yields (.branch chosen)⟩
    | some b => exact ⟨_, _, _, .begins (.chosen chosen)⟩
  | loopTest condition body i =>
    by_cases zero : value = 0
    · subst zero
      exact ⟨_, _, _, .yields .loopTest⟩
    · exact ⟨_, _, _, .begins (.loopBody zero)⟩
  | loopBody condition body i => exact Loops.again.movable
  | sequence rest inner outer =>
    cases returned : s.isInterrupted inner with
    | true => exact ⟨_, _, _, .leave returned⟩
    | false =>
      cases rest with
      | nil => exact ⟨_, _, _, .close returned⟩
      | cons t rest => exact ⟨_, _, _, .begins (.next returned)⟩

theorem movable_of_fault (fault : Fault) (frame : Frame) : Movable s (.raise fault) [frame] := by
  cases frame with
  | sequence rest inner outer => exact ⟨_, _, _, .abandon⟩
  | call name line =>
    cases fault with
    | wrongArgumentsNumber expected found => exact ⟨_, _, _, .rename⟩
    | _ => exact ⟨_, _, _, .pass nofun⟩
  | _ => exact ⟨_, _, _, .pass trivial⟩

end Exhaustive

/-- A machine has ended, and stays as it is, or it has a move. -/
theorem step_cases (m : Machine) :
    ((∃ outcome, m.outcome? = some outcome) ∧ m.step = m) ∨
    ∃ control taken effect control' pushed stack world,
      m = ⟨control, taken ++ stack, world⟩ ∧
      m.step = ⟨control', pushed ++ stack, effect.apply world⟩ ∧
      Moves world.scopes control taken effect control' pushed := by
  have move {control : Control} {taken : List Frame} (stack : List Frame) (world : World)
      (movable : Movable world.scopes control taken) :
      ∃ control' taken' effect control'' pushed stack' world',
        (⟨control, taken ++ stack, world⟩ : Machine) = ⟨control', taken' ++ stack', world'⟩ ∧
        step ⟨control, taken ++ stack, world⟩ = ⟨control'', pushed ++ stack', effect.apply world'⟩ ∧
        Moves world'.scopes control' taken' effect control'' pushed := by
    obtain ⟨effect, control', pushed, moves⟩ := movable
    exact ⟨control, taken, effect, control', pushed, stack, world, rfl,
      step_of_moves stack world moves, moves⟩
  obtain ⟨control, stack, world⟩ := m
  cases control with
  | evaluate node i => exact .inr (move stack world (movable_of_node _ node i))
  | deliver value =>
    cases stack with
    | nil => exact .inl ⟨⟨_, rfl⟩, rfl⟩
    | cons frame stack => exact .inr (move stack world (movable_of_value _ value frame))
  | raise fault =>
    cases stack with
    | nil => exact .inl ⟨⟨_, rfl⟩, rfl⟩
    | cons frame stack => exact .inr (move stack world (movable_of_fault _ fault frame))

end Machine

end FunLanguage
