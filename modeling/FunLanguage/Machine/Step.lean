import FunLanguage.Machine.Basic

/-!
# The steps of the machine

`Machine.step` does the next step of an evaluation. Operands and arguments are evaluated from left
to right. A function is looked up before the arguments of its call are evaluated and applied after
them. A return statement interrupts the scope it stands in; a block whose scope is interrupted ends
and interrupts the scope around it, until the interrupt reaches the scope of a call or of the
program, which takes the value from there.
-/

namespace FunLanguage.Machine

/-! ## Calls -/

/-- Applies a function to arguments. -/
def apply (function : Function) (arguments : List Int32) (stack : List Frame) (world : World) :
    Machine :=
  match function with
  | .builtin b => ⟨.deliver 0, stack, world.write (b.written arguments)⟩
  | .closure c =>
    if arguments.length = c.parameters.length then
      let (frame, scopes) := world.scopes.child c.scope
      ⟨.evaluate (.block c.body) frame, .result frame :: stack,
        { world with scopes := scopes.bindParameters frame (c.parameters.zip arguments) }⟩
    else ⟨.raise (.wrongArgumentsNumber c.parameters.length arguments.length), stack, world⟩

/-- Goes on with a call whose first arguments have the values `done`, the last of them first. -/
def proceedCall (function : Function) (name : String) (line : Nat) (done : List Int32)
    (todo : List Expr) (scope : ScopeId) (stack : List Frame) (world : World) : Machine :=
  match todo with
  | [] => apply function done.reverse (.call name line :: stack) world
  | e :: todo =>
    ⟨.evaluate (.expression e) scope, .argument function name line done todo scope :: stack, world⟩

/-! ## Expressions -/

/-- Enters an expression. -/
def enterExpression (e : Expr) (scope : ScopeId) (stack : List Frame) (world : World) : Machine :=
  match e with
  | .literal value _ => ⟨.deliver value, stack, world⟩
  | .identifier name line =>
    match world.scopes.get? scope name with
    | some value => ⟨.deliver value, stack, world⟩
    | none => ⟨.raise (.unknownIdentifier name line), stack, world⟩
  | .binary operator left right line =>
    ⟨.evaluate (.expression left) scope, .leftOperand operator right line scope :: stack, world⟩
  | .call name arguments line =>
    match world.scopes.function? scope name with
    | some function => proceedCall function name line [] arguments scope stack world
    | none => ⟨.raise (.unknownIdentifier name line), stack, world⟩

/-! ## Statements -/

/-- Goes on with a loop: evaluates its condition, unless the scope is returning a value. -/
def proceedLoop (condition : Expr) (body : Block) (scope : ScopeId) (stack : List Frame)
    (world : World) : Machine :=
  if world.scopes.isInterrupted scope then ⟨.deliver 0, stack, world⟩
  else ⟨.evaluate (.expression condition) scope, .loopTest condition body scope :: stack, world⟩

/-- Goes on with the statements of a block, and forgets its functions after the last. -/
def proceedBlock (rest : List Stmt) (inner outer : ScopeId) (stack : List Frame) (world : World) :
    Machine :=
  match rest with
  | [] => ⟨.deliver 0, stack, { world with scopes := world.scopes.release inner }⟩
  | s :: rest => ⟨.evaluate (.statement s) inner, .sequence rest inner outer :: stack, world⟩

/-- Binds a variable of the scope and ends the statement. -/
def declare (name : String) (value : Int32) (line : Nat) (scope : ScopeId) (stack : List Frame)
    (world : World) : Machine :=
  match world.scopes.define scope name value with
  | (.ok _, scopes) => ⟨.deliver 0, stack, { world with scopes }⟩
  | (.error _, scopes) => ⟨.raise (.redefinition name line), stack, { world with scopes }⟩

/-- Enters a statement. -/
def enterStatement (s : Stmt) (scope : ScopeId) (stack : List Frame) (world : World) : Machine :=
  match s with
  | .expression e => ⟨.evaluate (.expression e) scope, stack, world⟩
  | .definition name parameters body line =>
    match world.scopes.defineFunction scope name (.closure ⟨scope, parameters, body⟩) with
    | (.ok _, scopes) => ⟨.deliver 0, stack, { world with scopes }⟩
    | (.error _, scopes) => ⟨.raise (.redefinition name line), stack, { world with scopes }⟩
  | .declaration name none line => declare name 0 line scope stack world
  | .declaration name (some value) line =>
    ⟨.evaluate (.expression value) scope, .declaration name line scope :: stack, world⟩
  | .loop condition body _ => proceedLoop condition body scope stack world
  | .branch condition body otherwise? _ =>
    ⟨.evaluate (.expression condition) scope, .branch body otherwise? scope :: stack, world⟩
  | .assignment name value line =>
    ⟨.evaluate (.expression value) scope, .assignment name line scope :: stack, world⟩
  | .returns value _ => ⟨.evaluate (.expression value) scope, .returns scope :: stack, world⟩

/-- Enters a node. -/
def enter (node : Node) (scope : ScopeId) (stack : List Frame) (world : World) : Machine :=
  match node with
  | .program p => ⟨.evaluate (.block p.block) scope, .result scope :: stack, world⟩
  | .block b =>
    let (inner, scopes) := world.scopes.child scope
    proceedBlock b.statements inner scope stack { world with scopes }
  | .statement s => enterStatement s scope stack world
  | .expression e => enterExpression e scope stack world

/-! ## Frames -/

/-- Hands a value to a frame. -/
def receive (frame : Frame) (value : Int32) (stack : List Frame) (world : World) : Machine :=
  match frame with
  | .leftOperand operator right line scope =>
    ⟨.evaluate (.expression right) scope, .rightOperand operator value line :: stack, world⟩
  | .rightOperand operator left line =>
    match operator.apply left value with
    | some value => ⟨.deliver value, stack, world⟩
    | none => ⟨.raise (.arithmetic line), stack, world⟩
  | .argument function name line done todo scope =>
    proceedCall function name line (value :: done) todo scope stack world
  | .call _ _ => ⟨.deliver value, stack, world⟩
  | .result scope => ⟨.deliver (world.scopes.result scope), stack, world⟩
  | .declaration name line scope => declare name value line scope stack world
  | .assignment name line scope =>
    match world.scopes.set scope name value with
    | (.ok _, scopes) => ⟨.deliver 0, stack, { world with scopes }⟩
    | (.error _, scopes) => ⟨.raise (.unknownIdentifier name line), stack, { world with scopes }⟩
  | .returns scope =>
    ⟨.deliver 0, stack, { world with scopes := world.scopes.interrupt scope value }⟩
  | .branch body otherwise? scope =>
    match if value = 0 then otherwise? else some body with
    | some block => ⟨.evaluate (.block block) scope, stack, world⟩
    | none => ⟨.deliver 0, stack, world⟩
  | .loopTest condition body scope =>
    if value = 0 then ⟨.deliver 0, stack, world⟩
    else ⟨.evaluate (.block body) scope, .loopBody condition body scope :: stack, world⟩
  | .loopBody condition body scope => proceedLoop condition body scope stack world
  | .sequence rest inner outer =>
    if world.scopes.isInterrupted inner then
      let value := world.scopes.result inner
      proceedBlock [] inner outer stack
        { world with scopes := world.scopes.interrupt outer value }
    else proceedBlock rest inner outer stack world

/-- Gives up a frame because of a fault. A call turns a mismatch of arguments into a fault of its
own, and a block forgets its functions. -/
def unwind (frame : Frame) (fault : Fault) (stack : List Frame) (world : World) : Machine :=
  match frame, fault with
  | .call name line, .wrongArgumentsNumber _ _ => ⟨.raise (.functionCall name line), stack, world⟩
  | .sequence _ inner _, fault =>
    ⟨.raise fault, stack, { world with scopes := world.scopes.release inner }⟩
  | _, fault => ⟨.raise fault, stack, world⟩

/-! ## Steps -/

/-- Does the next step. An evaluation that has ended stays as it is. -/
def step : Machine → Machine
  | ⟨.evaluate node scope, stack, world⟩ => enter node scope stack world
  | ⟨.deliver value, frame :: stack, world⟩ => receive frame value stack world
  | ⟨.raise fault, frame :: stack, world⟩ => unwind frame fault stack world
  | m => m

/-- Steps until the evaluation has ended, but no more than `budget` times; gives how it ended, and
the world it left. -/
def run : (budget : Nat) → Machine → Option (Except Fault Int32 × World)
  | 0, _ => none
  | budget + 1, m =>
    match m.outcome? with
    | some outcome => some (outcome, m.world)
    | none => run budget m.step

/-- Hands over the text written so far, and does the next step if the evaluation has not ended. -/
def emit (m : Machine) : String × (Except Fault Int32 ⊕ Machine) :=
  let (written, world) := m.world.takeOutput
  let m : Machine := { m with world }
  match m.outcome? with
  | some outcome => (written, .inl outcome)
  | none => (written, .inr m.step)

end FunLanguage.Machine
