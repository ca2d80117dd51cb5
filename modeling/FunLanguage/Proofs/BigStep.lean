import FunLanguage.Machine.Basic

/-!
# A semantics without interrupts

The same language, evaluated by recursion on programs and without the interrupts that scopes carry.
A statement comes to a `Completion`: it ends normally, or it returns a value. A block stops at the
first statement that returns, a loop at the first body that does, and a call or a program takes the
value from there, or 0 if nothing was returned.

An evaluation starts from a `Chronicle`: the world and the visits made so far. It has a number to
count down from, since programs need not end; where the number is too small there is no outcome.
-/

namespace FunLanguage.BigStep

/-- What a statement comes to. -/
inductive Completion where
  | normal
  | returned (value : Int32)
  deriving DecidableEq

/-- What is left of the completion of a body behind its call. -/
def Completion.value : Completion → Int32
  | normal => 0
  | returned value => value

structure Chronicle where
  world : World
  visits : List (Node × ScopeId)

/-- An evaluation that can fail, and that can come to no end in the steps that it is given. -/
def Evaluation (α : Type) : Type :=
  Chronicle → Option (Except Fault α × Chronicle)

namespace Evaluation

instance : Monad Evaluation where
  pure a := fun c => some (.ok a, c)
  bind x f := fun c =>
    match x c with
    | none => none
    | some (.error fault, c) => some (.error fault, c)
    | some (.ok a, c) => f a c

def exhausted {α : Type} : Evaluation α := fun _ => none

def fail {α : Type} (fault : Fault) : Evaluation α := fun c => some (.error fault, c)

def visit (node : Node) (i : ScopeId) : Evaluation Unit := fun c =>
  some (.ok (), { c with visits := c.visits ++ [(node, i)] })

def scopes : Evaluation Scopes := fun c => some (.ok c.world.scopes, c)

def setScopes (scopes : Scopes) : Evaluation Unit := fun c =>
  some (.ok (), { c with world := { c.world with scopes } })

def write (text : String) : Evaluation Unit := fun c =>
  some (.ok (), { c with world := c.world.write text })

/-- Goes on with the scopes that an operation leaves, or fails with them if it cannot be done. -/
def update (fault : Fault) : Except BindingError Unit × Scopes → Evaluation Unit
  | (.ok _, scopes) => setScopes scopes
  | (.error _, scopes) => do
    setScopes scopes
    fail fault

/-- Forgets the functions of the scope at the end, whether the evaluation fails or not. -/
def releasing {α : Type} (i : ScopeId) (x : Evaluation α) : Evaluation α := fun c =>
  (x c).map fun (outcome, c) =>
    (outcome, { c with world := { c.world with scopes := c.world.scopes.release i } })

/-- Makes a mismatch of arguments a fault of the call that the application belongs to. -/
def calledBy {α : Type} (name : String) (line : Nat) (x : Evaluation α) : Evaluation α := fun c =>
  (x c).map fun
    | (.error (.wrongArgumentsNumber _ _), c) => (.error (.functionCall name line), c)
    | ended => ended

end Evaluation

open Evaluation

mutual

def expression : (fuel : Nat) → Expr → ScopeId → Evaluation Int32
  | 0, _, _ => exhausted
  | _ + 1, .literal value _, _ => pure value
  | _ + 1, e@(.identifier name line), i => do
    visit (.expression e) i
    match (← scopes).get? i name with
    | some value => pure value
    | none => fail (.unknownIdentifier name line)
  | fuel + 1, e@(.binary operator left right line), i => do
    visit (.expression e) i
    let a ← expression fuel left i
    let b ← expression fuel right i
    match operator.apply a b with
    | some value => pure value
    | none => fail (.arithmetic line)
  | fuel + 1, e@(.call name todo line), i => do
    visit (.expression e) i
    match (← scopes).function? i name with
    | some function => do
      let values ← arguments fuel todo i
      calledBy name line (apply fuel function values)
    | none => fail (.unknownIdentifier name line)

def arguments : (fuel : Nat) → List Expr → ScopeId → Evaluation (List Int32)
  | 0, _, _ => exhausted
  | _ + 1, [], _ => pure []
  | fuel + 1, e :: todo, i => do
    let value ← expression fuel e i
    let values ← arguments fuel todo i
    pure (value :: values)

/-- A function applied to arguments. -/
def apply : (fuel : Nat) → Function → List Int32 → Evaluation Int32
  | 0, _, _ => exhausted
  | _ + 1, .builtin b, values => do
    write (b.written values)
    pure 0
  | fuel + 1, .closure c, values =>
    if values.length = c.parameters.length then do
      let (frame, inside) := (← scopes).child c.scope
      setScopes (inside.bindParameters frame (c.parameters.zip values))
      let completion ← block fuel c.body frame
      pure completion.value
    else fail (.wrongArgumentsNumber c.parameters.length values.length)

def block : (fuel : Nat) → Block → ScopeId → Evaluation Completion
  | 0, _, _ => exhausted
  | fuel + 1, b, i => do
    visit (.block b) i
    let (inner, inside) := (← scopes).child i
    setScopes inside
    releasing inner (statements fuel b.statements inner)

/-- The statements of a block, up to the first that returns. -/
def statements : (fuel : Nat) → List Stmt → ScopeId → Evaluation Completion
  | 0, _, _ => exhausted
  | _ + 1, [], _ => pure .normal
  | fuel + 1, t :: rest, i => do
    match ← statement fuel t i with
    | .normal => statements fuel rest i
    | .returned value => pure (.returned value)

def statement : (fuel : Nat) → Stmt → ScopeId → Evaluation Completion
  | 0, _, _ => exhausted
  | fuel + 1, .expression e, i => do
    let _ ← expression fuel e i
    pure .normal
  | _ + 1, t@(.definition name parameters body line), i => do
    visit (.statement t) i
    update (.redefinition name line)
      ((← scopes).defineFunction i name (.closure ⟨i, parameters, body⟩))
    pure .normal
  | _ + 1, t@(.declaration name none line), i => do
    visit (.statement t) i
    update (.redefinition name line) ((← scopes).define i name 0)
    pure .normal
  | fuel + 1, t@(.declaration name (some e) line), i => do
    visit (.statement t) i
    let value ← expression fuel e i
    update (.redefinition name line) ((← scopes).define i name value)
    pure .normal
  | fuel + 1, t@(.loop condition body _), i => do
    visit (.statement t) i
    loop fuel condition body i
  | fuel + 1, t@(.branch condition body otherwise? _), i => do
    visit (.statement t) i
    let value ← expression fuel condition i
    match if value = 0 then otherwise? else some body with
    | some chosen => block fuel chosen i
    | none => pure .normal
  | fuel + 1, t@(.assignment name e line), i => do
    visit (.statement t) i
    let value ← expression fuel e i
    update (.unknownIdentifier name line) ((← scopes).set i name value)
    pure .normal
  | fuel + 1, t@(.returns e _), i => do
    visit (.statement t) i
    let value ← expression fuel e i
    pure (.returned value)

/-- A loop from the test of its condition on, up to the first body that returns. -/
def loop : (fuel : Nat) → Expr → Block → ScopeId → Evaluation Completion
  | 0, _, _, _ => exhausted
  | fuel + 1, condition, body, i => do
    let value ← expression fuel condition i
    if value = 0 then pure .normal
    else
      match ← block fuel body i with
      | .normal => loop fuel condition body i
      | .returned value => pure (.returned value)

end

/-- A program in the scope that the built-in functions are bound in. -/
def run (fuel : Nat) (program : Program) : Option (Except Fault Int32 × Chronicle) :=
  let (scope, world) := World.prelude {}
  let evaluation : Evaluation Int32 := do
    let completion ← block fuel program.block scope
    pure completion.value
  evaluation ⟨world, []⟩

end FunLanguage.BigStep
