import FunLanguage.Machine.Step

/-!
# Inspected evaluations

An inspector is told of every node before it is evaluated. It may take notes, and it may put an end
to the evaluation with a fault, which is then raised in place of the node.
-/

namespace FunLanguage

/-- An observer with notes of type `σ`. From its notes, the node to be visited, the scope and the
world it makes new notes, the world to go on with, and the fault to raise if there is one. -/
structure Inspector (σ : Type) where
  visit : σ → Node → ScopeId → World → Option Fault × σ × World

namespace Inspector

variable {σ : Type}

/-- Does the next step of a machine, after the inspector has been told of the node if it is
a visit. -/
def step (inspector : Inspector σ) (notes : σ) : Machine → σ × Machine
  | ⟨.evaluate node scope, stack, world⟩ =>
    if node.isVisited then
      match inspector.visit notes node scope world with
      | (some fault, notes, world) => (notes, ⟨.raise fault, stack, world⟩)
      | (none, notes, world) => (notes, Machine.step ⟨.evaluate node scope, stack, world⟩)
    else (notes, Machine.step ⟨.evaluate node scope, stack, world⟩)
  | m => (notes, m.step)

/-- Steps under inspection until the evaluation has ended, but no more than `budget` times. -/
def run (inspector : Inspector σ) :
    (budget : Nat) → σ → Machine → Option (Except Fault Int32 × σ × World)
  | 0, _, _ => none
  | budget + 1, notes, m =>
    match m.outcome? with
    | some outcome => some (outcome, notes, m.world)
    | none =>
      let (notes, m) := inspector.step notes m
      inspector.run budget notes m

end Inspector

end FunLanguage
