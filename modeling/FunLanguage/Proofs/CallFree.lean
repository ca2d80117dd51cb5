import FunLanguage.Proofs.Run

/-!
# Expressions without calls

An expression in which nothing is called has a value, or a fault, that depends on the scopes alone
(`Expr.valueIn`). The machine comes to it in front of any stack and leaves the world as it is
(`Machine.reaches_of_callFree`).
-/

namespace FunLanguage

namespace Expr

/-- Nothing is called in the expression. -/
def CallFree : Expr → Prop
  | literal .. => True
  | identifier .. => True
  | binary _ left right _ => left.CallFree ∧ right.CallFree
  | call .. => False

/-- The value of an expression without calls, in a scope. -/
def valueIn (s : Scopes) (i : ScopeId) : Expr → Except Fault Int32
  | literal value _ => .ok value
  | identifier name line =>
    match s.get? i name with
    | some value => .ok value
    | none => .error (.unknownIdentifier name line)
  | binary operator left right line => do
    let a ← left.valueIn s i
    let b ← right.valueIn s i
    match operator.apply a b with
    | some value => .ok value
    | none => .error (.arithmetic line)
  | call name _ line => .error (.functionCall name line)

/-- What goes wrong in an expression without calls is no mismatch of arguments. -/
theorem valueIn_ne_wrongArgumentsNumber {s : Scopes} {i : ScopeId} (expected found : Nat) :
    (e : Expr) → e.valueIn s i ≠ .error (.wrongArgumentsNumber expected found)
  | literal value line => nofun
  | identifier name line => by
    rw [valueIn]
    split <;> nofun
  | binary operator left right line => by
    rw [valueIn]
    cases known : left.valueIn s i with
    | error fault =>
      intro h
      exact valueIn_ne_wrongArgumentsNumber expected found left (known.trans h)
    | ok a =>
      cases known' : right.valueIn s i with
      | error fault =>
        intro h
        exact valueIn_ne_wrongArgumentsNumber expected found right (known'.trans h)
      | ok b =>
        show (match operator.apply a b with
          | some value => Except.ok value
          | none => .error (Fault.arithmetic line)) ≠ _
        split <;> nofun
  | call name arguments line => nofun

end Expr

namespace Machine

/-- A machine that has come to a value or to a fault. -/
def halted (stack : List Frame) (world : World) : Except Fault Int32 → Machine
  | .ok value => ⟨.deliver value, stack, world⟩
  | .error fault => ⟨.raise fault, stack, world⟩

theorem reaches_of_callFree (i : ScopeId) (world : World) : (e : Expr) → e.CallFree → ∀ stack,
    Reaches ⟨.evaluate (.expression e) i, stack, world⟩
      (halted stack world (e.valueIn world.scopes i))
  | .literal value line, _, stack => .head rfl (.refl _)
  | .identifier name line, _, stack => by
    refine .head rfl ?_
    rw [Machine.step, enter, enterExpression, Expr.valueIn]
    cases world.scopes.get? i name <;> exact .refl _
  | .binary operator left right line, free, stack => by
    have first :
        Reaches ⟨.evaluate (.expression (.binary operator left right line)) i, stack, world⟩
          (halted (.leftOperand operator right line i :: stack) world
            (left.valueIn world.scopes i)) :=
      .head rfl (reaches_of_callFree i world left free.1 _)
    rw [Expr.valueIn]
    cases known : left.valueIn world.scopes i with
    | error fault =>
      rw [known] at first
      exact first.tail rfl
    | ok a =>
      rw [known] at first
      have second : Reaches ⟨.evaluate (.expression (.binary operator left right line)) i, stack,
          world⟩ (halted (.rightOperand operator a line :: stack) world
            (right.valueIn world.scopes i)) :=
        first.trans (.head rfl (reaches_of_callFree i world right free.2 _))
      cases known' : right.valueIn world.scopes i with
      | error fault =>
        rw [known'] at second
        exact second.tail rfl
      | ok b =>
        rw [known'] at second
        refine second.tail ?_
        show receive (.rightOperand operator a line) b stack world = halted stack world
          (match operator.apply a b with
          | some value => Except.ok value
          | none => .error (Fault.arithmetic line))
        rw [receive]
        cases operator.apply a b <;> rfl

theorem ends_of_callFree {e : Expr} (free : e.CallFree) (i : ScopeId) (world : World) :
    (start (.expression e) i world).Ends (e.valueIn world.scopes i) world := by
  obtain ⟨n, there⟩ := reaches_of_callFree i world e free []
  refine ends_iff.mpr ⟨n, ?_, ?_⟩
  · rw [start, there]
    cases e.valueIn world.scopes i <;> rfl
  · rw [start, there]
    cases e.valueIn world.scopes i <;> rfl

end Machine

end FunLanguage
