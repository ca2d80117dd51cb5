import FunLanguage.Function

/-!
# Scopes

A scope binds names of variables to values and, apart from those, names of functions to functions.
It knows its ancestors, so a name is looked up along the path that leads from a scope to the
outermost one: the nearest scope that binds the name decides. Scopes are never taken away; they are
numbered in the order in which they are created, and an operation on one is seen by all that have it
on their path.

A scope also carries the interrupt by which a return statement ends the blocks around it.
-/

namespace FunLanguage

/-- Why a name could not be bound or set. -/
inductive BindingError where
  /-- The scope itself binds the name already. -/
  | alreadyDefined
  /-- No scope on the path binds the name. -/
  | undefined
  deriving DecidableEq, Repr

/-- What one scope holds. -/
structure Scope where
  /-- The scopes around it, the nearest first. -/
  ancestors : List ScopeId := []
  values : List (String × Int32) := []
  functions : List (String × Function) := []
  /-- The value returned, once a return statement has been evaluated in it. -/
  interrupt? : Option Int32 := none
  deriving Inhabited

namespace Scope

/-- The value that the scope itself binds the variable to. -/
def valueOf? (s : Scope) (name : String) : Option Int32 :=
  s.values.lookup name

/-- The function that the scope itself binds the name to. -/
def functionOf? (s : Scope) (name : String) : Option Function :=
  s.functions.lookup name

/-- Binds one more variable. -/
def addVariable (s : Scope) (name : String) (value : Int32) : Scope :=
  { s with values := (name, value) :: s.values }

/-- Binds one more function. -/
def addFunction (s : Scope) (name : String) (function : Function) : Scope :=
  { s with functions := (name, function) :: s.functions }

/-- Gives a variable that the scope binds another value. -/
def setVariable (s : Scope) (name : String) (value : Int32) : Scope :=
  { s with values := s.values.map fun b => if b.1 = name then (b.1, value) else b }

end Scope

/-- All scopes created so far. -/
structure Scopes where
  entries : Array Scope := #[]
  deriving Inhabited

namespace Scopes

/-- The number of scopes, which is the number of the next one to be created. -/
def size (s : Scopes) : Nat :=
  s.entries.size

/-- What the scope holds. -/
def scope (s : Scopes) (i : ScopeId) : Scope :=
  s.entries.getD i {}

/-- Replaces what the scope holds. -/
def modify (s : Scopes) (i : ScopeId) (f : Scope → Scope) : Scopes :=
  ⟨s.entries.modify i f⟩

/-- The scope and those around it, from the inside to the outside. -/
def path (s : Scopes) (i : ScopeId) : List ScopeId :=
  i :: (s.scope i).ancestors

/-! ## Creation -/

/-- Creates a scope with no other around it. -/
def root (s : Scopes) : ScopeId × Scopes :=
  (s.size, ⟨s.entries.push {}⟩)

/-- Creates a scope inside another. -/
def child (s : Scopes) (parent : ScopeId) : ScopeId × Scopes :=
  let around := s.path parent
  (s.size, ⟨s.entries.push { ancestors := around }⟩)

/-! ## Look-up -/

/-- The nearest scope on the path that binds the variable. -/
def holder? (s : Scopes) (i : ScopeId) (name : String) : Option ScopeId :=
  (s.path i).find? fun j => ((s.scope j).valueOf? name).isSome

/-- The value of a variable, as seen from the scope. -/
def get? (s : Scopes) (i : ScopeId) (name : String) : Option Int32 :=
  (s.path i).findSome? fun j => (s.scope j).valueOf? name

/-- The function that a name stands for, as seen from the scope. -/
def function? (s : Scopes) (i : ScopeId) (name : String) : Option Function :=
  (s.path i).findSome? fun j => (s.scope j).functionOf? name

/-! ## Binding

An operation that can fail gives the scopes that it leaves in either case. -/

/-- Binds a variable in the scope itself, where it must not be bound yet. -/
@[inline] def define (s : Scopes) (i : ScopeId) (name : String) (value : Int32) :
    Except BindingError Unit × Scopes :=
  if ((s.scope i).valueOf? name).isSome then (.error .alreadyDefined, s)
  else (.ok (), s.modify i (·.addVariable name value))

/-- Binds a function in the scope itself, where the name must not stand for one yet. -/
@[inline] def defineFunction (s : Scopes) (i : ScopeId) (name : String) (function : Function) :
    Except BindingError Unit × Scopes :=
  if ((s.scope i).functionOf? name).isSome then (.error .alreadyDefined, s)
  else (.ok (), s.modify i (·.addFunction name function))

/-- Gives a variable another value in the nearest scope that binds it. -/
@[inline] def set (s : Scopes) (i : ScopeId) (name : String) (value : Int32) :
    Except BindingError Unit × Scopes :=
  match s.holder? i name with
  | none => (.error .undefined, s)
  | some j => (.ok (), s.modify j (·.setVariable name value))

/-- Binds each parameter to its argument in the scope. Of two parameters with one name the first
is bound. -/
def bindParameters (s : Scopes) (i : ScopeId) : List (String × Int32) → Scopes
  | [] => s
  | (name, value) :: others =>
    let rest (s : Scopes) := s.bindParameters i others
    if ((s.scope i).valueOf? name).isSome then rest s
    else rest (s.modify i (·.addVariable name value))

/-! ## Interrupts and release -/

/-- Marks the scope as returning a value. -/
def interrupt (s : Scopes) (i : ScopeId) (value : Int32) : Scopes :=
  s.modify i ({ · with interrupt? := some value })

/-- Whether the scope is returning a value. -/
def isInterrupted (s : Scopes) (i : ScopeId) : Bool :=
  (s.scope i).interrupt?.isSome

/-- The value that the scope returns, or 0 if it returns none. -/
def result (s : Scopes) (i : ScopeId) : Int32 :=
  (s.scope i).interrupt?.getD 0

/-- Forgets the functions of the scope, whose block has ended. -/
def release (s : Scopes) (i : ScopeId) : Scopes :=
  s.modify i ({ · with functions := [] })

end Scopes

end FunLanguage
