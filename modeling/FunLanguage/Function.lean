import FunLanguage.Text.Numeral
import FunLanguage.Tree.Basic

/-!
# Functions

A function is built in or made by a definition. The latter is a closure: it keeps the scope it was
defined in, and its body sees that scope and not the scope of the call.
-/

namespace FunLanguage

/-- A scope, known by its place in the order in which scopes are created. -/
abbrev ScopeId := Nat

/-- The functions that are there from the start. -/
inductive Builtin where
  | print
  | println
  deriving DecidableEq, Repr

namespace Builtin

/-- The name that the function is bound to at the start. -/
def name : Builtin → String
  | print => "print"
  | println => "println"

/-- What the function puts between its arguments. -/
def separator : Builtin → String
  | print => " "
  | println => "\n"

/-- The text that the function writes when it is applied to the arguments. -/
def written (builtin : Builtin) (arguments : List Int32) : String :=
  String.intercalate builtin.separator (arguments.map Text.ofInt32) ++ "\n"

end Builtin

/-- A function made by a definition, with the scope that the definition stood in. -/
structure Closure where
  scope : ScopeId
  parameters : List String
  body : Block

/-- What a call can call. -/
inductive Function where
  | builtin (builtin : Builtin)
  | closure (closure : Closure)

/-- A short text that shows what the function is. -/
def Function.description : Function → String
  | builtin b => "<builtin " ++ b.name ++ ">"
  | closure c => "<fun (" ++ String.intercalate ", " c.parameters ++ ")>"

end FunLanguage
