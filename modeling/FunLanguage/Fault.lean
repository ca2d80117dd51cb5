import FunLanguage.SyntaxError

/-!
# Faults

Everything that can go wrong with a program, from its text to its evaluation, and how it is worded.
-/

namespace FunLanguage

/-- Why a program has no result. A mismatch of arguments is raised by the function applied and
turned by the call into a fault that names the function and the line of the call. -/
inductive Fault where
  | malformed (error : SyntaxError)
  | unknownIdentifier (name : String) (line : Nat)
  | redefinition (name : String) (line : Nat)
  | arithmetic (line : Nat)
  | functionCall (name : String) (line : Nat)
  | wrongArgumentsNumber (expected found : Nat)
  | stopped
  deriving DecidableEq, Repr, Inhabited

namespace Fault

/-- The fault in words. -/
def message : Fault → String
  | malformed e => "Syntax error: " ++ e.message ++ " at line " ++ toString e.line
  | unknownIdentifier name line => "Unknown identifier '" ++ name ++ "' at line " ++ toString line
  | redefinition name line =>
    "Redefinition of '" ++ name ++ "' in the current scope at line " ++ toString line
  | arithmetic line => "Forbidden arithmetic operation at line " ++ toString line
  | functionCall name line =>
    "Wrong number of arguments in call to '" ++ name ++ "' at line " ++ toString line
  | wrongArgumentsNumber expected found =>
    "Wrong number of arguments: expected " ++ toString expected ++ ", found " ++ toString found
  | stopped => "Evaluation was stopped"

/-- The line of the source that the fault points at, if it has one. -/
def line? : Fault → Option Nat
  | malformed e => some e.line
  | unknownIdentifier _ line => some line
  | redefinition _ line => some line
  | arithmetic line => some line
  | functionCall _ line => some line
  | wrongArgumentsNumber _ _ => none
  | stopped => none

end Fault

end FunLanguage
