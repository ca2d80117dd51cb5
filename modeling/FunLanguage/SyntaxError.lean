import FunLanguage.Token.Basic

/-!
# Syntax errors

A `Complaint` says what is wrong with a source text; all wording is in `Complaint.message` and
`Complaint.help?`. A `SyntaxError` is a complaint put into words and placed in the source.
-/

namespace FunLanguage

/-- A message about a place of the source, with advice where there is some. -/
structure SyntaxError where
  message : String
  line : Nat
  span : Span
  help? : Option String
  deriving DecidableEq, Repr, Inhabited

/-- The statements with a condition in parentheses. -/
inductive Conditional where
  | whileLoop
  | ifBranch
  deriving DecidableEq, Repr

/-- The word that starts the statement. -/
def Conditional.keyword : Conditional → String
  | whileLoop => "while"
  | ifBranch => "if"

/-- What a body in braces follows. -/
inductive BodyOwner where
  | parameters
  | condition (of : Conditional)
  | otherwise
  deriving DecidableEq, Repr

/-- How messages call what the body follows. -/
def BodyOwner.description : BodyOwner → String
  | parameters => "function parameters"
  | condition c => c.keyword ++ " condition"
  | otherwise => "'else'"

/-- What can be wrong with a source text. -/
inductive Complaint where
  /-- No lexeme starts with the character. -/
  | unexpectedCharacter (c : Char)
  /-- The digits denote no signed 32-bit value. -/
  | integerOutOfRange (digits : String)
  /-- The lexeme of an integer token is no 32-bit numeral. -/
  | unreadableInteger
  /-- The statements ended, but not with the text. -/
  | statementExpected (found : String)
  | missingLeftBrace (after : BodyOwner)
  | missingRightBrace
  | missingFunctionName
  | missingParameterList
  | missingParameterName
  | unclosedParameterList
  | missingVariableName
  | missingCondition (of : Conditional)
  | unclosedCondition (of : Conditional)
  | missingAssignedValue (target : String)
  | missingRightOperand (operator : String)
  /-- The text ended where an expression was to start. -/
  | missingExpression
  | emptyParentheses
  | unclosedParenthesis
  /-- The token found starts no expression. -/
  | expressionExpected (kind : TokenKind) (found : String)
  /-- The text ended where an argument was to start. -/
  | missingArgument
  | unclosedCall
  /-- The text is not one expression alone. -/
  | notOneExpression
  deriving DecidableEq, Repr

namespace Complaint

/-- The complaint in words. -/
def message : Complaint → String
  | unexpectedCharacter c => "Unexpected character: '" ++ c.toString ++ "'"
  | integerOutOfRange digits => "Invalid integer: " ++ digits
  | unreadableInteger => "Invalid integer"
  | statementExpected found => "Expected statement, found '" ++ found ++ "'"
  | missingLeftBrace after => "Expected '\x7b' after " ++ after.description
  | missingRightBrace => "Expected '\x7d' after block"
  | missingFunctionName => "Expected function name after 'fun'"
  | missingParameterList => "Expected '(' after function name"
  | missingParameterName => "Expected parameter name"
  | unclosedParameterList => "Expected ')' after parameters"
  | missingVariableName => "Expected variable name after 'var'"
  | missingCondition c => "Expected '(' after '" ++ c.keyword ++ "'"
  | unclosedCondition c => "Expected ')' after " ++ c.keyword ++ " condition"
  | missingAssignedValue target => "Expected expression after '" ++ target ++ " ='"
  | missingRightOperand operator => "Expected expression after '" ++ operator ++ "'"
  | missingExpression => "Unexpected end of input"
  | emptyParentheses => "Empty parentheses are not allowed"
  | unclosedParenthesis => "Expected ')' after expression"
  | expressionExpected _ found => "Expected expression, found '" ++ found ++ "'"
  | missingArgument => "Unexpected end of input in function call"
  | unclosedCall => "Expected ')' after arguments"
  | notOneExpression => "Expected a single expression"

/-- The advice on a closing brace that nothing opened. -/
private def unbalancedBraces : String :=
  "Found '\x7d' without matching '\x7b'. Check for unbalanced braces."

/-- The advice on a call that is not closed. -/
private def callForm : String :=
  "Function calls must be closed with ')' after the arguments. Example: f(a, b)"

/-- The advice that goes with the complaint, if there is any. -/
def help? : Complaint → Option String
  | unexpectedCharacter '!' => some "'!' is only valid as part of '!='."
  | unexpectedCharacter '&' => some "Logical and is written '&&'."
  | unexpectedCharacter '|' => some "Logical or is written '||'."
  | unexpectedCharacter _ => none
  | integerOutOfRange _ => some "Integer literals must fit in a signed 32-bit value."
  | unreadableInteger => none
  | statementExpected _ => some unbalancedBraces
  | missingLeftBrace _ => some "Bodies are always wrapped in braces: \x7b ... \x7d"
  | missingRightBrace =>
    some "Block statements must be closed with '\x7d' after the opening '\x7b'."
  | missingFunctionName => none
  | missingParameterList => some "Function definitions look like: fun name(a, b) \x7b ... \x7d"
  | missingParameterName => none
  | unclosedParameterList => none
  | missingVariableName => none
  | missingCondition c =>
    some ("Conditions must be enclosed in parentheses: " ++ c.keyword
      ++ " (condition) \x7b ... \x7d")
  | unclosedCondition _ => none
  | missingAssignedValue _ => some "Assignments look like: name = expression"
  | missingRightOperand _ => some "Binary operators require expressions on both sides."
  | missingExpression =>
    some ("Expected an expression here. "
      ++ "Check for unmatched parentheses or incomplete statements.")
  | emptyParentheses => some "Parentheses must contain an expression: (x + 1)"
  | unclosedParenthesis =>
    some "Every opening parenthesis '(' must have a matching closing parenthesis ')'."
  | expressionExpected .rightParen _ =>
    some "Found ')' without matching '('. Check for unbalanced parentheses."
  | expressionExpected .rightBrace _ => some unbalancedBraces
  | expressionExpected _ _ =>
    some "Expected an integer, a variable, a call or a parenthesized expression here."
  | missingArgument => some callForm
  | unclosedCall => some callForm
  | notOneExpression =>
    some "Only expressions such as 't > 3' or 'f(x) + 1' are accepted here."

/-- The complaint as an error about a place of the source. -/
def toError (complaint : Complaint) (line : Nat) (span : Span) : SyntaxError :=
  ⟨complaint.message, line, span, complaint.help?⟩

end Complaint

end FunLanguage
