import FunLanguage.Token.Basic

/-!
# Binary operators

Operators act on signed 32-bit values. Arithmetic wraps around, division truncates toward zero and
the remainder takes the sign of the dividend. Comparisons and the logical operators give 0 or 1; a
value counts as true if it is not 0.
-/

namespace FunLanguage

/-- The binary operators. -/
inductive BinaryOp where
  | or
  | and
  | equal
  | notEqual
  | less
  | greater
  | lessEqual
  | greaterEqual
  | add
  | subtract
  | multiply
  | divide
  | remainder
  deriving DecidableEq, Repr, Inhabited

namespace BinaryOp

/-- How the operator is written. -/
def symbol : BinaryOp → String
  | or => "||"
  | and => "&&"
  | equal => "=="
  | notEqual => "!="
  | less => "<"
  | greater => ">"
  | lessEqual => "<="
  | greaterEqual => ">="
  | add => "+"
  | subtract => "-"
  | multiply => "*"
  | divide => "/"
  | remainder => "%"

/-- The kind of the operator's token. -/
def tokenKind : BinaryOp → TokenKind
  | or => .orOr
  | and => .andAnd
  | equal => .equalEqual
  | notEqual => .bangEqual
  | less => .less
  | greater => .greater
  | lessEqual => .lessEqual
  | greaterEqual => .greaterEqual
  | add => .plus
  | subtract => .minus
  | multiply => .star
  | divide => .slash
  | remainder => .percent

/-- The levels of precedence, the one that binds loosest first. The operators of a level associate
to the left. -/
def levels : List (List BinaryOp) :=
  [[or], [and], [equal, notEqual], [less, greater, lessEqual, greaterEqual], [add, subtract],
    [multiply, divide, remainder]]

/-- All operators. -/
def all : List BinaryOp :=
  levels.flatten

/-- Every operator belongs to a level. -/
theorem mem_all (op : BinaryOp) : op ∈ all := by
  cases op <;> decide

/-- The value of a truth. -/
def truth (p : Bool) : Int32 :=
  if p then 1 else 0

/-- The value of the operator on two operands; there is none where the divisor is 0. -/
def apply (op : BinaryOp) (left right : Int32) : Option Int32 :=
  match op with
  | or => some (truth (left != 0 || right != 0))
  | and => some (truth (left != 0 && right != 0))
  | equal => some (truth (left == right))
  | notEqual => some (truth (left != right))
  | less => some (truth (left < right))
  | greater => some (truth (left > right))
  | lessEqual => some (truth (left ≤ right))
  | greaterEqual => some (truth (left ≥ right))
  | add => some (left + right)
  | subtract => some (left - right)
  | multiply => some (left * right)
  | divide => if right = 0 then none else some (left / right)
  | remainder => if right = 0 then none else some (left % right)

end BinaryOp

end FunLanguage
