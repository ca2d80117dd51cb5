/-!
# Numerals

How numbers are read from text: a run of ASCII digits, with a sign where the reader allows one, and
only if the value lies within the reader's limits. A signed word admits one `+` or `-`, a line
number one `+`.
-/

namespace FunLanguage.Text

/-- The value of a digit. -/
def digitValue (c : Char) : Nat :=
  c.toNat - '0'.toNat

/-- The number that a non-empty run of ASCII digits denotes in base ten. -/
def natural? (cs : List Char) : Option Nat :=
  if cs.isEmpty || !cs.all Char.isDigit then none
  else some (cs.foldl (fun n c => 10 * n + digitValue c) 0)

/-- The natural number that a numeral denotes if it is at most `limit`. -/
def naturalUpTo? (limit : Nat) (cs : List Char) : Option Nat :=
  (natural? cs).filter (· ≤ limit)

/-- The greatest signed 32-bit value. -/
def int32Limit : Nat := 2147483647

/-- The greatest line number, which is the greatest unsigned 64-bit value. -/
def lineNumberLimit : Nat := 18446744073709551615

/-- The 32-bit value of a numeral with at most one sign. -/
def int32? : List Char → Option Int32
  | '-' :: digits => (naturalUpTo? (int32Limit + 1) digits).map fun n => Int32.ofInt (-(n : Int))
  | '+' :: digits => (naturalUpTo? int32Limit digits).map fun n => Int32.ofInt n
  | digits => (naturalUpTo? int32Limit digits).map fun n => Int32.ofInt n

/-- The line number that a numeral with at most one plus sign denotes. -/
def lineNumber? : List Char → Option Nat
  | '+' :: digits => naturalUpTo? lineNumberLimit digits
  | digits => naturalUpTo? lineNumberLimit digits

/-- A 32-bit value in decimal, with a minus sign where it is negative. -/
def ofInt32 (value : Int32) : String :=
  toString value.toInt

end FunLanguage.Text
