import FunLanguage.Tree.Operator
import Mathlib.Data.Int.ModEq

/-!
# Operators on integers

What the operators give is told on the integers, without words of 32 bits. A sum, a difference and a
product are congruent to the exact ones. A quotient and a remainder are those of a division that
truncates toward zero (`BinaryOp.Division`), and they fit in 32 bits but for one quotient. All other
operators tell whether a relation holds (`BinaryOp.Tells`). There is no value exactly where the
divisor is 0 (`BinaryOp.operators_are_exact`).
-/

namespace FunLanguage.BinaryOp

/-! ## Operators without words -/

/-- The value tells whether the proposition holds. -/
def Tells (p : Prop) (value : Int) : Prop :=
  p ∧ value = 1 ∨ ¬ p ∧ value = 0

/-- The quotient and the rest of a division. The rest is smaller than the divisor and has the sign
of the dividend. Only of the least number by -1 there is no quotient in 32 bits, and there it wraps
around. -/
structure Division (left right quotient rest : Int) : Prop where
  congruent : left ≡ quotient * right + rest [ZMOD 2 ^ 32]
  small : |rest| < |right|
  sign : rest = 0 ∨ rest.sign = left.sign
  exact_iff : left = quotient * right + rest ↔ ¬ (left = -2 ^ 31 ∧ right = -1)
  wraps : left = -2 ^ 31 → right = -1 → quotient = -2 ^ 31 ∧ rest = 0

/-- What the operator makes of two integers. -/
def Exact (left right value : Int) : BinaryOp → Prop
  | or => Tells (left ≠ 0 ∨ right ≠ 0) value
  | and => Tells (left ≠ 0 ∧ right ≠ 0) value
  | equal => Tells (left = right) value
  | notEqual => Tells (left ≠ right) value
  | less => Tells (left < right) value
  | greater => Tells (left > right) value
  | lessEqual => Tells (left ≤ right) value
  | greaterEqual => Tells (left ≥ right) value
  | add => value ≡ left + right [ZMOD 2 ^ 32]
  | subtract => value ≡ left - right [ZMOD 2 ^ 32]
  | multiply => value ≡ left * right [ZMOD 2 ^ 32]
  | divide => ∃ rest, Division left right value rest
  | remainder => ∃ quotient, Division left right quotient value

/-! ## Words -/

theorem bmod_modEq (n : Int) : n.bmod (2 ^ 32) ≡ n [ZMOD 2 ^ 32] :=
  Int.bmod_emod

theorem tells_truth {b : Bool} {p : Prop} (same : b = true ↔ p) : Tells p (truth b).toInt := by
  cases b with
  | true => exact .inl ⟨same.mp rfl, rfl⟩
  | false => exact .inr ⟨fun holds => Bool.false_ne_true (same.mpr holds), rfl⟩

theorem toInt_ne_zero_iff {n : Int32} : n.toInt ≠ 0 ↔ n ≠ 0 := by
  rw [ne_eq, ← Int32.toInt_zero, Int32.toInt_inj]

/-- The quotient fits in a word but for one. -/
theorem toInt_divide {left right : Int32} (fits : ¬ (left = Int32.minValue ∧ right = -1)) :
    (left / right).toInt = left.toInt.tdiv right.toInt := by
  by_cases least : left = Int32.minValue
  · exact Int32.toInt_div_of_ne_right _ _ fun negative => fits ⟨least, negative⟩
  · exact Int32.toInt_div_of_ne_left _ _ least

/-- A division of words is one of integers, also where the quotient wraps around. -/
theorem division_toInt {left right : Int32} (nonzero : right ≠ 0) :
    Division left.toInt right.toInt (left / right).toInt (left % right).toInt := by
  by_cases wraps : left = Int32.minValue ∧ right = -1
  · obtain ⟨rfl, rfl⟩ := wraps
    have quotient : (Int32.minValue / -1).toInt = -2 ^ 31 := by decide
    have rest : (Int32.minValue % -1).toInt = 0 := by decide
    have least : Int32.minValue.toInt = -2 ^ 31 := by decide
    have negative : (-1 : Int32).toInt = -1 := by decide
    rw [quotient, rest, least, negative]
    exact ⟨by decide, by decide, .inl rfl, by decide, fun _ _ => ⟨rfl, rfl⟩⟩
  · have fits : ¬ (left.toInt = -2 ^ 31 ∧ right.toInt = -1) := fun ⟨least, negative⟩ =>
      wraps ⟨Int32.toInt_inj.mp least, Int32.toInt_inj.mp negative⟩
    rw [toInt_divide wraps, Int32.toInt_mod]
    have whole : left.toInt = left.toInt.tdiv right.toInt * right.toInt +
        left.toInt.tmod right.toInt := (Int.tdiv_mul_add_tmod _ _).symm
    refine ⟨congrArg (· % 2 ^ 32) whole, ?_, ?_, iff_of_true whole fits, ?_⟩
    · rw [← Int.natCast_natAbs, ← Int.natCast_natAbs, Int.natAbs_tmod, Int.ofNat_lt]
      exact Nat.mod_lt _ (Int.natAbs_pos.mpr (toInt_ne_zero_iff.mpr nonzero))
    · have sign := Int.sign_tmod left.toInt right.toInt
      split at sign
      · exact .inl (Int.sign_eq_zero_iff_zero.mp sign)
      · exact .inr sign
    · exact fun least negative => absurd ⟨least, negative⟩ fits

theorem apply_eq_none_iff {op : BinaryOp} {left right : Int32} :
    op.apply left right = none ↔ (op = divide ∨ op = remainder) ∧ right = 0 := by
  cases op <;> simp [apply]

/-- The value on two words is what the operator makes of the integers. -/
theorem exact_of_apply {op : BinaryOp} {left right value : Int32}
    (applied : op.apply left right = some value) :
    op.Exact left.toInt right.toInt value.toInt := by
  have equal_iff : left.toInt = right.toInt ↔ left = right := Int32.toInt_inj
  cases op with
  | or | and =>
    cases applied
    exact tells_truth (by simp [toInt_ne_zero_iff])
  | equal | notEqual =>
    cases applied
    exact tells_truth (by simp [equal_iff])
  | less | greater =>
    cases applied
    exact tells_truth (by simp [Int32.lt_iff_toInt_lt])
  | lessEqual | greaterEqual =>
    cases applied
    exact tells_truth (by simp [Int32.le_iff_toInt_le])
  | add =>
    cases applied
    rw [Exact, Int32.toInt_add]
    exact bmod_modEq _
  | subtract =>
    cases applied
    rw [Exact, Int32.toInt_sub]
    exact bmod_modEq _
  | multiply =>
    cases applied
    rw [Exact, Int32.toInt_mul]
    exact bmod_modEq _
  | divide | remainder =>
    rw [apply, Option.ite_none_left_eq_some] at applied
    obtain ⟨nonzero, ⟨⟩⟩ := applied
    exact ⟨_, division_toInt nonzero⟩

/-- The operators are exact. An operator has no value on two words only if it divides by 0. The
values are words and are what the operator makes of the integers, and the values of a quotient and
of a remainder belong to one division. -/
theorem operators_are_exact (left right : Int32) :
    (∀ op : BinaryOp, op.apply left right = none ↔ (op = divide ∨ op = remainder) ∧ right = 0) ∧
    (∀ (op : BinaryOp) value, op.apply left right = some value →
      (-2 ^ 31 ≤ value.toInt ∧ value.toInt < 2 ^ 31) ∧
        op.Exact left.toInt right.toInt value.toInt) ∧
    (right ≠ 0 → ∃ quotient rest, divide.apply left right = some quotient ∧
      remainder.apply left right = some rest ∧
      Division left.toInt right.toInt quotient.toInt rest.toInt) := by
  refine ⟨fun op => apply_eq_none_iff, fun op value applied => ?_, fun nonzero => ?_⟩
  · exact ⟨⟨value.le_toInt, value.toInt_lt⟩, exact_of_apply applied⟩
  · exact ⟨left / right, left % right, if_neg nonzero, if_neg nonzero, division_toInt nonzero⟩

/-- The one quotient that wraps around. -/
theorem operators_are_exact_of_least :
    (-1 : Int32) ≠ 0 ∧ divide.apply Int32.minValue (-1) = some Int32.minValue ∧
      divide.Exact Int32.minValue.toInt (-1) Int32.minValue.toInt ∧
      ∃ quotient rest, divide.apply Int32.minValue (-1) = some quotient ∧
        remainder.apply Int32.minValue (-1) = some rest ∧
        Division Int32.minValue.toInt (-1) quotient.toInt rest.toInt := by
  have nonzero : (-1 : Int32) ≠ 0 := by decide
  have applied : divide.apply Int32.minValue (-1) = some Int32.minValue := by decide
  obtain ⟨-, exact, divided⟩ := operators_are_exact Int32.minValue (-1)
  exact ⟨nonzero, applied, (exact divide _ applied).2, divided nonzero⟩

end FunLanguage.BinaryOp
