import FunLanguage.Text.Numeral
import Mathlib.Algebra.Group.Nat.Defs
import Mathlib.Data.List.Induction

/-!
# The numerals of a number

A run of digits denotes a number exactly if it is the decimal of the number with zeros in front
(`natural?_eq_some_iff`). A line number may have a plus sign before that and must have a place among
the unsigned 64-bit values (`lineNumber?_eq_some_iff`). So what a line number can be written as is
known without the reader.
-/

namespace FunLanguage.Text

/-! ## Runs of digits -/

/-- The run of digits is the decimal of `n`, with any number of zeros in front of it. -/
def Digits (n : Nat) (cs : List Char) : Prop :=
  ∃ zeros : Nat, cs = List.replicate zeros '0' ++ Nat.toDigits 10 n

theorem digits_toDigits (n : Nat) : Digits n (Nat.toDigits 10 n) :=
  ⟨0, rfl⟩

theorem Digits.isDigit {n : Nat} {cs : List Char} (digits : Digits n cs) :
    ∀ c ∈ cs, c.isDigit = true := by
  obtain ⟨zeros, rfl⟩ := digits
  intro c mem
  rcases List.mem_append.mp mem with mem | mem
  · rw [List.eq_of_mem_replicate mem]
    rfl
  · exact Nat.isDigit_of_mem_toDigits (by decide) (by decide) mem

theorem Digits.ne_nil {n : Nat} {cs : List Char} (digits : Digits n cs) : cs ≠ [] := by
  obtain ⟨zeros, rfl⟩ := digits
  exact List.append_ne_nil_of_right_ne_nil _ Nat.toDigits_ne_nil

theorem Digits.value {n : Nat} {cs : List Char} (digits : Digits n cs) :
    Nat.ofDigitChars 10 cs 0 = n := by
  obtain ⟨zeros, rfl⟩ := digits
  rw [Nat.ofDigitChars_append, Nat.ofDigitChars_replicate_zero, Nat.mul_zero,
    Nat.ofDigitChars_ten_toDigits]

/-- A digit more multiplies by ten and adds. Behind a zero it starts the decimal anew, and the zero
joins those in front. -/
theorem Digits.concat {n d : Nat} {cs : List Char} (digits : Digits n cs) (small : d < 10) :
    Digits (10 * n + d) (cs ++ [d.digitChar]) := by
  obtain ⟨zeros, rfl⟩ := digits
  rw [← Nat.toDigits_of_lt_base small, List.append_assoc]
  rcases Nat.eq_zero_or_pos n with rfl | positive
  · refine ⟨zeros + 1, ?_⟩
    rw [Nat.toDigits_zero, Nat.mul_zero, Nat.zero_add, List.replicate_succ', List.append_assoc]
  · exact ⟨zeros, by rw [Nat.toDigits_append_toDigits (by decide) positive small]⟩

/-- A digit is the digit of its value. -/
theorem digitChar_digitValue {c : Char} (digit : c.isDigit = true) :
    digitValue c < 10 ∧ (digitValue c).digitChar = c := by
  obtain ⟨low, high⟩ := Char.isDigit_iff_toNat.mp digit
  have zero : '0'.toNat = 48 := rfl
  have nine : '9'.toNat = 57 := rfl
  have small : digitValue c < 10 := by rw [digitValue]; omega
  refine ⟨small, Char.toNat_inj.mp ?_⟩
  rw [Nat.toNat_digitChar_of_lt_ten small, digitValue]
  omega

/-- By induction on the digits, the last one last. -/
theorem digits_of_isDigit {cs : List Char} (nonempty : cs ≠ []) (all : ∀ c ∈ cs, c.isDigit = true) :
    Digits (Nat.ofDigitChars 10 cs 0) cs := by
  induction cs using List.reverseRec with
  | nil => exact absurd rfl nonempty
  | append_singleton front c ih =>
    obtain ⟨small, same⟩ := digitChar_digitValue (all c (by simp))
    have value : Nat.ofDigitChars 10 (front ++ [c]) 0 =
        10 * Nat.ofDigitChars 10 front 0 + digitValue c := by
      rw [Nat.ofDigitChars_append, Nat.ofDigitChars_cons]
      rfl
    rw [value]
    by_cases empty : front = []
    · subst empty
      refine ⟨0, ?_⟩
      rw [show Nat.ofDigitChars 10 [] 0 = 0 from rfl, Nat.mul_zero, Nat.zero_add,
        Nat.toDigits_of_lt_base small, same]
      rfl
    · have longer := (ih empty fun d mem => all d (List.mem_append_left _ mem)).concat small
      rwa [same] at longer

theorem natural?_eq_some_iff {n : Nat} {cs : List Char} : natural? cs = some n ↔ Digits n cs := by
  have fold : cs.foldl (fun m c => 10 * m + digitValue c) 0 = Nat.ofDigitChars 10 cs 0 :=
    Nat.ofDigitChars_eq_foldl.symm
  rw [natural?, fold]
  constructor
  · intro read
    split at read
    · cases read
    · next all =>
      obtain ⟨nonempty, all⟩ : cs ≠ [] ∧ ∀ c ∈ cs, c.isDigit = true := by simpa using all
      exact Option.some.inj read ▸ digits_of_isDigit nonempty all
  · intro digits
    rw [if_neg (by simpa using ⟨digits.ne_nil, digits.isDigit⟩), digits.value]

theorem naturalUpTo?_eq_some_iff {limit n : Nat} {cs : List Char} :
    naturalUpTo? limit cs = some n ↔ n ≤ limit ∧ Digits n cs := by
  rw [naturalUpTo?, Option.filter_eq_some_iff, natural?_eq_some_iff, decide_eq_true_iff, and_comm]

/-! ## Line numbers -/

/-- The numeral denotes `n`: its decimal with any number of zeros in front, and with a plus sign
before them or none. -/
inductive Numeral (n : Nat) : List Char → Prop
  | unsigned {cs : List Char} (digits : Digits n cs) : Numeral n cs
  | plus {cs : List Char} (digits : Digits n cs) : Numeral n ('+' :: cs)

theorem Numeral.ne_nil {n : Nat} {cs : List Char} (numeral : Numeral n cs) : cs ≠ [] := by
  cases numeral with
  | unsigned digits => exact digits.ne_nil
  | plus digits => exact List.cons_ne_nil _ _

/-- A numeral holds nothing but digits and plus signs. -/
theorem Numeral.member {n : Nat} {cs : List Char} (numeral : Numeral n cs) :
    ∀ c ∈ cs, c = '+' ∨ c.isDigit = true := by
  intro c mem
  cases numeral with
  | unsigned digits => exact .inr (digits.isDigit c mem)
  | plus digits =>
    rcases List.mem_cons.mp mem with rfl | mem
    · exact .inl rfl
    · exact .inr (digits.isDigit c mem)

theorem numeral_plus_iff {n : Nat} {cs : List Char} : Numeral n ('+' :: cs) ↔ Digits n cs := by
  constructor
  · intro numeral
    cases numeral with
    | unsigned digits => exact absurd (digits.isDigit '+' List.mem_cons_self) (by decide)
    | plus digits => exact digits
  · exact .plus

theorem numeral_iff_of_not_plus {n : Nat} {cs : List Char} (unsigned : ∀ ds, cs ≠ '+' :: ds) :
    Numeral n cs ↔ Digits n cs := by
  constructor
  · intro numeral
    cases numeral with
    | unsigned digits => exact digits
    | plus _ => exact absurd rfl (unsigned _)
  · exact .unsigned

/-- What is read as a line number is a numeral of it, and every numeral of a number below `2 ^ 64`
is read. -/
theorem lineNumber?_eq_some_iff {n : Nat} {cs : List Char} :
    lineNumber? cs = some n ↔ n < 2 ^ 64 ∧ Numeral n cs := by
  have limit : n ≤ lineNumberLimit ↔ n < 2 ^ 64 := Nat.lt_succ_iff.symm
  unfold lineNumber?
  split
  · rw [naturalUpTo?_eq_some_iff, limit, numeral_plus_iff]
  · next unsigned => rw [naturalUpTo?_eq_some_iff, limit, numeral_iff_of_not_plus unsigned]

end FunLanguage.Text
