/-!
# Tables of code points

The code points with a property of characters are kept as ranges in ascending order, with a gap
between each range and the next. They are looked up by a walk along the ranges that ends at the
first one which starts past the code point. On a table this finds exactly the code points of its
ranges (`CodeTable.contains_iff`).
-/

namespace FunLanguage.Unicode

/-- The code points from `first` to `last`, both included. -/
structure CodeRange where
  first : Nat
  last : Nat
  deriving DecidableEq, Repr

namespace CodeRange

/-- Whether the first of the ranges starts at `low` or behind, none is empty, and there is a gap
between each range and the next. -/
def areAscending (low : Nat) : List CodeRange → Bool
  | [] => true
  | r :: rs => decide (low ≤ r.first) && decide (r.first ≤ r.last) && areAscending (r.last + 2) rs

/-- Whether the code point `n` lies in one of the ranges, which are in ascending order. -/
def covers : List CodeRange → Nat → Bool
  | [], _ => false
  | r :: rs, n => decide (r.first ≤ n) && (decide (n ≤ r.last) || covers rs n)

variable {low n : Nat} {r : CodeRange} {rs : List CodeRange}

theorem areAscending_cons : areAscending low (r :: rs) = true ↔
    low ≤ r.first ∧ r.first ≤ r.last ∧ areAscending (r.last + 2) rs = true := by
  simp [areAscending, and_assoc]

/-- No range starts in front of the first. -/
theorem le_first_of_mem (ascending : areAscending low rs = true) (mem : r ∈ rs) :
    low ≤ r.first := by
  induction rs generalizing low with
  | nil => cases mem
  | cons s rs ih =>
    obtain ⟨start, proper, ascending⟩ := areAscending_cons.mp ascending
    rcases List.mem_cons.mp mem with rfl | later
    · exact start
    · have := ih ascending later
      omega

/-- On ascending ranges the walk finds exactly what lies in one of them. -/
theorem covers_iff (ascending : areAscending low rs = true) :
    covers rs n = true ↔ ∃ r ∈ rs, r.first ≤ n ∧ n ≤ r.last := by
  induction rs generalizing low with
  | nil => simp [covers]
  | cons s rs ih =>
    obtain ⟨-, proper, ascending⟩ := areAscending_cons.mp ascending
    simp only [covers, Bool.and_eq_true, Bool.or_eq_true, decide_eq_true_eq, ih ascending,
      List.mem_cons, exists_eq_or_imp, and_or_left]
    -- The walk gets past the first range only if the code point lies behind its start.
    refine or_congr_right ⟨And.right, fun found => ⟨?_, found⟩⟩
    obtain ⟨r, mem, start, -⟩ := found
    have := le_first_of_mem ascending mem
    omega

end CodeRange

/-- A set of code points, as maximal ranges in ascending order. -/
structure CodeTable where
  ranges : List CodeRange
  ascending : CodeRange.areAscending 0 ranges = true

namespace CodeTable

/-- Whether the code point of a character is in the table. -/
def contains (t : CodeTable) (c : Char) : Bool :=
  CodeRange.covers t.ranges c.toNat

/-- A character is in the table exactly if its code point lies in one of the ranges. -/
theorem contains_iff {t : CodeTable} {c : Char} :
    t.contains c = true ↔ ∃ r ∈ t.ranges, r.first ≤ c.toNat ∧ c.toNat ≤ r.last :=
  CodeRange.covers_iff t.ascending

end CodeTable

end FunLanguage.Unicode
