import FunLanguage.Grammar.Program

/-!
# Breakpoints

A breakpoint has a condition and the text that describes it. A table holds at most one breakpoint
for each line and lists them by line.
-/

namespace FunLanguage

/-- A condition under which a run is to be suspended, with its description. -/
structure Breakpoint where
  condition : Expr
  description : String
  deriving Repr

namespace Breakpoint

/-- The breakpoint whose condition always holds. -/
def unconditional : Breakpoint :=
  ⟨.literal 1 0, "empty"⟩

/-- The breakpoint with the condition that the text makes; the text is its description. -/
def ofText (text : String) : Except SyntaxError Breakpoint := do
  return ⟨← Expr.ofSource text, text⟩

/-- The breakpoint with the condition that the text makes, or the unconditional one without
a text. -/
def ofText? : Option String → Except SyntaxError Breakpoint
  | none => .ok unconditional
  | some text => ofText text

end Breakpoint

/-- Breakpoints by line, the lines strictly ascending. -/
structure Breakpoints where
  entries : List (Nat × Breakpoint)
  ascending : entries.Pairwise fun a b => a.1 < b.1

namespace Breakpoints

/-- The table without breakpoints. -/
def empty : Breakpoints :=
  ⟨[], .nil⟩

instance : Inhabited Breakpoints := ⟨empty⟩

/-- The breakpoint on a line. -/
def get? (table : Breakpoints) (line : Nat) : Option Breakpoint :=
  table.entries.lookup line

/-- Whether there is a breakpoint on a line. -/
def contains (table : Breakpoints) (line : Nat) : Bool :=
  (table.get? line).isSome

/-- The number of breakpoints. -/
def size (table : Breakpoints) : Nat :=
  table.entries.length

/-- Whether there are no breakpoints. -/
def isEmpty (table : Breakpoints) : Bool :=
  table.entries.isEmpty

/-! ## Changes -/

/-- Puts a breakpoint on a line of an ascending list, in place of the one that is there. -/
def put (line : Nat) (breakpoint : Breakpoint) :
    List (Nat × Breakpoint) → List (Nat × Breakpoint)
  | [] => [(line, breakpoint)]
  | entry :: entries =>
    if line < entry.1 then (line, breakpoint) :: entry :: entries
    else if line = entry.1 then (line, breakpoint) :: entries
    else entry :: put line breakpoint entries

/-- What is in the list after a breakpoint has been put there was there before or is that breakpoint
on its line. -/
theorem mem_of_mem_put {line : Nat} {breakpoint : Breakpoint} {entry : Nat × Breakpoint}
    {entries : List (Nat × Breakpoint)} (h : entry ∈ put line breakpoint entries) :
    entry = (line, breakpoint) ∨ entry ∈ entries := by
  induction entries with
  | nil => simpa [put] using h
  | cons first entries ih => grind [put]

theorem put_ascending (line : Nat) (breakpoint : Breakpoint) {entries : List (Nat × Breakpoint)}
    (h : entries.Pairwise fun a b => a.1 < b.1) :
    (put line breakpoint entries).Pairwise fun a b => a.1 < b.1 := by
  induction entries with
  | nil => simp [put]
  | cons first entries ih =>
    obtain ⟨later, tail⟩ := List.pairwise_cons.mp h
    simp only [put]
    split
    · next before =>
      refine List.pairwise_cons.mpr ⟨fun entry mem => ?_, h⟩
      rcases List.mem_cons.mp mem with rfl | mem
      · exact before
      · exact Nat.lt_trans before (later entry mem)
    · split
      · next same => exact List.pairwise_cons.mpr ⟨fun entry mem => same ▸ later entry mem, tail⟩
      · refine List.pairwise_cons.mpr ⟨fun entry mem => ?_, ih tail⟩
        rcases mem_of_mem_put mem with rfl | mem
        · simp only
          omega
        · exact later entry mem

/-- Puts a breakpoint on a line, in place of the one that may be there. -/
def insert (table : Breakpoints) (line : Nat) (breakpoint : Breakpoint) : Breakpoints :=
  ⟨put line breakpoint table.entries, put_ascending line breakpoint table.ascending⟩

/-- Takes the breakpoint off a line. -/
def remove (table : Breakpoints) (line : Nat) : Breakpoints :=
  ⟨table.entries.filter (·.1 != line), table.ascending.filter _⟩

/-! ## Listing -/

/-- The breakpoints as they are listed: a heading, a line of text for each, and an empty line. -/
def listing (table : Breakpoints) : String :=
  let shown (entry : Nat × Breakpoint) : String :=
    "   At line " ++ toString entry.1 ++ ", condition: " ++ entry.2.description ++ "\n"
  "List of breakpoints:\n" ++ String.join (table.entries.map shown) ++ "\n"

end Breakpoints

end FunLanguage
