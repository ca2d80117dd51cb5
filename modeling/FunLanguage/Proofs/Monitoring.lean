import FunLanguage.Proofs.CallFree
import FunLanguage.Suspension

/-!
# Runs under breakpoints

`Monitored.Comes` says that a monitored run comes to a halt, given any budget that is large enough.
The rules for it follow the run of the machine: a node without a breakpoint is passed, as is one
whose condition is 0; a condition that fails ends the run with its fault.
-/

namespace FunLanguage

/-- The visit makes the test of a breakpoint on its line, with this outcome. -/
def Sighting.Tests (v : Sighting) (table : Breakpoints) (outcome : Except Fault Int32) : Prop :=
  ∃ breakpoint world, table.get? v.node.line = some breakpoint ∧
    (Machine.start (.expression breakpoint.condition) v.scope v.world).Ends outcome world

theorem Sighting.Tests.unique {v : Sighting} {table : Breakpoints}
    {outcome outcome' : Except Fault Int32} (h : v.Tests table outcome)
    (h' : v.Tests table outcome') : outcome = outcome' := by
  obtain ⟨breakpoint, world, found, ends⟩ := h
  obtain ⟨breakpoint', world', found', ends'⟩ := h'
  obtain rfl := Option.some.inj (found.symm.trans found')
  exact (ends.unique ends').1

/-- No condition in the table calls a function. -/
def Breakpoints.CallFree (table : Breakpoints) : Prop :=
  ∀ entry ∈ table.entries, entry.2.condition.CallFree

theorem Breakpoints.CallFree.get? {table : Breakpoints} (free : table.CallFree) {line : Nat}
    {breakpoint : Breakpoint} (found : table.get? line = some breakpoint) :
    breakpoint.condition.CallFree := by
  obtain ⟨before, after, entries, -⟩ := List.lookup_eq_some_iff.mp found
  exact free (line, breakpoint) (entries ▸ by simp)

/-- A test that calls nothing has an outcome, which depends on the scopes alone. -/
theorem Sighting.tests_iff {v : Sighting} {table : Breakpoints} (free : table.CallFree)
    {outcome : Except Fault Int32} :
    v.Tests table outcome ↔ ∃ breakpoint, table.get? v.node.line = some breakpoint ∧
      outcome = breakpoint.condition.valueIn v.world.scopes v.scope := by
  constructor
  · rintro ⟨breakpoint, world, found, ends⟩
    have ends' := Machine.ends_of_callFree (free.get? found) v.scope v.world
    exact ⟨breakpoint, found, (ends.unique ends').1⟩
  · rintro ⟨breakpoint, found, rfl⟩
    exact ⟨breakpoint, v.world, found, Machine.ends_of_callFree (free.get? found) v.scope v.world⟩

namespace Monitored

/-- The run comes to the halt. -/
def Comes (table : Breakpoints) (r : Monitored) (halt : Halt) : Prop :=
  ∃ enough, ∀ budget ≥ enough, r.run table budget = some halt

namespace Comes

variable {table : Breakpoints} {halt : Halt} {m : Machine}

theorem finished (outcome : Except Fault Int32) (world : World) :
    Comes table (.finished outcome world) (.finished outcome world) := by
  refine ⟨1, fun budget le => ?_⟩
  obtain ⟨budget, rfl⟩ := Nat.exists_eq_add_of_le' le
  rfl

theorem suspended (s : Suspension) : Comes table (.suspended s) (.suspended s) := by
  refine ⟨1, fun budget le => ?_⟩
  obtain ⟨budget, rfl⟩ := Nat.exists_eq_add_of_le' le
  rfl

theorem of_step {r : Monitored} (moving : ∀ budget, r.run table (budget + 1) =
    (r.step table).run table budget) (h : Comes table (r.step table) halt) :
    Comes table r halt := by
  obtain ⟨enough, h⟩ := h
  refine ⟨enough + 1, fun budget le => ?_⟩
  obtain ⟨budget, rfl⟩ := Nat.exists_eq_add_of_le' (Nat.le_of_add_left_le le)
  rw [moving]
  exact h budget (Nat.le_of_succ_le_succ le)

theorem running (h : Comes table (advance table m) halt) : Comes table (.running m) halt :=
  of_step (fun _ => rfl) h

/-- The condition comes to its end, and the run acts on it. -/
theorem testing {condition : Machine} {pause : Pause} {outcome : Except Fault Int32} {world : World}
    (ends : condition.Ends outcome world) (h : Comes table (settle pause outcome world) halt) :
    Comes table (.testing condition pause) halt := by
  obtain ⟨n, ended, rfl⟩ := Machine.ends_iff.mp ends
  clear ends
  induction n generalizing condition with
  | zero =>
    refine of_step (fun _ => rfl) ?_
    rw [Machine.after_zero] at ended
    rw [Monitored.step, ended]
    exact h
  | succ n ih =>
    refine of_step (fun _ => rfl) ?_
    rw [Monitored.step]
    split
    · next outcome' finished =>
      rw [Machine.after_of_outcome? finished] at ended h
      rw [finished] at ended
      cases ended
      exact h
    · exact ih ended h

/-! ### What the machine is about to do -/

/-- The machine has ended, and the run with it. -/
theorem of_outcome? {outcome : Except Fault Int32} (ended : m.outcome? = some outcome) :
    Comes table (.running m) (.finished outcome m.world) := by
  have finishes : advance table m = .finished outcome m.world := by
    obtain ⟨control, stack, world⟩ := m
    cases control with
    | evaluate => cases ended
    | deliver value =>
      rw [advance, ended]
      intro _ _ _ _ same
      cases same
    | raise fault =>
      rw [advance, ended]
      intro _ _ _ _ same
      cases same
  exact running (finishes ▸ finished outcome m.world)

/-- There is no breakpoint where the machine is. -/
theorem pass (moving : m.outcome? = none)
    (untested : ∀ v, m.sighting? = some v → table.get? v.node.line = none)
    (h : Comes table (.running m.step) halt) : Comes table (.running m) halt := by
  have passes : advance table m = .running m.step := by
    obtain ⟨control, stack, world⟩ := m
    cases control with
    | evaluate node i =>
      cases visited : node.isVisited with
      | false => simp [advance, visited]
      | true =>
        have none := untested ⟨node, i, world⟩
          (by simp [Machine.sighting?, Machine.visit?, visited])
        simp only at none
        simp [advance, visited, none]
    | deliver value =>
      rw [advance, moving]
      intro _ _ _ _ same
      cases same
    | raise fault =>
      rw [advance, moving]
      intro _ _ _ _ same
      cases same
  exact running (passes ▸ h)

/-- There is a breakpoint, and its condition comes to an end. -/
theorem test {v : Sighting} {breakpoint : Breakpoint} {outcome : Except Fault Int32}
    {world : World} (seen : m.sighting? = some v)
    (found : table.get? v.node.line = some breakpoint)
    (ends : (Machine.start (.expression breakpoint.condition) v.scope v.world).Ends outcome world)
    (h : Comes table (settle ⟨v.node, v.scope, m.stack⟩ outcome world) halt) :
    Comes table (.running m) halt := by
  have tests : advance table m =
      .testing (.start (.expression breakpoint.condition) v.scope v.world)
        ⟨v.node, v.scope, m.stack⟩ := by
    obtain ⟨here, visited⟩ := Machine.sighting?_eq_some seen
    rw [here]
    simp [advance, visited, found]
  exact running (tests ▸ testing ends h)

/-- A fault that is no mismatch of arguments ends the run. -/
theorem raise (table : Breakpoints) {fault : Fault} (stack : List Frame) (world : World)
    (passing : fault.Passing) :
    ∃ world', world'.output = world.output ∧
      Comes table (.running ⟨.raise fault, stack, world⟩) (.finished (.error fault) world') := by
  induction stack generalizing world with
  | nil => exact ⟨world, rfl, of_outcome? rfl⟩
  | cons frame stack ih =>
    obtain ⟨world₁, same₁, next⟩ := Machine.unwind_of_passing passing frame stack world
    obtain ⟨world₂, same₂, comes⟩ := ih world₁
    refine ⟨world₂, same₂.trans same₁, pass rfl nofun ?_⟩
    rw [Machine.step, next]
    exact comes

end Comes

end Monitored

end FunLanguage
