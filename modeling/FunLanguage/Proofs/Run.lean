import FunLanguage.Machine.Step

/-!
# Runs of a machine

`Machine.after n` does `n` steps. An evaluation that has ended stays as it is, so a run ends within
some budget exactly if some number of steps leads to an outcome (`run_eq_some_iff`), and it has only
one outcome (`Ends.unique`). `Machine.sightings n` records the visits among the first `n` steps,
each with the world of the visit.
-/

namespace FunLanguage

/-- A visit: the node, the scope that it is visited in, and the world by then. -/
structure Sighting where
  node : Node
  scope : ScopeId
  world : World

/-- The fault is none that a call turns into another. -/
def Fault.Passing (fault : Fault) : Prop :=
  ∀ expected found, fault ≠ .wrongArgumentsNumber expected found

namespace Machine

/-! ## Steps -/

/-- The machine after a number of steps. -/
def after : (count : Nat) → Machine → Machine
  | 0, m => m
  | count + 1, m => after count m.step

@[simp] theorem after_zero (m : Machine) : after 0 m = m := rfl

@[simp] theorem after_succ (n : Nat) (m : Machine) : after (n + 1) m = after n m.step := rfl

theorem after_add (a b : Nat) (m : Machine) : after (a + b) m = after b (after a m) := by
  induction a generalizing m with
  | zero => rw [Nat.zero_add, after_zero]
  | succ a ih => rw [Nat.succ_add, after_succ, after_succ, ih]

theorem after_succ_eq_step (n : Nat) (m : Machine) : after (n + 1) m = (after n m).step :=
  after_add n 1 m

/-- What holds of a machine and outlasts a step holds ever after. -/
theorem after_induction {motive : Machine → Prop} (step : ∀ m, motive m → motive m.step) (n : Nat)
    {m : Machine} (h : motive m) : motive (after n m) := by
  induction n generalizing m with
  | zero => exact h
  | succ n ih => exact ih (step m h)

/-- Some number of steps leads from one machine to the other. -/
def Reaches (m m' : Machine) : Prop :=
  ∃ n, m.after n = m'

namespace Reaches

variable {m m' m'' : Machine}

theorem refl (m : Machine) : m.Reaches m :=
  ⟨0, rfl⟩

theorem trans (h : m.Reaches m') (h' : m'.Reaches m'') : m.Reaches m'' := by
  obtain ⟨a, rfl⟩ := h
  obtain ⟨b, rfl⟩ := h'
  exact ⟨a + b, after_add a b m⟩

/-- One step first. -/
theorem head (next : m.step = m') (h : m'.Reaches m'') : m.Reaches m'' := by
  obtain ⟨n, rfl⟩ := h
  exact ⟨n + 1, by rw [after_succ, next]⟩

/-- One step last. -/
theorem tail (h : m.Reaches m') (next : m'.step = m'') : m.Reaches m'' :=
  h.trans (head next (refl m''))

end Reaches

/-! ## Outcomes -/

/-- An evaluation that has ended has nothing left to do. -/
theorem outcome?_eq_some_iff {m : Machine} {outcome : Except Fault Int32} :
    m.outcome? = some outcome ↔
      m.stack = [] ∧ ((∃ value, m.control = .deliver value ∧ outcome = .ok value) ∨
        ∃ fault, m.control = .raise fault ∧ outcome = .error fault) := by
  obtain ⟨control, stack, world⟩ := m
  cases control <;> cases stack <;> simp [outcome?, eq_comm]

theorem step_of_outcome? {m : Machine} {outcome : Except Fault Int32}
    (h : m.outcome? = some outcome) : m.step = m := by
  obtain ⟨control, stack, world⟩ := m
  obtain ⟨empty, ⟨value, delivered, -⟩ | ⟨fault, raised, -⟩⟩ := outcome?_eq_some_iff.mp h
  · cases empty
    cases delivered
    rfl
  · cases empty
    cases raised
    rfl

theorem after_of_outcome? {m : Machine} {outcome : Except Fault Int32}
    (h : m.outcome? = some outcome) (n : Nat) : after n m = m := by
  induction n with
  | zero => rfl
  | succ n ih => rw [after_succ, step_of_outcome? h, ih]

/-- Once an evaluation has ended, further steps change nothing. -/
theorem after_eq_of_le {m : Machine} {a b : Nat} {outcome : Except Fault Int32}
    (h : (after a m).outcome? = some outcome) (le : a ≤ b) : after b m = after a m := by
  obtain ⟨k, rfl⟩ := Nat.exists_eq_add_of_le le
  rw [after_add, after_of_outcome? h]

/-- A machine that is under way after `b` steps was so before. -/
theorem outcome?_after_eq_none {m : Machine} {a b : Nat} (h : (after b m).outcome? = none)
    (le : a ≤ b) : (after a m).outcome? = none := by
  cases ended : (after a m).outcome? with
  | none => rfl
  | some outcome =>
    rw [after_eq_of_le ended le, ended] at h
    cases h

/-! ## Runs -/

theorem run_eq_some_iff {budget : Nat} {m : Machine} {outcome : Except Fault Int32}
    {world : World} :
    m.run budget = some (outcome, world) ↔
      ∃ n < budget, (after n m).outcome? = some outcome ∧ (after n m).world = world := by
  induction budget generalizing m with
  | zero => simp [run]
  | succ budget ih =>
    rw [run]
    split
    · next now ended =>
      constructor
      · intro h
        simp only [Option.some.injEq, Prod.mk.injEq] at h
        obtain ⟨rfl, rfl⟩ := h
        exact ⟨0, Nat.succ_pos _, ended, rfl⟩
      · rintro ⟨n, -, later, rfl⟩
        rw [after_of_outcome? ended] at later ⊢
        rw [ended] at later
        cases later
        rfl
    · next running =>
      rw [ih]
      constructor
      · rintro ⟨n, lt, h⟩
        exact ⟨n + 1, Nat.succ_lt_succ lt, h⟩
      · rintro ⟨n, lt, h⟩
        cases n with
        | zero =>
          rw [after_zero, running] at h
          cases h.1
        | succ n => exact ⟨n, Nat.lt_of_succ_lt_succ lt, h⟩

/-- The evaluation ends with this outcome, and leaves this world. -/
def Ends (m : Machine) (outcome : Except Fault Int32) (world : World) : Prop :=
  ∃ budget, m.run budget = some (outcome, world)

theorem ends_iff {m : Machine} {outcome : Except Fault Int32} {world : World} :
    m.Ends outcome world ↔
      ∃ n, (after n m).outcome? = some outcome ∧ (after n m).world = world := by
  constructor
  · rintro ⟨budget, h⟩
    obtain ⟨n, -, h⟩ := run_eq_some_iff.mp h
    exact ⟨n, h⟩
  · rintro ⟨n, h⟩
    exact ⟨n + 1, run_eq_some_iff.mpr ⟨n, Nat.lt_succ_self n, h⟩⟩

/-- An evaluation has only one end. -/
theorem Ends.unique {m : Machine} {outcome outcome' : Except Fault Int32} {world world' : World}
    (h : m.Ends outcome world) (h' : m.Ends outcome' world') :
    outcome = outcome' ∧ world = world' := by
  obtain ⟨a, ended, rfl⟩ := ends_iff.mp h
  obtain ⟨b, ended', rfl⟩ := ends_iff.mp h'
  have same : after a m = after b m := by
    rcases Nat.le_total a b with le | le
    · exact (after_eq_of_le ended le).symm
    · exact after_eq_of_le ended' le
  rw [same, ended'] at ended
  exact ⟨(Option.some.inj ended).symm, congrArg Machine.world same⟩

/-- A run that ends within a budget ends within every larger one. -/
theorem run_mono {m : Machine} {a b : Nat} {outcome : Except Fault Int32} {world : World}
    (h : m.run a = some (outcome, world)) (le : a ≤ b) : m.run b = some (outcome, world) := by
  obtain ⟨n, lt, h⟩ := run_eq_some_iff.mp h
  exact run_eq_some_iff.mpr ⟨n, Nat.lt_of_lt_of_le lt le, h⟩

/-! ## Visits -/

/-- The visit that the machine is about to make. -/
def sighting? (m : Machine) : Option Sighting :=
  m.visit?.map fun visit => ⟨visit.1, visit.2, m.world⟩

theorem sighting?_eq_some {m : Machine} {v : Sighting} (h : m.sighting? = some v) :
    m = ⟨.evaluate v.node v.scope, m.stack, v.world⟩ ∧ v.node.isVisited = true := by
  obtain ⟨control, stack, world⟩ := m
  cases control with
  | evaluate node i =>
    cases visited : node.isVisited with
    | false => simp [sighting?, visit?, visited] at h
    | true =>
      simp only [sighting?, visit?, visited, if_true, Option.map_some, Option.some.injEq] at h
      subst h
      exact ⟨rfl, visited⟩
  | deliver value => cases h
  | raise fault => cases h

/-- The visits among the first steps, in order. -/
def sightings : (count : Nat) → Machine → List Sighting
  | 0, _ => []
  | count + 1, m => m.sighting?.toList ++ sightings count m.step

@[simp] theorem sightings_zero (m : Machine) : sightings 0 m = [] := rfl

@[simp] theorem sightings_succ (n : Nat) (m : Machine) :
    sightings (n + 1) m = m.sighting?.toList ++ sightings n m.step := rfl

theorem sightings_add (a b : Nat) (m : Machine) :
    sightings (a + b) m = sightings a m ++ sightings b (after a m) := by
  induction a generalizing m with
  | zero => rw [Nat.zero_add, sightings_zero, after_zero, List.nil_append]
  | succ a ih =>
    rw [Nat.succ_add, sightings_succ, sightings_succ, after_succ, ih, List.append_assoc]

theorem sightings_succ_eq_append (n : Nat) (m : Machine) :
    sightings (n + 1) m = sightings n m ++ (after n m).sighting?.toList := by
  rw [sightings_add, sightings_succ, sightings_zero, List.append_nil]

theorem sighting?_of_outcome? {m : Machine} {outcome : Except Fault Int32}
    (h : m.outcome? = some outcome) : m.sighting? = none := by
  obtain ⟨control, stack, world⟩ := m
  obtain ⟨-, ⟨value, delivered, -⟩ | ⟨fault, raised, -⟩⟩ := outcome?_eq_some_iff.mp h
  · cases delivered
    rfl
  · cases raised
    rfl

theorem sightings_of_outcome? {m : Machine} {outcome : Except Fault Int32}
    (h : m.outcome? = some outcome) (n : Nat) : sightings n m = [] := by
  induction n with
  | zero => rfl
  | succ n ih =>
    rw [sightings_succ, sighting?_of_outcome? h, step_of_outcome? h, ih]
    rfl

/-- Once an evaluation has ended it makes no more visits. -/
theorem sightings_eq_of_le {m : Machine} {a b : Nat} {outcome : Except Fault Int32}
    (h : (after a m).outcome? = some outcome) (le : a ≤ b) : sightings b m = sightings a m := by
  obtain ⟨k, rfl⟩ := Nat.exists_eq_add_of_le le
  rw [sightings_add, sightings_of_outcome? h, List.append_nil]

/-- Every visit is made at some step, and those before it in the steps before. -/
theorem exists_of_sightings {n k : Nat} {m : Machine} {v : Sighting}
    (seen : (sightings n m)[k]? = some v) :
    ∃ i < n, sightings i m = (sightings n m).take k ∧ (after i m).sighting? = some v := by
  induction n generalizing m k with
  | zero => cases seen
  | succ n ih =>
    rw [sightings_succ] at seen ⊢
    cases now : m.sighting? with
    | none =>
      rw [now] at seen
      obtain ⟨i, lt, before, here⟩ := ih (m := m.step) (k := k) seen
      exact ⟨i + 1, Nat.succ_lt_succ lt, by simpa [now] using before, here⟩
    | some u =>
      rw [now] at seen
      cases k with
      | zero =>
        cases seen
        exact ⟨0, Nat.succ_pos n, rfl, now⟩
      | succ k =>
        obtain ⟨i, lt, before, here⟩ := ih (m := m.step) (k := k) seen
        exact ⟨i + 1, Nat.succ_lt_succ lt, by simpa [now] using before, here⟩

/-! ## Faults on their way out -/

/-- Every frame hands the fault on, and writes nothing. -/
theorem unwind_of_passing {fault : Fault} (passing : fault.Passing) (frame : Frame)
    (stack : List Frame) (world : World) : ∃ world', world'.output = world.output ∧
      unwind frame fault stack world = ⟨.raise fault, stack, world'⟩ := by
  cases frame with
  | sequence rest inner outer =>
    exact ⟨{ world with scopes := world.scopes.release inner }, rfl, rfl⟩
  | call name line =>
    cases fault with
    | wrongArgumentsNumber expected found => exact absurd rfl (passing expected found)
    | _ => exact ⟨world, rfl, rfl⟩
  | _ => exact ⟨world, rfl, rfl⟩

/-- All that a machine does with a fault is to give up its frames. -/
theorem after_raise {fault : Fault} (passing : fault.Passing) (stack : List Frame) (world : World)
    (n : Nat) : ∃ world', world'.output = world.output ∧
      after n ⟨.raise fault, stack, world⟩ = ⟨.raise fault, stack.drop n, world'⟩ := by
  induction n generalizing stack world with
  | zero => exact ⟨world, rfl, rfl⟩
  | succ n ih =>
    cases stack with
    | nil => exact ⟨world, rfl, after_of_outcome? rfl _⟩
    | cons frame stack =>
      obtain ⟨world₁, same₁, next⟩ := unwind_of_passing passing frame stack world
      obtain ⟨world₂, same₂, later⟩ := ih stack world₁
      refine ⟨world₂, same₂.trans same₁, ?_⟩
      rw [after_succ, step, next]
      exact later

/-- A fault that no call turns into another is what the evaluation ends with. -/
theorem exists_ends_of_raise {m : Machine} {fault : Fault} (passing : fault.Passing)
    (raised : m.control = .raise fault) : ∃ world, m.Ends (.error fault) world := by
  obtain ⟨control, stack, world⟩ := m
  obtain rfl : control = .raise fault := raised
  obtain ⟨world', -, left⟩ := after_raise passing stack world stack.length
  refine ⟨world', ends_iff.mpr ⟨stack.length, ?_⟩⟩
  rw [left, List.drop_length]
  exact ⟨rfl, rfl⟩

theorem Ends.of_after {m : Machine} {n : Nat} {outcome : Except Fault Int32} {world : World}
    (h : (m.after n).Ends outcome world) : m.Ends outcome world := by
  obtain ⟨k, ended, left⟩ := ends_iff.mp h
  rw [← after_add] at ended left
  exact ends_iff.mpr ⟨n + k, ended, left⟩

end Machine

end FunLanguage
