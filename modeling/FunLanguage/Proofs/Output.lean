import FunLanguage.Proofs.Moves

/-!
# Output

What has been written before plays no part in an evaluation: with some text in front of its output a
machine takes the same steps, and has that text in front ever after (`Machine.after_prepend`). So a
program whose text is taken away at each step writes, in pieces, what a run of it has written at the
end (`Machine.streamed_eq_run`).
-/

namespace FunLanguage

/-- The world with some text in front of what has been written. -/
def World.prepend (text : String) (w : World) : World :=
  { w with output := text ++ w.output }

def Machine.prepend (text : String) (m : Machine) : Machine :=
  { m with world := m.world.prepend text }

def Sighting.prepend (text : String) (v : Sighting) : Sighting :=
  { v with world := v.world.prepend text }

namespace World

variable (text : String) (w : World)

@[simp] theorem prepend_output : (w.prepend text).output = text ++ w.output := rfl

@[simp] theorem prepend_empty : w.prepend "" = w := by
  simp [prepend]

theorem prepend_append (before : String) :
    w.prepend (before ++ text) = (w.prepend text).prepend before := by
  simp [prepend, String.append_assoc]

def withoutOutput (w : World) : World :=
  { w with output := "" }

theorem prepend_withoutOutput : w.withoutOutput.prepend w.output = w := by
  simp [withoutOutput, prepend]

theorem prepend_eq_withoutOutput :
    w.prepend text = w.withoutOutput.prepend (text ++ w.output) := by
  rw [prepend_append, prepend_withoutOutput]

end World

theorem Effect.apply_prepend (e : Effect) (text : String) (w : World) :
    e.apply (w.prepend text) = (e.apply w).prepend text := by
  simp [apply, World.prepend, String.append_assoc]

namespace Machine

variable (text : String) (m : Machine)

@[simp] theorem prepend_empty : m.prepend "" = m :=
  congrArg (Machine.mk m.control m.stack) (World.prepend_empty m.world)

theorem prepend_append (before : String) :
    m.prepend (before ++ text) = (m.prepend text).prepend before :=
  congrArg (Machine.mk m.control m.stack) (World.prepend_append text m.world before)

theorem outcome?_prepend : (m.prepend text).outcome? = m.outcome? := by
  obtain ⟨control, stack, world⟩ := m
  cases control <;> cases stack <;> rfl

theorem step_prepend : (m.prepend text).step = m.step.prepend text := by
  obtain ⟨⟨outcome, ended⟩, same⟩ |
    ⟨control, taken, effect, control', pushed, stack, world, rfl, next, moves⟩ := m.step_cases
  · rw [same]
    exact step_of_outcome? ((outcome?_prepend text m).trans ended)
  · rw [next]
    exact (step_of_moves stack (world.prepend text) moves).trans
      (congrArg (Machine.mk _ _) (effect.apply_prepend text world))

theorem after_prepend (n : Nat) : (m.prepend text).after n = (m.after n).prepend text := by
  induction n generalizing m with
  | zero => rfl
  | succ n ih => rw [after_succ, step_prepend, ih, after_succ]

theorem sighting?_prepend : (m.prepend text).sighting? = m.sighting?.map (.prepend text) := by
  obtain ⟨control, stack, world⟩ := m
  cases control with
  | evaluate node i =>
    simp only [sighting?, prepend, visit?]
    split <;> rfl
  | deliver value => rfl
  | raise fault => rfl

/-- The machine with nothing written yet. -/
def withoutOutput (m : Machine) : Machine :=
  { m with world := m.world.withoutOutput }

theorem prepend_withoutOutput : m.withoutOutput.prepend m.world.output = m :=
  congrArg (Machine.mk m.control m.stack) m.world.prepend_withoutOutput

/-- What has been written does not show in a step. -/
theorem step_withoutOutput : m.step.withoutOutput = m.withoutOutput.step.withoutOutput := by
  conv => lhs; rw [← m.prepend_withoutOutput, step_prepend]
  rfl

theorem outcome?_withoutOutput : m.withoutOutput.outcome? = m.outcome? := by
  conv => rhs; rw [← m.prepend_withoutOutput, outcome?_prepend]

theorem run_prepend (budget : Nat) :
    (m.prepend text).run budget =
      (m.run budget).map fun (outcome, world) => (outcome, world.prepend text) := by
  induction budget generalizing m with
  | zero => rfl
  | succ budget ih =>
    rw [run, run, outcome?_prepend]
    split
    · rfl
    · rw [step_prepend, ih]

theorem Ends.prepend {m : Machine} {outcome : Except Fault Int32} {world : World}
    (ends : m.Ends outcome world) (text : String) :
    (m.prepend text).Ends outcome (world.prepend text) := by
  obtain ⟨n, ended, rfl⟩ := ends_iff.mp ends
  refine ends_iff.mpr ⟨n, ?_, ?_⟩
  · rw [after_prepend, outcome?_prepend, ended]
  · rw [after_prepend]
    rfl

theorem Ends.of_prepend {m : Machine} {outcome : Except Fault Int32} {world : World}
    {text : String} (ends : (m.prepend text).Ends outcome world) :
    ∃ world', world = world'.prepend text ∧ m.Ends outcome world' := by
  obtain ⟨n, ended, rfl⟩ := ends_iff.mp ends
  rw [after_prepend, outcome?_prepend] at ended
  refine ⟨(m.after n).world, ?_, ends_iff.mpr ⟨n, ended, rfl⟩⟩
  rw [after_prepend]
  rfl

/-! ## Output in pieces -/

/-- How an evaluation ends, and the pieces of text that its steps hand over, one behind
the other. -/
def streamed : (budget : Nat) → Machine → Option (Except Fault Int32 × String)
  | 0, _ => none
  | budget + 1, m =>
    match m.emit with
    | (written, .inl outcome) => some (outcome, written)
    | (written, .inr m) =>
      (streamed budget m).map fun (outcome, later) => (outcome, written ++ later)

theorem emit_of_outcome? {outcome : Except Fault Int32} (ended : m.outcome? = some outcome) :
    m.emit = (m.world.output, .inl outcome) := by
  have silent := m.outcome?_withoutOutput.trans ended
  simp only [withoutOutput, World.withoutOutput] at silent
  simp only [emit, World.takeOutput, silent]

theorem emit_of_moving (moving : m.outcome? = none) :
    m.emit = (m.world.output, .inr m.withoutOutput.step) := by
  have silent := m.outcome?_withoutOutput.trans moving
  simp only [withoutOutput, World.withoutOutput] at silent
  simp only [emit, World.takeOutput, silent]
  rfl

/-- The pieces make up what has been written by the end. -/
theorem streamed_eq_run (budget : Nat) :
    m.streamed budget = (m.run budget).map fun (outcome, world) => (outcome, world.output) := by
  induction budget generalizing m with
  | zero => rfl
  | succ budget ih =>
    cases ended : m.outcome? with
    | some outcome => simp only [streamed, run, emit_of_outcome? m ended, ended, Option.map_some]
    | none =>
      -- The text taken away stands in front of what the rest of the run writes.
      have next : m.step = m.withoutOutput.step.prepend m.world.output := by
        rw [← step_prepend, prepend_withoutOutput]
      simp only [streamed, run, emit_of_moving m ended, ended, next, run_prepend, ih,
        Option.map_map]
      rfl

end Machine

end FunLanguage
