import FunLanguage.Proofs.CallFree
import FunLanguage.Proofs.Moves

/-!
# Evaluations in front of a stack

An evaluation knows nothing of the frames that lie below its own. With further frames under its
stack a machine takes the same steps for as long as it is under way by itself
(`Machine.step_above`); where it would have ended, it hands its value or its fault to those frames
(`Machine.Ends.above`). What is known of an evaluation by itself thus holds wherever it takes place.
-/

namespace FunLanguage.Machine

/-- The machine with further frames under its stack. -/
def above (base : List Frame) (m : Machine) : Machine :=
  { m with stack := m.stack ++ base }

variable {m : Machine} (base : List Frame)

/-- As long as the machine is under way, the frames below it wait. -/
theorem step_above (moving : m.outcome? = none) : (m.above base).step = m.step.above base := by
  obtain ⟨⟨outcome, ended⟩, -⟩ |
    ⟨control, taken, effect, control', pushed, stack, world, rfl, next, moves⟩ := m.step_cases
  · rw [moving] at ended
    cases ended
  · rw [next, above, above, List.append_assoc, List.append_assoc]
    exact step_of_moves (stack ++ base) world moves

theorem above_of_outcome? {outcome : Except Fault Int32} (ended : m.outcome? = some outcome) :
    m.above base = halted base m.world outcome := by
  obtain ⟨control, stack, world⟩ := m
  obtain ⟨empty, ⟨value, delivered, rfl⟩ | ⟨fault, raised, rfl⟩⟩ := outcome?_eq_some_iff.mp ended
  · cases empty
    cases delivered
    rfl
  · cases empty
    cases raised
    rfl

theorem Reaches.ends {m' : Machine} {outcome : Except Fault Int32} (h : m.Reaches m')
    (ended : m'.outcome? = some outcome) : m.Ends outcome m'.world := by
  obtain ⟨n, rfl⟩ := h
  exact ends_iff.mpr ⟨n, ended, rfl⟩

/-- An evaluation that ends hands its outcome to the frames below it. -/
theorem Ends.above {outcome : Except Fault Int32} {world : World} (ends : m.Ends outcome world) :
    (m.above base).Reaches (halted base world outcome) := by
  obtain ⟨n, ended, rfl⟩ := ends_iff.mp ends
  clear ends
  induction n generalizing m with
  | zero => exact above_of_outcome? base ended ▸ .refl _
  | succ n ih =>
    cases now : m.outcome? with
    | none => exact .head (step_above base now) (ih ended)
    -- It has ended before, and nothing has happened since.
    | some outcome' =>
      rw [after_of_outcome? now] at ended ⊢
      exact above_of_outcome? base ended ▸ .refl _

end FunLanguage.Machine
