import FunLanguage.Proofs.Sessions

/-!
# Faults of evaluation

An evaluation raises no syntax error, and it is not stopped from within: whatever it gives up with
is a fault of its own (`Fault.OfEvaluation`). So it is under breakpoints, where the conditions are
evaluated too (`Monitored.Plain`).
-/

namespace FunLanguage

/-- An evaluation can come to the fault. -/
def Fault.OfEvaluation : Fault → Prop
  | malformed _ => False
  | unknownIdentifier _ _ => True
  | redefinition _ _ => True
  | arithmetic _ => True
  | functionCall _ _ => True
  | wrongArgumentsNumber _ _ => True
  | stopped => False

namespace Machine

/-- The machine raises no fault but such as an evaluation can come to. -/
structure Plain (m : Machine) : Prop where
  own : ∀ fault, m.control = .raise fault → fault.OfEvaluation

/-! ## Steps -/

namespace Plain

variable {i : ScopeId} {stack : List Frame} {world : World}

theorem evaluate (node : Node) : Plain ⟨.evaluate node i, stack, world⟩ :=
  ⟨nofun⟩

theorem deliver (value : Int32) : Plain ⟨.deliver value, stack, world⟩ :=
  ⟨nofun⟩

theorem raise {fault : Fault} (own : fault.OfEvaluation) : Plain ⟨.raise fault, stack, world⟩ := by
  refine ⟨fun fault' same => ?_⟩
  cases same
  exact own

/-- The faults that a move raises are of an evaluation. -/
theorem of_moves {control control' : Control} {taken pushed : List Frame} {effect : Effect}
    (moves : Moves world.scopes control taken effect control' pushed)
    (h : Plain ⟨control, taken ++ stack, world⟩) :
    Plain ⟨control', pushed ++ stack, effect.apply world⟩ := by
  cases moves with
  | fails fails => cases fails <;> exact raise trivial
  | mismatch => exact raise trivial
  | rename => exact raise trivial
  | abandon => exact raise (h.own _ rfl)
  | pass => exact raise (h.own _ rfl)
  | begins => exact evaluate _
  | call => exact evaluate _
  | enter => exact evaluate _
  | _ => exact deliver _

variable {m : Machine}

theorem step (h : m.Plain) : m.step.Plain := by
  obtain ⟨-, same⟩ | ⟨control, taken, effect, control', pushed, stack, world, rfl, next, moves⟩ :=
    m.step_cases
  · rwa [same]
  · rw [next]
    exact of_moves moves h

theorem after (h : m.Plain) (n : Nat) : (m.after n).Plain :=
  after_induction (motive := Plain) (fun _ => step) n h

theorem of_outcome? {fault : Fault} (h : m.Plain) (ended : m.outcome? = some (.error fault)) :
    fault.OfEvaluation := by
  obtain ⟨-, ⟨value, -, failed⟩ | ⟨fault', raised, failed⟩⟩ := outcome?_eq_some_iff.mp ended
  · cases failed
  · cases failed
    exact h.own fault raised

theorem run {budget : Nat} {fault : Fault} {world : World} (h : m.Plain)
    (ran : m.run budget = some (.error fault, world)) : fault.OfEvaluation := by
  obtain ⟨n, -, ended, -⟩ := run_eq_some_iff.mp ran
  exact (h.after n).of_outcome? ended

end Plain

end Machine

/-! ## Monitored runs -/

namespace Monitored

/-- The run ends in no fault but such as an evaluation can come to. -/
def Plain : Monitored → Prop
  | running m => m.Plain
  | testing condition _ => condition.Plain
  | suspended _ => True
  | finished outcome _ => ∀ fault, outcome = .error fault → fault.OfEvaluation

namespace Plain

variable {table : Breakpoints} {r : Monitored}

theorem settle (pause : Pause) {outcome : Except Fault Int32} (world : World)
    (own : ∀ fault, outcome = .error fault → fault.OfEvaluation) :
    (settle pause outcome world).Plain := by
  cases outcome with
  | error fault => exact Machine.Plain.raise (own fault rfl)
  | ok value =>
    rw [Monitored.settle]
    split
    · exact (Machine.Plain.evaluate pause.node).step
    · trivial

theorem step (h : r.Plain) : (r.step table).Plain := by
  cases r with
  | running m =>
    rw [Monitored.step]
    obtain ⟨pause, world, breakpoint, -, -, -, next⟩ | next | ⟨outcome, ended, next⟩ :=
      advance_cases table m
    · rw [next]
      exact Machine.Plain.evaluate _
    · rw [next]
      exact Machine.Plain.step h
    · rw [next]
      intro fault failed
      exact Machine.Plain.of_outcome? h (failed ▸ ended)
  | testing condition pause =>
    rw [Monitored.step]
    split
    · next outcome ended =>
      refine settle pause _ fun fault failed => ?_
      exact Machine.Plain.of_outcome? h (failed ▸ ended)
    · exact Machine.Plain.step h
  | suspended s => trivial
  | finished outcome world => exact h

theorem after (h : r.Plain) (n : Nat) : (r.after table n).Plain := by
  induction n generalizing r with
  | zero => exact h
  | succ n ih => exact ih h.step

theorem run {budget : Nat} {fault : Fault} {world : World} (h : r.Plain)
    (ran : r.run table budget = some (.finished (.error fault) world)) : fault.OfEvaluation := by
  obtain ⟨n, there⟩ := exists_after_of_run ran
  have ended : (r.after table n).Plain := h.after n
  rw [there] at ended
  exact ended fault rfl

end Plain

end Monitored

end FunLanguage
