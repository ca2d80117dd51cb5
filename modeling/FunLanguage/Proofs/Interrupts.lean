import FunLanguage.Proofs.Coherence

/-!
# Interrupts

Nothing but the interrupts themselves depends on interrupts: an operation on scopes and forgetting
all interrupts can be done in either order (`Scopes.define_forgetInterrupts` and the lemmas beside
it).

`Machine.interrupts?` is the scope that the next step interrupts, if it does. In a coherent machine
that scope is not interrupted yet, and an interrupt stays where it is, so no scope is interrupted
twice (`Machine.Coherent.count_interrupted_le`).
-/

namespace FunLanguage

namespace Scopes

/-- The scopes as if nothing had returned. -/
def forgetInterrupts (s : Scopes) : Scopes :=
  ⟨s.entries.map fun t => { t with interrupt? := none }⟩

theorem ext_scope {s s' : Scopes} (size : s.size = s'.size) (scope : ∀ i, s.scope i = s'.scope i) :
    s = s' := by
  obtain ⟨entries⟩ := s
  obtain ⟨entries'⟩ := s'
  congr 1
  refine Array.ext size fun i hi hi' => ?_
  have same := scope i
  simpa [Scopes.scope, Array.getD_eq_getD_getElem?, hi, hi'] using same

@[simp] theorem size_forgetInterrupts (s : Scopes) : s.forgetInterrupts.size = s.size := by
  simp [forgetInterrupts, size]

theorem scope_forgetInterrupts (s : Scopes) (i : ScopeId) :
    s.forgetInterrupts.scope i = { s.scope i with interrupt? := none } := by
  simp only [forgetInterrupts, scope, Array.getD_eq_getD_getElem?, Array.getElem?_map]
  cases s.entries[i]? <;> rfl

theorem path_forgetInterrupts (s : Scopes) (i : ScopeId) :
    s.forgetInterrupts.path i = s.path i := by
  simp only [path, scope_forgetInterrupts]

theorem get?_forgetInterrupts (s : Scopes) (i : ScopeId) (name : String) :
    s.forgetInterrupts.get? i name = s.get? i name := by
  simp only [get?, path_forgetInterrupts, scope_forgetInterrupts]
  rfl

theorem function?_forgetInterrupts (s : Scopes) (i : ScopeId) (name : String) :
    s.forgetInterrupts.function? i name = s.function? i name := by
  simp only [function?, path_forgetInterrupts, scope_forgetInterrupts]
  rfl

theorem holder?_forgetInterrupts (s : Scopes) (i : ScopeId) (name : String) :
    s.forgetInterrupts.holder? i name = s.holder? i name := by
  simp only [holder?, path_forgetInterrupts, scope_forgetInterrupts]
  rfl

theorem forgetInterrupts_modify (s : Scopes) (i : ScopeId) {f : Scope → Scope}
    (same : ∀ t, { f t with interrupt? := none } = f { t with interrupt? := none }) :
    (s.modify i f).forgetInterrupts = s.forgetInterrupts.modify i f := by
  refine ext_scope (by simp) fun j => ?_
  simp only [scope_forgetInterrupts, scope_modify, size_forgetInterrupts]
  split
  · exact same _
  · rfl

theorem forgetInterrupts_interrupt (s : Scopes) (i : ScopeId) (value : Int32) :
    (s.interrupt i value).forgetInterrupts = s.forgetInterrupts := by
  refine ext_scope (by simp [interrupt]) fun j => ?_
  simp only [scope_forgetInterrupts, interrupt, scope_modify]
  split <;> rfl

theorem forgetInterrupts_release (s : Scopes) (i : ScopeId) :
    (s.release i).forgetInterrupts = s.forgetInterrupts.release i :=
  s.forgetInterrupts_modify i fun _ => rfl

theorem forgetInterrupts_child (s : Scopes) (parent : ScopeId) :
    (s.child parent).2.forgetInterrupts = (s.forgetInterrupts.child parent).2 := by
  refine ext_scope (by simp) fun j => ?_
  simp only [scope_forgetInterrupts, scope_child, size_forgetInterrupts, path_forgetInterrupts]
  split <;> rfl

theorem forgetInterrupts_bindParameters (s : Scopes) (i : ScopeId)
    (bindings : List (String × Int32)) :
    (s.bindParameters i bindings).forgetInterrupts =
      s.forgetInterrupts.bindParameters i bindings := by
  induction bindings generalizing s with
  | nil => rfl
  | cons binding bindings ih =>
    have own :
        (s.forgetInterrupts.scope i).valueOf? binding.1 = (s.scope i).valueOf? binding.1 := by
      rw [scope_forgetInterrupts]
      rfl
    simp only [bindParameters, own]
    split
    · exact ih s
    · rw [ih, forgetInterrupts_modify s i fun _ => rfl]

theorem define_forgetInterrupts (s : Scopes) (i : ScopeId) (name : String) (value : Int32) :
    s.forgetInterrupts.define i name value = (s.define i name value).map id forgetInterrupts := by
  have own : (s.forgetInterrupts.scope i).valueOf? name = (s.scope i).valueOf? name := by
    rw [scope_forgetInterrupts]
    rfl
  simp only [define, own]
  split
  · rfl
  · exact congrArg (Prod.mk (Except.ok ())) (s.forgetInterrupts_modify i fun _ => rfl).symm

theorem defineFunction_forgetInterrupts (s : Scopes) (i : ScopeId) (name : String)
    (function : Function) :
    s.forgetInterrupts.defineFunction i name function =
      (s.defineFunction i name function).map id forgetInterrupts := by
  have own : (s.forgetInterrupts.scope i).functionOf? name = (s.scope i).functionOf? name := by
    rw [scope_forgetInterrupts]
    rfl
  simp only [defineFunction, own]
  split
  · rfl
  · exact congrArg (Prod.mk (Except.ok ())) (s.forgetInterrupts_modify i fun _ => rfl).symm

theorem set_forgetInterrupts (s : Scopes) (i : ScopeId) (name : String) (value : Int32) :
    s.forgetInterrupts.set i name value = (s.set i name value).map id forgetInterrupts := by
  simp only [set, holder?_forgetInterrupts]
  split
  · rfl
  · exact congrArg (Prod.mk (Except.ok ())) (s.forgetInterrupts_modify _ fun _ => rfl).symm

end Scopes

/-- The scope that the effect interrupts. -/
def Effect.interrupts? : Effect → Option ScopeId
  | leave _ outer _ => some outer
  | interrupt i _ => some i
  | _ => none

/-- An effect interrupts no other scope, and takes back no interrupt. -/
theorem Effect.interrupt?_scopes (e : Effect) (s : Scopes) {j : ScopeId}
    (other : e.interrupts? ≠ some j) :
    ((e.scopes s).scope j).interrupt? = (s.scope j).interrupt? := by
  cases e with
  | nothing => rfl
  | write text => rfl
  | call captured bindings =>
    rw [scopes, Scopes.field_bindParameters Scope.interrupt? _ _ j _ fun _ _ _ => rfl,
      Scopes.interrupt?_child]
  | enter outer => exact Scopes.interrupt?_child s outer j
  | skip outer =>
    rw [scopes, Scopes.interrupt?_release, Scopes.interrupt?_child]
  | close inner => exact Scopes.interrupt?_release s inner j
  | leave inner outer value =>
    have ne : outer ≠ j := fun same => other (congrArg some same)
    rw [scopes, Scopes.interrupt?_release, Scopes.interrupt, Scopes.scope_modify_of_ne ne]
  | declare i name value => exact Scopes.field_modify Scope.interrupt? s i j fun _ => rfl
  | define i name function => exact Scopes.field_modify Scope.interrupt? s i j fun _ => rfl
  | assign i name value => exact Scopes.field_modify Scope.interrupt? s i j fun _ => rfl
  | interrupt i value =>
    have ne : i ≠ j := fun same => other (congrArg some same)
    rw [scopes, Scopes.interrupt, Scopes.scope_modify_of_ne ne]

def World.forgetInterrupts (w : World) : World :=
  { w with scopes := w.scopes.forgetInterrupts }

namespace Machine

/-- The scope that the next step interrupts: that of a return statement, or the one around a block
that has returned. -/
def interrupts? : Machine → Option ScopeId
  | ⟨.deliver _, .returns scope :: _, _⟩ => some scope
  | ⟨.deliver _, .sequence _ inner outer :: _, world⟩ =>
    if world.scopes.isInterrupted inner then some outer else none
  | _ => none

/-- The scopes that the first steps interrupt, in order. -/
def interrupted : (count : Nat) → Machine → List ScopeId
  | 0, _ => []
  | count + 1, m => m.interrupts?.toList ++ interrupted count m.step

/-! ## Steps and interrupts -/

/-- The scope that the next step interrupts is the one that its effect interrupts. -/
theorem interrupts?_of_moves {control control' : Control} {taken pushed : List Frame}
    {effect : Effect} {stack : List Frame} {world : World}
    (moves : Moves world.scopes control taken effect control' pushed) :
    interrupts? ⟨control, taken ++ stack, world⟩ = effect.interrupts? := by
  cases moves with
  | begins begins =>
    cases begins with
    | next running => simp [interrupts?, Effect.interrupts?, running]
    | loopTest loops => cases loops <;> rfl
    | argument calls => cases calls <;> rfl
    | _ => rfl
  | yields yields =>
    cases yields with
    | loop loops => cases loops <;> rfl
    | _ => rfl
  | fails fails =>
    cases fails with
    | declaration declares => cases declares <;> rfl
    | _ => rfl
  | write calls => cases calls <;> rfl
  | call calls => cases calls <;> rfl
  | mismatch calls => cases calls <;> rfl
  | declare declares => cases declares <;> rfl
  | close running => simp [interrupts?, Effect.interrupts?, running]
  | leave returned => simp [interrupts?, Effect.interrupts?, returned]
  | _ => rfl

/-- A step interrupts no scope but the one that `interrupts?` names, and takes back no interrupt. -/
theorem step_interrupt? {m : Machine} {j : ScopeId} (other : m.interrupts? ≠ some j) :
    (m.step.world.scopes.scope j).interrupt? = (m.world.scopes.scope j).interrupt? := by
  obtain ⟨-, same⟩ | ⟨control, taken, effect, control', pushed, stack, world, rfl, next, moves⟩ :=
    m.step_cases
  · rw [same]
  · rw [next]
    rw [interrupts?_of_moves moves] at other
    exact effect.interrupt?_scopes world.scopes other

/-- In a coherent machine the scope to be interrupted is not interrupted yet, and then it is. -/
theorem Coherent.interrupts?_spec {m : Machine} (h : m.Coherent) {i : ScopeId}
    (next : m.interrupts? = some i) :
    m.world.scopes.isInterrupted i = false ∧ m.step.world.scopes.isInterrupted i = true := by
  obtain ⟨⟨outcome, ended⟩, -⟩ |
    ⟨control, taken, effect, control', pushed, stack, world, rfl, step, moves⟩ := m.step_cases
  · obtain ⟨control, stack, world⟩ := m
    obtain ⟨empty, -⟩ := outcome?_eq_some_iff.mp ended
    cases empty
    cases control <;> cases next
  have marked {j : ScopeId} (old : j < world.scopes.size) (value : Int32) :
      (world.scopes.interrupt j value).isInterrupted j = true := by
    rw [Scopes.isInterrupted, Scopes.interrupt, Scopes.scope_modify_self old]
    rfl
  rw [step]
  rw [interrupts?_of_moves moves] at next
  cases moves with
  | leave returned =>
    cases next
    obtain ⟨created, younger, -, outside, -⟩ := h.of_sequence
    refine ⟨outside, ?_⟩
    rw [Effect.apply_scopes, Effect.scopes, Scopes.isInterrupted, Scopes.interrupt?_release]
    exact marked (Nat.lt_trans younger created) _
  | interrupt =>
    cases next
    cases h with
    | deliver part sound created running below =>
      cases below with
      | returns => exact ⟨running (.inl rfl), marked created _⟩
  | _ => cases next

/-- No scope is interrupted twice. -/
theorem Coherent.count_interrupted_le {m : Machine} (h : m.Coherent) (n : Nat) (i : ScopeId) :
    (m.interrupted n).count i ≤ if m.world.scopes.isInterrupted i then 0 else 1 := by
  induction n generalizing m with
  | zero => exact Nat.zero_le _
  | succ n ih =>
    have later := ih h.step
    rw [interrupted, List.count_append]
    by_cases next : m.interrupts? = some i
    · obtain ⟨before, after⟩ := h.interrupts?_spec next
      rw [after, if_pos rfl] at later
      rw [next, before, if_neg Bool.false_ne_true, Option.toList_some, List.count_singleton_self]
      omega
    · have same : m.step.world.scopes.isInterrupted i = m.world.scopes.isInterrupted i := by
        rw [Scopes.isInterrupted, step_interrupt? next, Scopes.isInterrupted]
      have none : m.interrupts?.toList.count i = 0 := by
        refine List.count_eq_zero.mpr fun hi => next ?_
        exact Option.mem_toList.mp hi
      rw [none, Nat.zero_add, ← same]
      exact later

end Machine

end FunLanguage
