import FunLanguage.Proofs.Footprint

/-!
# Machines that see the same

Two machines may hold different scopes and still see the same: the scopes of `P` are the same in
both, but for their numbers, which a `Shift` moves up where one machine has created more scopes than
the other, and but for the interrupts of those that are not in `Q`. What else they hold does not
matter.

A machine that works within `P` and `Q` and one that mirrors it take the same steps
(`Machine.Mirrors.step`, `Machine.Mirrors.after`): they visit the same nodes, end in the same way
and write the same.
-/

namespace FunLanguage

/-! ## Numbers of scopes -/

/-- New numbers for scopes: those from `first` on are moved up by `gap`. -/
structure Shift where
  first : Nat
  gap : Nat

namespace Shift

def apply (ρ : Shift) (i : Nat) : Nat :=
  if i < ρ.first then i else i + ρ.gap

instance : CoeFun Shift fun _ => Nat → Nat := ⟨apply⟩

variable {ρ : Shift} {i j n : Nat}

theorem apply_of_lt (lt : i < ρ.first) : ρ i = i :=
  if_pos lt

theorem apply_of_le (le : ρ.first ≤ i) : ρ i = i + ρ.gap :=
  if_neg (Nat.not_lt_of_le le)

theorem apply_of_gap (none : ρ.gap = 0) (i : Nat) : ρ i = i := by
  unfold apply
  split
  · rfl
  · omega

theorem apply_inj : ρ i = ρ j ↔ i = j := by
  unfold apply
  split <;> split <;> omega

theorem apply_lt_iff (le : ρ.first ≤ n) : ρ i < n + ρ.gap ↔ i < n := by
  unfold apply
  split <;> omega

end Shift

variable {ρ : Shift}

def Closure.shift (ρ : Shift) (c : Closure) : Closure :=
  { c with scope := ρ c.scope }

def Function.shift (ρ : Shift) : Function → Function
  | builtin b => .builtin b
  | closure c => .closure (c.shift ρ)

def Control.shift (ρ : Shift) : Control → Control
  | evaluate node i => .evaluate node (ρ i)
  | deliver value => .deliver value
  | raise fault => .raise fault

def Frame.shift (ρ : Shift) : Frame → Frame
  | leftOperand operator right line i => .leftOperand operator right line (ρ i)
  | rightOperand operator left line => .rightOperand operator left line
  | argument function name line done todo i =>
    .argument (function.shift ρ) name line done todo (ρ i)
  | call name line => .call name line
  | result i => .result (ρ i)
  | declaration name line i => .declaration name line (ρ i)
  | assignment name line i => .assignment name line (ρ i)
  | returns i => .returns (ρ i)
  | branch body otherwise? i => .branch body otherwise? (ρ i)
  | loopTest condition body i => .loopTest condition body (ρ i)
  | loopBody condition body i => .loopBody condition body (ρ i)
  | sequence rest inner outer => .sequence rest (ρ inner) (ρ outer)

/-! ## A single scope -/

/-- The scopes hold the same, but for the numbers of scopes. -/
structure Scope.Mirrors (ρ : Shift) (t t' : Scope) : Prop where
  ancestors : t'.ancestors = t.ancestors.map ρ
  valueOf? : ∀ name, t'.valueOf? name = t.valueOf? name
  functionOf? : ∀ name, t'.functionOf? name = (t.functionOf? name).map (Function.shift ρ)

namespace Scope.Mirrors

variable {t t' : Scope}

theorem addVariable (h : t.Mirrors ρ t') (name : String) (value : Int32) :
    (t.addVariable name value).Mirrors ρ (t'.addVariable name value) := by
  refine ⟨h.ancestors, fun key => ?_, h.functionOf?⟩
  rw [valueOf?_addVariable, valueOf?_addVariable, h.valueOf?]

theorem setVariable (h : t.Mirrors ρ t') (name : String) (value : Int32) :
    (t.setVariable name value).Mirrors ρ (t'.setVariable name value) := by
  refine ⟨h.ancestors, fun key => ?_, h.functionOf?⟩
  rw [valueOf?_setVariable, valueOf?_setVariable, h.valueOf?]

theorem addFunction (h : t.Mirrors ρ t') (name : String) (function : Function) :
    (t.addFunction name function).Mirrors ρ (t'.addFunction name (function.shift ρ)) := by
  refine ⟨h.ancestors, h.valueOf?, fun key => ?_⟩
  rw [functionOf?_addFunction, functionOf?_addFunction, h.functionOf?]
  split <;> rfl

end Scope.Mirrors

namespace Scopes

/-! ## All scopes -/

/-- The scopes of `P` are the same but for their numbers, and so are the interrupts of those
in `Q`. -/
structure Mirrors (ρ : Shift) (P Q : ScopeId → Prop) (s s' : Scopes) : Prop where
  size : s'.size = s.size + ρ.gap
  first : ρ.first ≤ s.size
  scope : ∀ i, P i → (s.scope i).Mirrors ρ (s'.scope (ρ i))
  interrupt? : ∀ i, Q i → (s'.scope (ρ i)).interrupt? = (s.scope i).interrupt?

namespace Mirrors

variable {P Q : ScopeId → Prop} {s s' : Scopes} {i : ScopeId}

/-- The next scope that the one creates is the next that the other creates. -/
theorem size_eq (h : s.Mirrors ρ P Q s') : s'.size = ρ s.size := by
  rw [h.size, Shift.apply_of_le h.first]

/-- Scopes that are yet to be created are the same: they hold nothing. -/
theorem of_created (size : s'.size = s.size + ρ.gap) (first : ρ.first ≤ s.size)
    (scope : ∀ i < s.size, P i → (s.scope i).Mirrors ρ (s'.scope (ρ i)))
    (interrupt? : ∀ i < s.size, Q i → (s'.scope (ρ i)).interrupt? = (s.scope i).interrupt?) :
    s.Mirrors ρ P Q s' := by
  have nothing {i : ScopeId} (new : s.size ≤ i) : s.scope i = {} ∧ s'.scope (ρ i) = {} := by
    refine ⟨scope_of_size_le new, scope_of_size_le ?_⟩
    rw [size, Shift.apply_of_le (Nat.le_trans first new)]
    exact Nat.add_le_add_right new ρ.gap
  refine ⟨size, first, fun i inside => ?_, fun i inside => ?_⟩
  · rcases Nat.lt_or_ge i s.size with created | new
    · exact scope i created inside
    · rw [(nothing new).1, (nothing new).2]
      exact ⟨rfl, fun _ => rfl, fun _ => rfl⟩
  · rcases Nat.lt_or_ge i s.size with created | new
    · exact interrupt? i created inside
    · rw [(nothing new).1, (nothing new).2]

theorem path (h : s.Mirrors ρ P Q s') (inside : P i) : s'.path (ρ i) = (s.path i).map ρ :=
  congrArg (ρ i :: ·) (h.scope i inside).ancestors

theorem isInterrupted (h : s.Mirrors ρ P Q s') (inside : Q i) :
    s'.isInterrupted (ρ i) = s.isInterrupted i := by
  rw [Scopes.isInterrupted, h.interrupt? i inside, Scopes.isInterrupted]

theorem result (h : s.Mirrors ρ P Q s') (inside : Q i) : s'.result (ρ i) = s.result i := by
  rw [Scopes.result, h.interrupt? i inside, Scopes.result]

/-! ### Look-up -/

section LookUp

variable (h : s.Mirrors ρ P Q s') (region : s.Region P Q) (inside : P i) (name : String)

include h region inside

theorem get? : s'.get? (ρ i) name = s.get? i name := by
  rw [Scopes.get?, h.path inside, List.findSome?_map, Scopes.get?]
  exact findSome?_congr fun j hj => (h.scope j (region.path inside j hj)).valueOf? name

theorem holder? : s'.holder? (ρ i) name = (s.holder? i name).map ρ := by
  rw [Scopes.holder?, h.path inside, List.find?_map, Scopes.holder?,
    List.find?_eq_findSome?_guard, List.find?_eq_findSome?_guard]
  refine congrArg (Option.map ρ) (findSome?_congr fun j hj => ?_)
  simp only [Option.guard, Function.comp_apply,
    (h.scope j (region.path inside j hj)).valueOf? name]

theorem function? : s'.function? (ρ i) name = (s.function? i name).map (Function.shift ρ) := by
  rw [Scopes.function?, h.path inside, List.findSome?_map, Scopes.function?, List.map_findSome?]
  exact findSome?_congr fun j hj => (h.scope j (region.path inside j hj)).functionOf? name

end LookUp

/-! ### Changes -/

/-- Both change the same scope in the same way. -/
theorem modify (h : s.Mirrors ρ P Q s') (i : ScopeId) {f f' : Scope → Scope}
    (scope : ∀ t t', t.Mirrors ρ t' → (f t).Mirrors ρ (f' t'))
    (interrupt? : ∀ t t', t'.interrupt? = t.interrupt? → (f' t').interrupt? = (f t).interrupt?) :
    (s.modify i f).Mirrors ρ P Q (s'.modify (ρ i) f') := by
  have here (j : ScopeId) : (ρ i = ρ j ∧ ρ j < s'.size) ↔ (i = j ∧ j < s.size) := by
    rw [Shift.apply_inj, h.size, Shift.apply_lt_iff h.first]
  refine ⟨by simp [h.size], by simpa using h.first, fun j inside => ?_, fun j inside => ?_⟩
  · simp only [scope_modify, here j]
    split
    · exact scope _ _ (h.scope j inside)
    · exact h.scope j inside
  · simp only [scope_modify, here j]
    split
    · exact interrupt? _ _ (h.interrupt? j inside)
    · exact h.interrupt? j inside

theorem addVariable (h : s.Mirrors ρ P Q s') (i : ScopeId) (name : String) (value : Int32) :
    (s.modify i (·.addVariable name value)).Mirrors ρ P Q
      (s'.modify (ρ i) (·.addVariable name value)) :=
  h.modify i (fun _ _ same => same.addVariable name value) fun _ _ same => same

theorem interrupt (h : s.Mirrors ρ P Q s') (i : ScopeId) (value : Int32) :
    (s.interrupt i value).Mirrors ρ P Q (s'.interrupt (ρ i) value) :=
  h.modify i (fun _ _ same => ⟨same.ancestors, same.valueOf?, same.functionOf?⟩) fun _ _ _ => rfl

theorem release (h : s.Mirrors ρ P Q s') (i : ScopeId) :
    (s.release i).Mirrors ρ P Q (s'.release (ρ i)) :=
  h.modify i (fun _ _ same => ⟨same.ancestors, same.valueOf?, fun _ => rfl⟩) fun _ _ same => same

theorem child (h : s.Mirrors ρ P Q s') {parent : ScopeId} (inside : P parent) :
    (s.child parent).2.Mirrors ρ P Q (s'.child (ρ parent)).2 := by
  have here (j : ScopeId) : ρ j = s'.size ↔ j = s.size := by
    rw [h.size_eq, Shift.apply_inj]
  refine ⟨by simp [h.size]; omega, by simpa using Nat.le_succ_of_le h.first, fun j hj => ?_,
    fun j hj => ?_⟩
  · simp only [scope_child, here j]
    split
    · exact ⟨h.path inside, fun _ => rfl, fun _ => rfl⟩
    · exact h.scope j hj
  · simp only [scope_child, here j]
    split
    · rfl
    · exact h.interrupt? j hj

theorem bindParameters (h : s.Mirrors ρ P Q s') (inside : P i)
    (bindings : List (String × Int32)) :
    (s.bindParameters i bindings).Mirrors ρ P Q (s'.bindParameters (ρ i) bindings) := by
  induction bindings generalizing s s' with
  | nil => exact h
  | cons binding bindings ih =>
    simp only [Scopes.bindParameters, (h.scope i inside).valueOf?]
    split
    · exact ih h
    · exact ih (h.addVariable i binding.1 binding.2)

end Mirrors

end Scopes

def Effect.shift (ρ : Shift) : Effect → Effect
  | nothing => .nothing
  | write text => .write text
  | call captured bindings => .call (ρ captured) bindings
  | enter outer => .enter (ρ outer)
  | skip outer => .skip (ρ outer)
  | close inner => .close (ρ inner)
  | leave inner outer value => .leave (ρ inner) (ρ outer) value
  | declare i name value => .declare (ρ i) name value
  | define i name function => .define (ρ i) name (function.shift ρ)
  | assign i name value => .assign (ρ i) name value
  | interrupt i value => .interrupt (ρ i) value

theorem Effect.written_shift (e : Effect) : (e.shift ρ).written = e.written := by
  cases e <;> rfl

/-- Both have the same effect. -/
theorem Effect.Inside.mirrors {P Q : ScopeId → Prop} {s s' : Scopes} {e : Effect}
    (inside : e.Inside P Q) (region : s.Region P Q) (h : s.Mirrors ρ P Q s') :
    (e.scopes s).Mirrors ρ P Q ((e.shift ρ).scopes s') := by
  cases e with
  | nothing => exact h
  | write text => exact h
  | call captured bindings =>
    have created : P s.size := region.sub _ (region.new _ (Nat.le_refl _))
    rw [shift, scopes, scopes, h.size_eq]
    exact (h.child inside).bindParameters created bindings
  | enter outer => exact h.child inside
  | skip outer =>
    rw [shift, scopes, scopes, h.size_eq]
    exact (h.child inside).release s.size
  | close inner => exact h.release inner
  | leave inner outer value => exact (h.interrupt outer value).release inner
  | declare i name value => exact h.addVariable i name value
  | define i name function =>
    exact h.modify i (fun _ _ same => same.addFunction name function) fun _ _ same => same
  | assign i name value =>
    exact h.modify i (fun _ _ same => same.setVariable name value) fun _ _ same => same
  | interrupt i value => exact h.interrupt i value

/-- The worlds are the same to those who see `P` and the interrupts of `Q`. -/
structure World.Mirrors (ρ : Shift) (P Q : ScopeId → Prop) (w w' : World) : Prop where
  output : w'.output = w.output
  scopes : w.scopes.Mirrors ρ P Q w'.scopes

namespace Machine

/-! ## Machines -/

/-- Both machines are about to do the same, with the same frames waiting, in worlds that are the
same to them. -/
structure Mirrors (ρ : Shift) (P Q : ScopeId → Prop) (m m' : Machine) : Prop where
  control : m'.control = m.control.shift ρ
  stack : m'.stack = m.stack.map (Frame.shift ρ)
  world : m.world.Mirrors ρ P Q m'.world

namespace Mirrors

variable {P Q : ScopeId → Prop} {i : ScopeId} {stack : List Frame} {world world' : World}

theorem outcome? {m m' : Machine} (h : Mirrors ρ P Q m m') : m'.outcome? = m.outcome? := by
  obtain ⟨control, stack, world⟩ := m
  obtain ⟨control', stack', world'⟩ := m'
  obtain ⟨rfl, rfl, -⟩ := h
  cases control <;> cases stack <;> rfl

end Mirrors

/-! ### Moves -/

section Moves

variable {P Q : ScopeId → Prop} {s s' : Scopes} {control control' : Control}
  {taken pushed : List Frame} {name : String} {line : Nat} {i : ScopeId}

theorem Loops.shift {condition : Expr} {body : Block}
    (loops : Loops control taken condition body i) :
    Loops (control.shift ρ) (taken.map (Frame.shift ρ)) condition body (ρ i) := by
  cases loops with
  | begin => exact .begin
  | again => exact .again

theorem Declares.shift {value : Int32} (declares : Declares control taken name value line i) :
    Declares (control.shift ρ) (taken.map (Frame.shift ρ)) name value line (ρ i) := by
  cases declares with
  | plain => exact .plain
  | valued => exact .valued

variable (h : s.Mirrors ρ P Q s') (region : s.Region P Q) (here : control.Inside P Q)
  (above : ∀ frame ∈ taken, frame.Inside P Q)

include h region here

theorem Calls.shift {function : Function} {done : List Int32} {todo : List Expr}
    (calls : Calls s control taken function name line done todo i) :
    Calls s' (control.shift ρ) (taken.map (Frame.shift ρ)) (function.shift ρ) name line done todo
      (ρ i) := by
  cases calls with
  | begin found =>
    refine .begin ?_
    rw [h.function? region here, found]
    rfl
  | argument => exact .argument

include above

theorem Begins.shift {node : Node} (begins : Begins s control taken node i pushed) :
    Begins s' (control.shift ρ) (taken.map (Frame.shift ρ)) node (ρ i)
      (pushed.map (Frame.shift ρ)) := by
  cases begins with
  | next running =>
    refine .next ?_
    rw [h.isInterrupted (above _ List.mem_cons_self).1, running]
  | loopTest loops running =>
    refine .loopTest loops.shift ?_
    rw [h.isInterrupted (loops.inside here above), running]
  | argument calls => exact .argument (calls.shift h region here)
  | program => exact .program
  | expression => exact .expression
  | declaration => exact .declaration
  | assignment => exact .assignment
  | returns => exact .returns
  | branch => exact .branch
  | chosen chosen => exact .chosen chosen
  | loopBody holds => exact .loopBody holds
  | leftOperand => exact .leftOperand
  | rightOperand => exact .rightOperand

theorem Yields.shift {value : Int32} (yields : Yields s control taken value) :
    Yields s' (control.shift ρ) (taken.map (Frame.shift ρ)) value := by
  cases yields with
  | literal => exact .literal
  | identifier bound => exact .identifier ((h.get? region here _).trans bound)
  | operator applied => exact .operator applied
  | call => exact .call
  | @result _ i =>
    rw [← h.result (above _ List.mem_cons_self)]
    exact .result
  | branch none => exact .branch none
  | loopTest => exact .loopTest
  | loop loops returned =>
    refine .loop loops.shift ?_
    rw [h.isInterrupted (loops.inside here above), returned]

theorem Fails.shift {fault : Fault} (fails : Fails s control taken fault) :
    Fails s' (control.shift ρ) (taken.map (Frame.shift ρ)) fault := by
  cases fails with
  | identifier unbound => exact .identifier ((h.get? region here _).trans unbound)
  | target unbound =>
    refine .target ?_
    rw [h.holder? region (region.sub _ (above _ List.mem_cons_self)), unbound]
    rfl
  | function unbound =>
    refine .function ?_
    rw [h.function? region here, unbound]
    rfl
  | declaration declares bound =>
    refine .declaration declares.shift ?_
    rw [(h.scope _ (region.sub _ (declares.inside here above))).valueOf?, bound]
  | definition bound =>
    refine .definition ?_
    rw [(h.scope _ (region.sub _ here)).functionOf?, Option.isSome_map, bound]
  | operator undefined => exact .operator undefined

theorem Moves.shift {effect : Effect} (moves : Moves s control taken effect control' pushed) :
    Moves s' (control.shift ρ) (taken.map (Frame.shift ρ)) (effect.shift ρ) (control'.shift ρ)
      (pushed.map (Frame.shift ρ)) := by
  cases moves with
  | begins begins => exact .begins (begins.shift h region here above)
  | yields yields => exact .yields (yields.shift h region here above)
  | fails fails => exact .fails (fails.shift h region here above)
  | write calls => exact .write (calls.shift h region here)
  | call calls fits =>
    have moves := Moves.call (calls.shift h region here) fits
    rw [h.size_eq] at moves
    exact moves
  | mismatch calls differ =>
    have moves := Moves.mismatch (calls.shift h region here) differ
    exact moves
  | @enter _ _ _ i statements =>
    have moves : Moves s' (.evaluate _ (ρ i)) [] _ _ _ := .enter statements
    rw [h.size_eq] at moves
    exact moves
  | skip empty => exact .skip empty
  | close running =>
    refine .close ?_
    rw [h.isInterrupted (above _ List.mem_cons_self).1, running]
  | leave returned =>
    have inside := (above _ List.mem_cons_self).1
    rw [← h.result inside]
    refine .leave ?_
    rw [h.isInterrupted inside, returned]
  | abandon => exact .abandon
  | declare declares free =>
    refine .declare declares.shift ?_
    rw [(h.scope _ (region.sub _ (declares.inside here above))).valueOf?, free]
  | define free =>
    refine .define ?_
    rw [(h.scope _ (region.sub _ here)).functionOf?, Option.isSome_map, free]
  | assign holder =>
    refine .assign ?_
    rw [h.holder? region (region.sub _ (above _ List.mem_cons_self)), holder]
    rfl
  | interrupt => exact .interrupt
  | rename => exact .rename
  | @pass fault frame passes =>
    refine .pass ?_
    cases frame with
    | call => exact passes
    | sequence => exact passes
    | _ => trivial

end Moves

/-! ### Steps -/

namespace Mirrors

variable {P Q : ScopeId → Prop} {m m' : Machine}

theorem step (h : Mirrors ρ P Q m m') (within : m.Within P Q) : Mirrors ρ P Q m.step m'.step := by
  obtain ⟨⟨outcome, ended⟩, same⟩ |
    ⟨control, taken, effect, control', pushed, stack, world, rfl, next, moves⟩ := m.step_cases
  · rwa [same, step_of_outcome? (h.outcome?.trans ended)]
  · obtain ⟨control, stack, world'⟩ := m'
    obtain ⟨rfl, rfl, alike⟩ := h
    obtain ⟨above, -⟩ := List.forall_mem_append.mp within.stack
    have moves' := moves.shift alike.scopes within.region within.control above
    obtain ⟨-, -, touched⟩ := moves.inside within.region within.control above
    rw [next, List.map_append, step_of_moves _ world' moves']
    refine ⟨rfl, List.map_append.symm, ?_, touched.mirrors within.region alike.scopes⟩
    rw [Effect.apply, Effect.apply, alike.output, effect.written_shift]

theorem after (h : Mirrors ρ P Q m m') (within : m.Within P Q) (n : Nat) :
    Mirrors ρ P Q (m.after n) (m'.after n) := by
  induction n with
  | zero => exact h
  | succ n ih =>
    rw [after_succ_eq_step, after_succ_eq_step]
    exact ih.step (within.respects_after n).within

theorem visit? (h : Mirrors ρ P Q m m') :
    m'.visit? = m.visit?.map fun (node, i) => (node, ρ i) := by
  obtain ⟨control, stack, world⟩ := m
  obtain ⟨control', stack', world'⟩ := m'
  obtain ⟨rfl, rfl, -⟩ := h
  cases control with
  | evaluate node i =>
    simp only [Control.shift, Machine.visit?]
    split <;> rfl
  | deliver value => rfl
  | raise fault => rfl

end Mirrors

end Machine

end FunLanguage
