import FunLanguage.Proofs.Coherence

/-!
# What an evaluation can touch

The scopes that an evaluation can see and those that it can bind something in are told by two sets:
`P`, which no path and no captured scope leads out of, and `Q`, a part of it that holds every scope
to come. A machine is `Within` them if it evaluates expressions only in scopes of `P`, and
statements and blocks only in scopes of `Q`.

A step keeps the machine within them, and what it changes is confined to them: a scope outside `P`
stays as it is, and one outside `Q` keeps all but the values of its variables
(`Within.respects_step`, `Within.respects_after`). Nothing is asked of the scopes that `P` leaves
out, nor is it of the closures anywhere if `P` is everything.
-/

namespace FunLanguage

/-! ## Scopes that keep their bindings -/

/-- The scope still lies where it lay, and binds the same variables and the same functions. -/
structure Scope.SameBindings (t t' : Scope) : Prop where
  ancestors : t'.ancestors = t.ancestors
  names : t'.values.map Prod.fst = t.values.map Prod.fst
  functions : t'.functions = t.functions

namespace Scope.SameBindings

theorem refl (t : Scope) : t.SameBindings t :=
  ⟨rfl, rfl, rfl⟩

theorem trans {t t' t'' : Scope} (h : t.SameBindings t') (h' : t'.SameBindings t'') :
    t.SameBindings t'' :=
  ⟨h'.ancestors.trans h.ancestors, h'.names.trans h.names, h'.functions.trans h.functions⟩

theorem setVariable (t : Scope) (name : String) (value : Int32) :
    t.SameBindings (t.setVariable name value) := by
  refine ⟨rfl, ?_, rfl⟩
  simp only [Scope.setVariable, List.map_map]
  refine List.map_congr_left fun b _ => ?_
  simp only [Function.comp_apply]
  split <;> rfl

end Scope.SameBindings

/-- The closure captures a scope of the set. -/
def Function.Inside (P : ScopeId → Prop) : Function → Prop
  | builtin _ => True
  | closure c => P c.scope

namespace Scopes

/-! ## Regions -/

/-- No path from `P` leads out of it, nor does a closure stored in `P`; and `P` holds all of `Q`, to
which every scope belongs that is yet to be created. -/
structure Region (P Q : ScopeId → Prop) (s : Scopes) : Prop where
  sub : ∀ i, Q i → P i
  new : ∀ i, s.size ≤ i → Q i
  ancestors : ∀ i, P i → ∀ j ∈ (s.scope i).ancestors, P j
  captures : ∀ i, P i → ∀ name c, (name, Function.closure c) ∈ (s.scope i).functions → P c.scope

/-- A scope outside `P` is as it was, and one outside `Q` has kept its bindings and
its interrupt. -/
structure Confined (P Q : ScopeId → Prop) (s s' : Scopes) : Prop where
  size : s.size ≤ s'.size
  outside : ∀ j, ¬ P j → s'.scope j = s.scope j
  bindings : ∀ j, ¬ Q j → (s.scope j).SameBindings (s'.scope j)
  interrupt? : ∀ j, ¬ Q j → (s'.scope j).interrupt? = (s.scope j).interrupt?

variable {P Q : ScopeId → Prop} {s s' s'' : Scopes} {i : ScopeId}

theorem mem_of_functionOf? {t : Scope} {name : String} {function : Function}
    (bound : t.functionOf? name = some function) : (name, function) ∈ t.functions := by
  obtain ⟨before, after, parts, -⟩ := List.lookup_eq_some_iff.mp bound
  rw [parts]
  exact List.mem_append_right _ (List.mem_cons_self ..)

namespace Region

theorem path (h : s.Region P Q) (inside : P i) : ∀ j ∈ s.path i, P j := by
  intro j hj
  rcases List.mem_cons.mp hj with rfl | hj
  · exact inside
  · exact h.ancestors i inside j hj

theorem captured (h : s.Region P Q) (inside : P i) {name : String} {c : Closure}
    (found : s.function? i name = some (.closure c)) : P c.scope := by
  obtain ⟨j, hj, bound⟩ := List.exists_of_findSome?_eq_some found
  exact h.captures j (h.path inside j hj) name c (mem_of_functionOf? bound)

theorem modify (h : s.Region P Q) (i : ScopeId) {f : Scope → Scope}
    (same : ∀ t, (f t).ancestors = t.ancestors)
    (captures : ∀ t name c, (name, Function.closure c) ∈ (f t).functions →
      (name, Function.closure c) ∈ t.functions ∨ P c.scope) : (s.modify i f).Region P Q := by
  refine ⟨h.sub, fun j le => h.new j (by simpa using le), fun j inside => ?_,
    fun j inside name c hc => ?_⟩
  · rw [field_modify Scope.ancestors s i j same]
    exact h.ancestors j inside
  · rw [scope_modify] at hc
    split at hc
    · rcases captures _ name c hc with old | new
      · exact h.captures j inside name c old
      · exact new
    · exact h.captures j inside name c hc

theorem addVariable (h : s.Region P Q) (i : ScopeId) (name : String) (value : Int32) :
    (s.modify i (·.addVariable name value)).Region P Q :=
  h.modify i (fun _ => rfl) fun _ _ _ old => .inl old

theorem setVariable (h : s.Region P Q) (i : ScopeId) (name : String) (value : Int32) :
    (s.modify i (·.setVariable name value)).Region P Q :=
  h.modify i (fun _ => rfl) fun _ _ _ old => .inl old

theorem addFunction (h : s.Region P Q) (i : ScopeId) (name : String) {function : Function}
    (inside : function.Inside P) : (s.modify i (·.addFunction name function)).Region P Q := by
  refine h.modify i (fun _ => rfl) fun t key c hc => ?_
  rcases List.mem_cons.mp hc with new | old
  · cases new
    exact .inr inside
  · exact .inl old

theorem interrupt (h : s.Region P Q) (i : ScopeId) (value : Int32) :
    (s.interrupt i value).Region P Q :=
  h.modify i (fun _ => rfl) fun _ _ _ old => .inl old

theorem release (h : s.Region P Q) (i : ScopeId) : (s.release i).Region P Q :=
  h.modify i (fun _ => rfl) fun _ _ _ none => nomatch none

theorem bindParameters (h : s.Region P Q) (i : ScopeId) (bindings : List (String × Int32)) :
    (s.bindParameters i bindings).Region P Q :=
  bindParameters_induction (fun _ name value h => h.addVariable i name value) bindings h

theorem child (h : s.Region P Q) {parent : ScopeId} (inside : P parent) :
    (s.child parent).2.Region P Q := by
  refine ⟨h.sub, fun j le => ?_, fun j hj => ?_, fun j hj name c hc => ?_⟩
  · simp only [size_child] at le
    exact h.new j (Nat.le_of_succ_le le)
  · rw [scope_child]
    split
    · exact h.path inside
    · exact h.ancestors j hj
  · rw [scope_child] at hc
    split at hc
    · cases hc
    · exact h.captures j hj name c hc

end Region

namespace Confined

theorem refl (P Q : ScopeId → Prop) (s : Scopes) : s.Confined P Q s :=
  ⟨Nat.le_refl _, fun _ _ => rfl, fun _ _ => .refl _, fun _ _ => rfl⟩

theorem trans (h : s.Confined P Q s') (h' : s'.Confined P Q s'') : s.Confined P Q s'' :=
  ⟨Nat.le_trans h.size h'.size, fun j out => (h'.outside j out).trans (h.outside j out),
    fun j out => (h.bindings j out).trans (h'.bindings j out),
    fun j out => (h'.interrupt? j out).trans (h.interrupt? j out)⟩

/-- In a scope of `Q` everything may change. -/
theorem modify (sub : ∀ i, Q i → P i) (s : Scopes) (inside : Q i) (f : Scope → Scope) :
    s.Confined P Q (s.modify i f) := by
  have other {j : ScopeId} (out : ¬ Q j) : (s.modify i f).scope j = s.scope j := by
    have ne : i ≠ j := fun same => out (same ▸ inside)
    exact scope_modify_of_ne ne f
  refine ⟨by simp, fun j out => other fun hj => out (sub j hj), fun j out => ?_, fun j out => ?_⟩
  · rw [other out]
    exact .refl _
  · rw [other out]

theorem setVariable (s : Scopes) (inside : P i) (name : String) (value : Int32) :
    s.Confined P Q (s.modify i (·.setVariable name value)) := by
  refine ⟨by simp, fun j out => ?_, fun j _ => ?_, fun j _ => ?_⟩
  · have ne : i ≠ j := fun same => out (same ▸ inside)
    exact scope_modify_of_ne ne _
  · rw [scope_modify]
    split
    · exact .setVariable ..
    · exact .refl _
  · exact field_modify Scope.interrupt? s i j fun _ => rfl

theorem child (region : s.Region P Q) (parent : ScopeId) : s.Confined P Q (s.child parent).2 := by
  have other {j : ScopeId} (out : ¬ Q j) : (s.child parent).2.scope j = s.scope j :=
    scope_child_of_ne parent fun same => out (region.new j (Nat.le_of_eq same.symm))
  refine ⟨by simp, fun j out => other fun hj => out (region.sub j hj), fun j out => ?_,
    fun j out => ?_⟩
  · rw [other out]
    exact .refl _
  · rw [other out]

theorem bindParameters (sub : ∀ i, Q i → P i) (s : Scopes) (inside : Q i)
    (bindings : List (String × Int32)) : s.Confined P Q (s.bindParameters i bindings) :=
  bindParameters_induction (motive := s.Confined P Q)
    (fun _ _ _ h => h.trans (modify sub _ inside _)) bindings (refl P Q s)

end Confined

end Scopes

/-! ## Machines within a region -/

def Control.Inside (P Q : ScopeId → Prop) : Control → Prop
  | evaluate (.expression _) i => P i
  | evaluate _ i => Q i
  | deliver _ => True
  | raise _ => True

def Frame.Inside (P Q : ScopeId → Prop) : Frame → Prop
  | leftOperand _ _ _ i => P i
  | rightOperand _ _ _ => True
  | argument function _ _ _ _ i => P i ∧ function.Inside P
  | call _ _ => True
  | result i => Q i
  | declaration _ _ i => Q i
  | assignment _ _ i => Q i
  | returns i => Q i
  | branch _ _ i => Q i
  | loopTest _ _ i => Q i
  | loopBody _ _ i => Q i
  | sequence _ inner outer => Q inner ∧ Q outer

/-- The effect binds only in scopes of the region, and sets variables only in scopes of `P`. -/
def Effect.Inside (P Q : ScopeId → Prop) : Effect → Prop
  | nothing => True
  | write _ => True
  | call captured _ => P captured
  | enter outer => P outer
  | skip outer => P outer
  | close inner => Q inner
  | leave inner outer _ => Q inner ∧ Q outer
  | declare i _ _ => Q i
  | define i _ function => Q i ∧ function.Inside P
  | assign i _ _ => P i
  | interrupt i _ => Q i

namespace Effect.Inside

variable {P Q : ScopeId → Prop} {s : Scopes} {e : Effect}

theorem region (inside : e.Inside P Q) (region : s.Region P Q) : (e.scopes s).Region P Q := by
  cases e with
  | nothing => exact region
  | write text => exact region
  | call captured bindings => exact (region.child inside).bindParameters _ _
  | enter outer => exact region.child inside
  | skip outer => exact (region.child inside).release _
  | close inner => exact region.release inner
  | leave inner outer value => exact (region.interrupt outer value).release inner
  | declare i name value => exact region.addVariable i name value
  | define i name function => exact region.addFunction i name inside.2
  | assign i name value => exact region.setVariable i name value
  | interrupt i value => exact region.interrupt i value

theorem confined (inside : e.Inside P Q) (region : s.Region P Q) :
    s.Confined P Q (e.scopes s) := by
  have created : Q s.size := region.new _ (Nat.le_refl _)
  cases e with
  | nothing => exact .refl P Q s
  | write text => exact .refl P Q s
  | call captured bindings =>
    exact (Scopes.Confined.child region captured).trans (.bindParameters region.sub _ created _)
  | enter outer => exact .child region outer
  | skip outer => exact (Scopes.Confined.child region outer).trans (.modify region.sub _ created _)
  | close inner => exact .modify region.sub s inside _
  | leave inner outer value =>
    exact (Scopes.Confined.modify region.sub s inside.2 _).trans (.modify region.sub _ inside.1 _)
  | declare i name value => exact .modify region.sub s inside _
  | define i name function => exact .modify region.sub s inside.1 _
  | assign i name value => exact .setVariable s inside name value
  | interrupt i value => exact .modify region.sub s inside _

end Effect.Inside

namespace Machine

/-- The machine works only in scopes of the region. -/
structure Within (P Q : ScopeId → Prop) (m : Machine) : Prop where
  control : m.control.Inside P Q
  stack : ∀ frame ∈ m.stack, frame.Inside P Q
  region : m.world.scopes.Region P Q

/-- The machine is within the region, and what has changed since `s` is confined to it. -/
structure Respects (P Q : ScopeId → Prop) (s : Scopes) (m : Machine) : Prop where
  within : m.Within P Q
  confined : s.Confined P Q m.world.scopes

/-! ### Moves -/

section Moves

variable {P Q : ScopeId → Prop} {s : Scopes} {control control' : Control}
  {taken pushed : List Frame} {name : String} {line : Nat} {i : ScopeId}
  (region : s.Region P Q) (here : control.Inside P Q) (above : ∀ frame ∈ taken, frame.Inside P Q)

include here above

theorem Loops.inside {condition : Expr} {body : Block}
    (loops : Loops control taken condition body i) : Q i := by
  cases loops with
  | begin => exact here
  | again => exact above _ List.mem_cons_self

theorem Declares.inside {value : Int32} (declares : Declares control taken name value line i) :
    Q i := by
  cases declares with
  | plain => exact here
  | valued => exact above _ List.mem_cons_self

include region

theorem Calls.inside {function : Function} {done : List Int32} {todo : List Expr}
    (calls : Calls s control taken function name line done todo i) : P i ∧ function.Inside P := by
  cases calls with
  | begin found =>
    refine ⟨here, ?_⟩
    cases function with
    | builtin b => trivial
    | closure c => exact region.captured here found
  | argument => exact above _ List.mem_cons_self

theorem Begins.inside {node : Node} (begins : Begins s control taken node i pushed) :
    (Control.evaluate node i).Inside P Q ∧ ∀ frame ∈ pushed, frame.Inside P Q := by
  cases begins with
  | next =>
    obtain ⟨inside, outside⟩ := above _ List.mem_cons_self
    exact ⟨inside, List.forall_mem_singleton.mpr ⟨inside, outside⟩⟩
  | program => exact ⟨here, List.forall_mem_singleton.mpr here⟩
  | expression => exact ⟨region.sub _ here, nofun⟩
  | declaration => exact ⟨region.sub _ here, List.forall_mem_singleton.mpr here⟩
  | assignment => exact ⟨region.sub _ here, List.forall_mem_singleton.mpr here⟩
  | returns => exact ⟨region.sub _ here, List.forall_mem_singleton.mpr here⟩
  | branch => exact ⟨region.sub _ here, List.forall_mem_singleton.mpr here⟩
  | chosen => exact ⟨above _ List.mem_cons_self, nofun⟩
  | loopTest loops =>
    have inside := loops.inside here above
    exact ⟨region.sub i inside, List.forall_mem_singleton.mpr inside⟩
  | loopBody =>
    have inside := above _ List.mem_cons_self
    exact ⟨inside, List.forall_mem_singleton.mpr inside⟩
  | leftOperand => exact ⟨here, List.forall_mem_singleton.mpr here⟩
  | rightOperand => exact ⟨above _ List.mem_cons_self, List.forall_mem_singleton.mpr trivial⟩
  | argument calls =>
    have inside := calls.inside region here above
    exact ⟨inside.1, List.forall_mem_singleton.mpr inside⟩

theorem Moves.inside {effect : Effect} (moves : Moves s control taken effect control' pushed) :
    control'.Inside P Q ∧ (∀ frame ∈ pushed, frame.Inside P Q) ∧ effect.Inside P Q := by
  cases moves with
  | begins begins =>
    obtain ⟨inside, waiting⟩ := begins.inside region here above
    exact ⟨inside, waiting, trivial⟩
  | yields => exact ⟨trivial, nofun, trivial⟩
  | fails => exact ⟨trivial, nofun, trivial⟩
  | write => exact ⟨trivial, List.forall_mem_singleton.mpr trivial, trivial⟩
  | call calls =>
    have created : Q s.size := region.new _ (Nat.le_refl _)
    exact ⟨created, List.forall_mem_cons.mpr ⟨created, List.forall_mem_singleton.mpr trivial⟩,
      (calls.inside region here above).2⟩
  | mismatch => exact ⟨trivial, List.forall_mem_singleton.mpr trivial, trivial⟩
  | enter =>
    have created : Q s.size := region.new _ (Nat.le_refl _)
    exact ⟨created, List.forall_mem_singleton.mpr ⟨created, here⟩, region.sub _ here⟩
  | skip => exact ⟨trivial, nofun, region.sub _ here⟩
  | close => exact ⟨trivial, nofun, (above _ List.mem_cons_self).1⟩
  | leave => exact ⟨trivial, nofun, above _ List.mem_cons_self⟩
  | abandon => exact ⟨trivial, nofun, (above _ List.mem_cons_self).1⟩
  | declare declares => exact ⟨trivial, nofun, declares.inside here above⟩
  | define => exact ⟨trivial, nofun, here, region.sub _ here⟩
  | assign holder =>
    have inside := region.sub _ (above _ List.mem_cons_self)
    exact ⟨trivial, nofun, region.path inside _ (List.mem_of_find?_eq_some holder)⟩
  | interrupt => exact ⟨trivial, nofun, above _ List.mem_cons_self⟩
  | rename => exact ⟨trivial, nofun, trivial⟩
  | pass => exact ⟨trivial, nofun, trivial⟩

end Moves

namespace Within

variable {P Q : ScopeId → Prop} {m : Machine}

theorem respects_step (h : m.Within P Q) : m.step.Respects P Q m.world.scopes := by
  obtain ⟨-, same⟩ | ⟨control, taken, effect, control', pushed, stack, world, rfl, next, moves⟩ :=
    m.step_cases
  · rw [same]
    exact ⟨h, .refl P Q _⟩
  · obtain ⟨above, below⟩ := List.forall_mem_append.mp h.stack
    obtain ⟨inside, waiting, touched⟩ := moves.inside h.region h.control above
    rw [next]
    exact ⟨⟨inside, List.forall_mem_append.mpr ⟨waiting, below⟩, touched.region h.region⟩,
      touched.confined h.region⟩

/-- However long a machine goes on, it stays within its region and changes nothing outside. -/
theorem respects_after (h : m.Within P Q) (n : Nat) : (m.after n).Respects P Q m.world.scopes := by
  induction n with
  | zero => exact ⟨h, .refl P Q _⟩
  | succ n ih =>
    have next := ih.within.respects_step
    rw [after_succ_eq_step]
    exact ⟨next.within, ih.confined.trans next.confined⟩

end Within

end Machine

end FunLanguage
