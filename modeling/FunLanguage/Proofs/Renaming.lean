import Mathlib.Logic.Equiv.Basic
import FunLanguage.Proofs.Debugging
import FunLanguage.Proofs.Relabelling

/-!
# Runs of programs with other names

A step of a machine and a relabelling of it can be done in either order (`Machine.step_relabel`), so
the machines of a program and of the relabelled program go on side by side.

A fault does not say whether its name is one of a variable or of a function. This is known when it
is raised, from what the machine is about to do (`Machine.nameSpace`), and it is what the name
stands for in the node that causes the fault (`Machine.Explained`). So the names in a program matter
only in so far as they are the same or not (`Machine.names_are_arbitrary`).
-/

namespace FunLanguage

/-! ## Machines -/

/-- The control relabelled. A fault that is raised has a name of the given space. -/
def Control.relabel (r : Relabelling) (space : NameSpace) : Control → Control
  | evaluate node i => .evaluate (node.relabel r) i
  | deliver value => .deliver value
  | raise fault => .raise (fault.relabel r space)

def Frame.relabel (r : Relabelling) : Frame → Frame
  | leftOperand op right line i => .leftOperand op (right.relabel r) (r.line line) i
  | rightOperand op left line => .rightOperand op left (r.line line)
  | argument function name line done todo i =>
    .argument (function.relabel r) (r.name .functions name) (r.line line) done
      (todo.map (Expr.relabel r)) i
  | call name line => .call (r.name .functions name) (r.line line)
  | result i => .result i
  | declaration name line i => .declaration (r.name .values name) (r.line line) i
  | assignment name line i => .assignment (r.name .values name) (r.line line) i
  | returns i => .returns i
  | branch body otherwise? i => .branch (body.relabel r) (otherwise?.map (Block.relabel r)) i
  | loopTest condition body i => .loopTest (condition.relabel r) (body.relabel r) i
  | loopBody condition body i => .loopBody (condition.relabel r) (body.relabel r) i
  | sequence rest inner outer => .sequence (rest.map (Stmt.relabel r)) inner outer

def Effect.relabel (r : Relabelling) : Effect → Effect
  | call captured bindings => .call captured (bindings.map (Prod.map (r.name .values) id))
  | declare i name value => .declare i (r.name .values name) value
  | define i name function => .define i (r.name .functions name) (function.relabel r)
  | assign i name value => .assign i (r.name .values name) value
  | e => e

/-- What an effect leaves is relabelled, and what it writes stays the same. -/
theorem Effect.apply_relabel {r : Relabelling} (faithful : r.Faithful) (e : Effect) (w : World) :
    (e.relabel r).apply (w.relabel r) = (e.apply w).relabel r := by
  have scopes : (e.relabel r).scopes (w.scopes.relabel r) = (e.scopes w.scopes).relabel r := by
    cases e with
    | nothing => rfl
    | write text => rfl
    | call captured bindings =>
      rw [relabel, Effect.scopes, Scopes.child_relabel, Scopes.size_relabel,
        Scopes.bindParameters_relabel faithful, Effect.scopes]
    | enter outer => exact Scopes.child_relabel w.scopes outer
    | skip outer =>
      show ((w.scopes.relabel r).child outer).2.release (w.scopes.relabel r).size = _
      rw [Scopes.child_relabel, Scopes.size_relabel, Scopes.release_relabel, Effect.scopes]
    | close inner => exact Scopes.release_relabel w.scopes inner
    | leave inner outer value =>
      show ((w.scopes.relabel r).interrupt outer value).release inner = _
      rw [Scopes.interrupt_relabel, Scopes.release_relabel, Effect.scopes]
    | declare i name value => exact w.scopes.modify_relabel i fun _ => rfl
    | define i name function => exact w.scopes.modify_relabel i fun _ => rfl
    | assign i name value =>
      exact w.scopes.modify_relabel i fun t => t.setVariable_relabel faithful name value
    | interrupt i value => exact Scopes.interrupt_relabel w.scopes i value
  have written : (e.relabel r).written = e.written := by
    cases e <;> rfl
  rw [apply, apply, World.relabel, scopes, written, World.relabel]

namespace Machine

/-- The machine relabelled. A fault that is raised has a name of the given space. -/
def relabel (r : Relabelling) (space : NameSpace) (m : Machine) : Machine :=
  ⟨m.control.relabel r space, m.stack.map (Frame.relabel r), m.world.relabel r⟩

/-! ## Moves of relabelled machines -/

variable {r : Relabelling}

section Moves

variable {s : Scopes} {control control' : Control} {taken pushed : List Frame} {name : String}
  {line : Nat} {i : ScopeId} (space : NameSpace)

theorem Loops.relabel {condition : Expr} {body : Block}
    (loops : Loops control taken condition body i) :
    Loops (control.relabel r space) (taken.map (Frame.relabel r)) (condition.relabel r)
      (body.relabel r) i := by
  cases loops with
  | begin => exact .begin
  | again => exact .again

theorem Declares.relabel {value : Int32} (declares : Declares control taken name value line i) :
    Declares (control.relabel r space) (taken.map (Frame.relabel r)) (r.name .values name) value
      (r.line line) i := by
  cases declares with
  | plain => exact .plain
  | valued => exact .valued

variable (faithful : r.Faithful)

include faithful

theorem Calls.relabel {function : Function} {done : List Int32} {todo : List Expr}
    (calls : Calls s control taken function name line done todo i) :
    Calls (s.relabel r) (control.relabel r space) (taken.map (Frame.relabel r))
      (function.relabel r) (r.name .functions name) (r.line line) done (todo.map (Expr.relabel r))
      i := by
  cases calls with
  | begin found =>
    rw [← Expr.listRelabel_eq_map]
    refine .begin ?_
    rw [Scopes.function?_relabel faithful, found]
    rfl
  | argument => exact .argument

theorem Begins.relabel {node : Node} (begins : Begins s control taken node i pushed) :
    Begins (s.relabel r) (control.relabel r space) (taken.map (Frame.relabel r)) (node.relabel r) i
      (pushed.map (Frame.relabel r)) := by
  cases begins with
  | next running => exact .next ((Scopes.isInterrupted_relabel ..).trans running)
  | loopTest loops running =>
    exact .loopTest (loops.relabel space) ((Scopes.isInterrupted_relabel ..).trans running)
  | argument calls => exact .argument (calls.relabel space faithful)
  | branch =>
    rw [Control.relabel, Node.relabel, Stmt.relabel_branch]
    exact .branch
  | chosen chosen =>
    exact .chosen ((apply_ite (Option.map _) ..).symm.trans (congrArg (Option.map _) chosen))
  | program => exact .program
  | expression => exact .expression
  | declaration => exact .declaration
  | assignment => exact .assignment
  | returns => exact .returns
  | loopBody holds => exact .loopBody holds
  | leftOperand => exact .leftOperand
  | rightOperand => exact .rightOperand

theorem Yields.relabel {value : Int32} (yields : Yields s control taken value) :
    Yields (s.relabel r) (control.relabel r space) (taken.map (Frame.relabel r)) value := by
  cases yields with
  | literal => exact .literal
  | identifier bound => exact .identifier ((Scopes.get?_relabel faithful ..).trans bound)
  | operator applied => exact .operator applied
  | call => exact .call
  | result =>
    rw [← Scopes.result_relabel]
    exact .result
  | branch none =>
    exact .branch ((apply_ite (Option.map _) ..).symm.trans (congrArg (Option.map _) none))
  | loopTest => exact .loopTest
  | loop loops returned =>
    exact .loop (loops.relabel space) ((Scopes.isInterrupted_relabel ..).trans returned)

variable (stack : List Frame) (world : World)

theorem Fails.relabel {fault : Fault} (fails : Fails s control taken fault) :
    Fails (s.relabel r) (control.relabel r space) (taken.map (Frame.relabel r))
      (fault.relabel r (nextSpace space ⟨control, taken ++ stack, world⟩)) := by
  cases fails with
  | identifier unbound => exact .identifier ((Scopes.get?_relabel faithful ..).trans unbound)
  | target unbound => exact .target ((Scopes.holder?_relabel faithful ..).trans unbound)
  | function unbound =>
    refine .function ?_
    rw [Scopes.function?_relabel faithful, unbound]
    rfl
  | declaration declares bound =>
    rw [← Scope.valueOf?_relabel faithful, ← Scopes.scope_relabel] at bound
    cases declares with
    | plain => exact .declaration .plain bound
    | valued => exact .declaration .valued bound
  | definition bound =>
    refine .definition ?_
    rwa [Scopes.scope_relabel, Scope.functionOf?_relabel faithful, Option.isSome_map]
  | operator undefined => exact .operator undefined

theorem Moves.relabel {effect : Effect} (moves : Moves s control taken effect control' pushed) :
    Moves (s.relabel r) (control.relabel r space) (taken.map (Frame.relabel r)) (effect.relabel r)
      (control'.relabel r (nextSpace space ⟨control, taken ++ stack, world⟩))
      (pushed.map (Frame.relabel r)) := by
  have size := s.size_relabel (r := r)
  have same (fault : Fault) (stack : List Frame) :
      (Control.raise fault).relabel r (nextSpace space ⟨.raise fault, stack, world⟩) =
        (Control.raise fault).relabel r space := by
    cases fault <;> rfl
  cases moves with
  | begins begins => exact .begins (begins.relabel space faithful)
  | yields yields => exact .yields (yields.relabel space faithful)
  | fails fails => exact .fails (fails.relabel space faithful stack world)
  | write calls => exact .write (calls.relabel space faithful)
  | call calls fits =>
    have moves := Moves.call (calls.relabel space faithful)
      (fits.trans (List.length_map (r.name .values)).symm)
    rw [size, Closure.relabel, List.zip_map_left] at moves
    exact moves
  | @mismatch _ _ c _ _ _ _ calls differ =>
    have count : (c.relabel r).parameters.length = c.parameters.length := List.length_map _
    rw [← count] at differ ⊢
    exact .mismatch (calls.relabel space faithful) differ
  | enter statements =>
    rw [← size]
    refine .enter ?_
    rw [Block.relabel_statements, statements, List.map_cons]
  | skip empty =>
    refine .skip ?_
    rw [Block.relabel_statements, empty, List.map_nil]
  | close running => exact .close ((Scopes.isInterrupted_relabel ..).trans running)
  | leave returned =>
    rw [← Scopes.result_relabel]
    exact .leave ((Scopes.isInterrupted_relabel ..).trans returned)
  | abandon =>
    rw [same]
    exact .abandon
  | declare declares free =>
    refine .declare (declares.relabel space) ?_
    rwa [Scopes.scope_relabel, Scope.valueOf?_relabel faithful]
  | define free =>
    refine .define ?_
    rwa [Scopes.scope_relabel, Scope.functionOf?_relabel faithful, Option.isSome_map]
  | assign holder => exact .assign ((Scopes.holder?_relabel faithful ..).trans holder)
  | interrupt => exact .interrupt
  | rename => exact .rename
  | @pass fault frame passes =>
    rw [same]
    refine .pass ?_
    cases frame with
    | call name line =>
      cases fault with
      | wrongArgumentsNumber expected found => exact absurd rfl (passes expected found)
      | _ => exact nofun
    | sequence => exact passes
    | _ => trivial

end Moves

section Steps

variable (space : NameSpace) (m : Machine)

theorem step_relabel (faithful : r.Faithful) :
    (m.relabel r space).step = m.step.relabel r (m.nextSpace space) := by
  obtain ⟨⟨outcome, ended⟩, -⟩ |
    ⟨control, taken, effect, control', pushed, stack, world, rfl, next, moves⟩ := m.step_cases
  · obtain ⟨control, stack, world⟩ := m
    obtain ⟨empty, -⟩ := outcome?_eq_some_iff.mp ended
    cases empty
    cases control with
    | evaluate node i => cases ended
    | deliver value => rfl
    | raise fault => cases fault <;> rfl
  · have moves' := moves.relabel space faithful stack world
    rw [next, relabel, relabel, List.map_append, List.map_append]
    refine (step_of_moves _ (world.relabel r) moves').trans ?_
    rw [effect.apply_relabel faithful]

theorem sighting?_relabel :
    (m.relabel r space).sighting? = m.sighting?.map (Sighting.relabel r) := by
  obtain ⟨control, stack, world⟩ := m
  cases control with
  | evaluate node i =>
    simp only [sighting?, visit?, relabel, Control.relabel, Node.isVisited_relabel]
    cases node.isVisited <;> rfl
  | deliver value => rfl
  | raise fault => rfl

theorem outcome?_relabel :
    (m.relabel r space).outcome? = m.outcome?.map (Except.mapError (Fault.relabel r space)) := by
  obtain ⟨control, stack, world⟩ := m
  cases control <;> cases stack <;> rfl

end Steps

/-! ## Runs of relabelled programs -/

/-- The step raises the fault, which was not on its way out before. -/
def Raises (m : Machine) (fault : Fault) : Prop :=
  m.control ≠ .raise fault ∧ m.step.control = .raise fault

/-- A fault that the step raises has a name of the space that the machine tells beforehand. -/
theorem Raises.nextSpace_eq {m : Machine} {fault : Fault} (h : m.Raises fault)
    (space : NameSpace) : m.nextSpace space = m.nameSpace := by
  obtain ⟨new, raised⟩ := h
  obtain ⟨control, stack, world⟩ := m
  cases control with
  | evaluate node i => rfl
  | deliver value => rfl
  | raise fault' =>
    by_cases passing : fault'.Passing
    · obtain ⟨world', -, next⟩ := after_raise passing stack world 1
      rw [after_succ, after_zero] at next
      rw [next] at raised
      exact absurd raised new
    · obtain ⟨expected, found, rfl⟩ := Fault.exists_of_not_passing passing
      rfl

section Runs

variable (faithful : r.Faithful) (program : Program)

include faithful

theorem ofProgram_relabel :
    ofProgram (program.relabel r) = (ofProgram program).relabel r .values := by
  have print : r.name .functions "print" = "print" := faithful.builtin .print
  have println : r.name .functions "println" = "println" := faithful.builtin .println
  have prelude : (World.prelude {}).2 = ⟨⟨#[{
      functions := [("println", .builtin .println), ("print", .builtin .print)] }]⟩, ""⟩ := rfl
  have same : (World.prelude {}).2.relabel r = (World.prelude {}).2 := by
    simp [prelude, World.relabel, Scopes.relabel, Scope.relabel, Function.relabel, print, println]
  simp only [ofProgram, start, relabel, same]
  rfl

/-- A program and the relabelled program go on side by side. The space of a fault that is on its way
out is the one that was known when the fault was raised. -/
theorem after_relabel (n : Nat) : ∃ space,
    (ofProgram (program.relabel r)).after n = ((ofProgram program).after n).relabel r space ∧
    (ofProgram (program.relabel r)).sightings n =
      ((ofProgram program).sightings n).map (Sighting.relabel r) ∧
    ((ofProgram program).after n).Explained ((ofProgram program).sightings n) space ∧
    ∀ fault, fault.Passing → ((ofProgram program).after n).control = .raise fault →
      ∃ k < n, ((ofProgram program).after k).Raises fault ∧
        ((ofProgram program).after k).nameSpace = space := by
  induction n with
  | zero => exact ⟨.values, ofProgram_relabel faithful program, rfl, .evaluate _ nofun, nofun⟩
  | succ n ih =>
    obtain ⟨space, same, visits, explained, raised⟩ := ih
    refine ⟨((ofProgram program).after n).nextSpace space, ?_, ?_, ?_, ?_⟩
    · rw [after_succ_eq_step, after_succ_eq_step, same, step_relabel _ _ faithful]
    · rw [sightings_succ_eq_append, sightings_succ_eq_append, visits, same, sighting?_relabel,
        List.map_append, Option.toList_map]
    · rw [after_succ_eq_step, sightings_succ_eq_append]
      exact explained.step
    · intro fault passing now
      rw [after_succ_eq_step] at now
      -- the space is fixed by the step that raises the fault, and goes along with it from then on
      by_cases before : ((ofProgram program).after n).control = .raise fault
      · obtain ⟨k, lt, raises, told⟩ := raised fault passing before
        rw [nextSpace_of_raise passing before]
        exact ⟨k, Nat.lt_succ_of_lt lt, raises, told⟩
      · have raises : ((ofProgram program).after n).Raises fault := ⟨before, now⟩
        exact ⟨n, Nat.lt_succ_self n, raises, (raises.nextSpace_eq space).symm⟩

/-- A program and the relabelled program end together, if at all. The space of the fault that they
end in is the one that was known when it was raised, and the one that its cause tells. -/
theorem run_relabel (budget : Nat) : ∃ space,
    (ofProgram (program.relabel r)).run budget = ((ofProgram program).run budget).map
      (fun ended => (ended.1.mapError (Fault.relabel r space), ended.2.relabel r)) ∧
    ∀ fault world, (ofProgram program).run budget = some (.error fault, world) →
      (∃ n < budget, ((ofProgram program).after n).Raises fault ∧
        ((ofProgram program).after n).nameSpace = space) ∧
      ∃ v ∈ (ofProgram program).sightings budget, v.Causes fault ∧ v.node.nameSpace = space := by
  cases ran : (ofProgram program).run budget with
  | none =>
    refine ⟨.values, ?_, nofun⟩
    rw [Option.map_none, Option.eq_none_iff_forall_ne_some]
    intro ended ran'
    obtain ⟨n, lt, outcome, -⟩ := run_eq_some_iff.mp ran'
    obtain ⟨space, same, -⟩ := after_relabel faithful program n
    rw [same, outcome?_relabel, Option.map_eq_some_iff] at outcome
    obtain ⟨outcome, ended, -⟩ := outcome
    rw [run_eq_some_iff.mpr ⟨n, lt, ended, rfl⟩] at ran
    cases ran
  | some ended =>
    obtain ⟨outcome, world⟩ := ended
    obtain ⟨n, lt, ended, rfl⟩ := run_eq_some_iff.mp ran
    obtain ⟨space, same, -, explained, raised⟩ := after_relabel faithful program n
    refine ⟨space, run_eq_some_iff.mpr ⟨n, lt, ?_, ?_⟩, ?_⟩
    · rw [same, outcome?_relabel, ended]
      rfl
    · rw [same]
      rfl
    · intro fault world failed
      cases failed
      obtain ⟨empty, ⟨value, -, failed⟩ | ⟨fault', now, failed⟩⟩ := outcome?_eq_some_iff.mp ended
      · cases failed
      · cases failed
        have caused := explained.raised fault now
        rw [empty] at caused
        have passing := caused.passing nofun
        obtain ⟨k, before, raises⟩ := raised fault passing now
        refine ⟨⟨k, Nat.lt_trans before lt, raises⟩, ?_⟩
        rw [sightings_eq_of_le ended (Nat.le_of_lt lt)]
        exact (Fault.explained_iff passing).mp caused

theorem sightings_relabel (n : Nat) : (ofProgram (program.relabel r)).sightings n =
    ((ofProgram program).sightings n).map (Sighting.relabel r) := by
  obtain ⟨space, -, visits, -⟩ := after_relabel faithful program n
  exact visits

end Runs

end Machine

/-! ## Other names -/

/-- Other names for the variables and for the functions, and the same lines. -/
def Relabelling.ofNames (values functions : String → String) : Relabelling where
  name
    | .values => values
    | .functions => functions
  line := id

section Names

variable {values functions : String → String}

theorem Relabelling.faithful_ofNames (injective : Function.Injective values)
    (injective' : Function.Injective functions)
    (builtin : ∀ b : Builtin, functions b.name = b.name) :
    (ofNames values functions).Faithful where
  injective
    | .values => injective
    | .functions => injective'
  builtin := builtin

@[simp] theorem Sighting.standing_relabel_ofNames (v : Sighting) :
    (v.relabel (.ofNames values functions)).standing = v.standing := by
  simp [standing, Sighting.relabel, Relabelling.ofNames]

namespace Machine

/-- Names matter only in so far as they are the same or not, and those of variables and of functions
do not matter to each other. With other names, different ones for different variables and for
different functions, a program writes the same, visits the same lines and kinds of node, and ends
together with the original: in the same value, or in the same fault. The name of the fault is
changed as that of a variable or of a function by what the step that raised it was about, and a
visited node that causes the fault has a name of this kind. -/
theorem names_are_arbitrary (program : Program) (injective : Function.Injective values)
    (injective' : Function.Injective functions) (builtin : ∀ b : Builtin, functions b.name = b.name)
    {budget : Nat} {outcome : Except Fault Int32} {world : World}
    (ran : (ofProgram program).run budget = some (outcome, world)) :
    ∃ outcome' world',
      (ofProgram (program.relabel (.ofNames values functions))).run budget =
        some (outcome', world') ∧ world'.output = world.output ∧
      ((ofProgram (program.relabel (.ofNames values functions))).sightings budget).map
        Sighting.standing = ((ofProgram program).sightings budget).map Sighting.standing ∧
      ((∃ value, outcome = .ok value ∧ outcome' = .ok value) ∨
        ∃ fault space, outcome = .error fault ∧
          outcome' = .error (fault.relabel (.ofNames values functions) space) ∧
          (∃ n < budget, ((ofProgram program).after n).Raises fault ∧
            ((ofProgram program).after n).nameSpace = space) ∧
          ∃ v ∈ (ofProgram program).sightings budget,
            v.Causes fault ∧ v.node.nameSpace = space) := by
  have faithful := Relabelling.faithful_ofNames injective injective' builtin
  obtain ⟨space, same, raised⟩ := run_relabel faithful program budget
  rw [ran, Option.map_some] at same
  refine ⟨_, _, same, rfl, ?_, ?_⟩
  · rw [sightings_relabel faithful, List.map_map]
    exact List.map_congr_left fun v _ => v.standing_relabel_ofNames
  · cases outcome with
    | ok value => exact .inl ⟨value, rfl, rfl⟩
    | error fault => exact .inr ⟨fault, space, rfl, rfl, raised fault world ran⟩

/-- A variable and a function of the same name. The function is applied to the variable, and on
line 4 to one argument too many. -/
def sharing : Program :=
  ⟨⟨[.definition "x" ["y"] ⟨[.returns (.identifier "y" 1) 1], 1⟩ 1,
    .declaration "x" (some (.literal 1 2)) 2,
    .expression (.call "print" [.call "x" [.identifier "x" 3] 3] 3),
    .expression (.call "x" [.identifier "x" 4, .identifier "x" 4] 4)], 1⟩, 1⟩

/-- The variable becomes `a` and the function `f`, and the fault of the last call is about `f`. -/
theorem names_are_arbitrary_of_sharing :
    (∃ world, (ofProgram sharing).run 60 = some (.error (.functionCall "x" 4), world) ∧
      world.output = "1\n") ∧
    ∃ world', (ofProgram (sharing.relabel
        (.ofNames (Equiv.swap "x" "a") (Equiv.swap "x" "f")))).run 60 =
      some (.error (.functionCall "f" 4), world') ∧ world'.output = "1\n" := by
  obtain ⟨world, ran, written⟩ : ∃ world,
      (ofProgram sharing).run 60 = some (.error (.functionCall "x" 4), world) ∧
        world.output = "1\n" := ⟨_, rfl, rfl⟩
  have builtin (b : Builtin) : Equiv.swap "x" "f" b.name = b.name := by cases b <;> rfl
  obtain ⟨outcome', world', ran', same, -, ⟨value, none, -⟩ | ⟨fault, space, failed, rfl, -, v, -,
    causes, named⟩⟩ := names_are_arbitrary sharing (Equiv.swap "x" "a").injective
      (Equiv.swap "x" "f").injective builtin ran
  · cases none
  · cases failed
    cases causes
    cases named
    exact ⟨⟨world, ran, written⟩, world', ran', same.trans written⟩

end Machine

end Names

end FunLanguage
