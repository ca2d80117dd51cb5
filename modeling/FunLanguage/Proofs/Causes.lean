import FunLanguage.Proofs.Nodes

/-!
# What causes a fault

A fault carries the line, and mostly the name, of the node that caused it: a node of the program
that the run has visited (`Sighting.Causes`). The node is known long before the fault is raised, as
a frame keeps the line and the name of the node that it was made for. So the invariant of a run is
that each frame on the stack was made for a visit of the run (`Machine.Explained`).

A call turns only one fault into another, and that fault is never on its way: it is raised by the
function applied, right above the frame of its call. Every other fault reaches the top as it is
(`Machine.faults_point_at_causes`).
-/

namespace FunLanguage

/-! ## Causes -/

/-- The visit causes the fault: the node has the line of the fault, and the form and the name that
go with it. A call causes a fault of its own if the function that it finds is a closure with another
number of parameters. -/
inductive Sighting.Causes : Sighting → Fault → Prop
  | unknownVariable {name line i world} :
      Causes ⟨.expression (.identifier name line), i, world⟩ (.unknownIdentifier name line)
  | unknownTarget {name e line i world} :
      Causes ⟨.statement (.assignment name e line), i, world⟩ (.unknownIdentifier name line)
  | unknownFunction {name arguments line i world} :
      Causes ⟨.expression (.call name arguments line), i, world⟩ (.unknownIdentifier name line)
  | boundVariable {name value? line i world} :
      Causes ⟨.statement (.declaration name value? line), i, world⟩ (.redefinition name line)
  | boundFunction {name parameters body line i world} :
      Causes ⟨.statement (.definition name parameters body line), i, world⟩
        (.redefinition name line)
  | division {op left right line i world} : op = .divide ∨ op = .remainder →
      Causes ⟨.expression (.binary op left right line), i, world⟩ (.arithmetic line)
  | mismatch {name arguments line i world c} :
      world.scopes.function? i name = some (.closure c) →
      arguments.length ≠ c.parameters.length →
      Causes ⟨.expression (.call name arguments line), i, world⟩ (.functionCall name line)

/-- A fault points at the line of its cause. -/
theorem Sighting.Causes.line? {v : Sighting} {fault : Fault} (h : v.Causes fault) :
    fault.line? = some v.node.line := by
  cases h <;> rfl

/-- Only operators that divide have no value on some operands. -/
theorem BinaryOp.divides_of_apply_eq_none {op : BinaryOp} {left right : Int32}
    (h : op.apply left right = none) : op = .divide ∨ op = .remainder := by
  cases op <;> simp [apply] at h ⊢

/-- What a name can stand for: the value of a variable, or a function. -/
inductive NameSpace where
  | values
  | functions

/-- What the name of a node stands for. -/
def Node.nameSpace : Node → NameSpace
  | expression (.call ..) => .functions
  | statement (.definition ..) => .functions
  | _ => .values

/-! ## Frames made for visits -/

/-- The visit is one of a call by this name and on this line, with this many arguments, and the name
stands for the function. -/
def Sighting.Calls (v : Sighting) (function : Function) (name : String) (line count : Nat) : Prop :=
  ∃ arguments, v.node = .expression (.call name arguments line) ∧ arguments.length = count ∧
    v.world.scopes.function? v.scope name = some function

/-- One of the visits was of the node that the frame was made for. -/
def Frame.Explained (vs : List Sighting) : Frame → Prop
  | leftOperand op right line _ =>
    ∃ v ∈ vs, ∃ left, v.node = .expression (.binary op left right line)
  | rightOperand op _ line =>
    ∃ v ∈ vs, ∃ left right, v.node = .expression (.binary op left right line)
  | argument function name line done todo _ =>
    ∃ v ∈ vs, v.Calls function name line (done.length + 1 + todo.length)
  | declaration name line _ =>
    ∃ v ∈ vs, ∃ value?, v.node = .statement (.declaration name value? line)
  | assignment name line _ => ∃ v ∈ vs, ∃ e, v.node = .statement (.assignment name e line)
  | call .. => True
  | result _ => True
  | returns _ => True
  | branch .. => True
  | loopTest .. => True
  | loopBody .. => True
  | sequence .. => True

/-- One of the visits causes the fault, and its name is of the given space. A mismatch of arguments
is still to be named: the frame on top of the stack is that of the call. -/
def Fault.Explained (vs : List Sighting) (space : NameSpace) (stack : List Frame) : Fault → Prop
  | wrongArgumentsNumber expected found => ∃ name line below, stack = .call name line :: below ∧
      ∃ v ∈ vs, ∃ c, v.Calls (.closure c) name line found ∧ c.parameters.length = expected ∧
        found ≠ expected
  | fault => ∃ v ∈ vs, v.Causes fault ∧ v.node.nameSpace = space

theorem Frame.Explained.mono {vs ws : List Sighting} (sub : vs ⊆ ws) {frame : Frame}
    (h : frame.Explained vs) : frame.Explained ws := by
  cases frame with
  | leftOperand => exact h.imp fun _ => And.imp_left (@sub _)
  | rightOperand => exact h.imp fun _ => And.imp_left (@sub _)
  | argument => exact h.imp fun _ => And.imp_left (@sub _)
  | declaration => exact h.imp fun _ => And.imp_left (@sub _)
  | assignment => exact h.imp fun _ => And.imp_left (@sub _)
  | _ => trivial

theorem Fault.exists_of_not_passing {fault : Fault} (h : ¬ fault.Passing) :
    ∃ expected found, fault = .wrongArgumentsNumber expected found := by
  simpa [Passing] using h

theorem Fault.explained_iff {vs : List Sighting} {space : NameSpace} {stack : List Frame}
    {fault : Fault} (passing : fault.Passing) :
    fault.Explained vs space stack ↔ ∃ v ∈ vs, v.Causes fault ∧ v.node.nameSpace = space := by
  cases fault with
  | wrongArgumentsNumber expected found => exact absurd rfl (passing expected found)
  | _ => rfl

namespace Fault.Explained

variable {vs ws : List Sighting} {space : NameSpace} {stack : List Frame} {fault : Fault}

theorem mono (sub : vs ⊆ ws) (h : fault.Explained vs space stack) :
    fault.Explained ws space stack := by
  cases fault with
  | wrongArgumentsNumber expected found =>
    obtain ⟨name, line, below, same, v, mem, called⟩ := h
    exact ⟨name, line, below, same, v, sub mem, called⟩
  | _ => exact h.imp fun _ => And.imp_left (@sub _)

/-- A fault that is raised above no call is not a mismatch of arguments. -/
theorem passing (h : fault.Explained vs space stack)
    (above : ∀ name line below, stack ≠ .call name line :: below) : fault.Passing := by
  rintro expected found rfl
  obtain ⟨name, line, below, same, -⟩ := h
  exact above name line below same

/-- The frames on the way matter only to a mismatch of arguments. -/
theorem of_passing (h : fault.Explained vs space stack) (passing : fault.Passing)
    (stack' : List Frame) : fault.Explained vs space stack' :=
  (explained_iff passing).mpr ((explained_iff passing).mp h)

end Fault.Explained

/-- A fault that is not raised by a function applied is none that a call turns into another. -/
theorem Machine.Fails.passing {s : Scopes} {control : Control} {taken : List Frame} {fault : Fault}
    (fails : Fails s control taken fault) : fault.Passing := by
  cases fails <;> exact nofun

namespace Machine

/-- The space that the name of a fault is of, if the next step raises one. A fault that is on its
way out is turned into one that names a function. -/
def nameSpace (m : Machine) : NameSpace :=
  match m.control with
  | .evaluate node _ => node.nameSpace
  | .deliver _ => .values
  | .raise _ => .functions

/-- The space that the name of a fault is of after the next step, if it was of the given one. -/
def nextSpace (space : NameSpace) (m : Machine) : NameSpace :=
  match m.control with
  | .raise (.wrongArgumentsNumber _ _) => m.nameSpace
  | .raise _ => space
  | _ => m.nameSpace

/-- A fault on its way out keeps its space. -/
theorem nextSpace_of_raise {m : Machine} {fault : Fault} (passing : fault.Passing)
    (raised : m.control = .raise fault) (space : NameSpace) : m.nextSpace space = space := by
  rw [nextSpace, raised]
  cases fault with
  | wrongArgumentsNumber expected found => exact absurd rfl (passing expected found)
  | _ => rfl

/-- All frames were made for visits of the list, and a fault that is raised is caused by one. -/
structure Explained (vs : List Sighting) (space : NameSpace) (m : Machine) : Prop where
  stack : ∀ frame ∈ m.stack, frame.Explained vs
  raised : ∀ fault, m.control = .raise fault → fault.Explained vs space m.stack

namespace Explained

variable {vs : List Sighting} {space : NameSpace} {i : ScopeId} {stack : List Frame}
  {world : World}

theorem evaluate (node : Node) (below : ∀ frame ∈ stack, frame.Explained vs) :
    Explained vs space ⟨.evaluate node i, stack, world⟩ :=
  ⟨below, nofun⟩

theorem deliver (value : Int32) (below : ∀ frame ∈ stack, frame.Explained vs) :
    Explained vs space ⟨.deliver value, stack, world⟩ :=
  ⟨below, nofun⟩

theorem raise {fault : Fault} (explained : fault.Explained vs space stack)
    (below : ∀ frame ∈ stack, frame.Explained vs) :
    Explained vs space ⟨.raise fault, stack, world⟩ := by
  refine ⟨below, fun fault' same => ?_⟩
  cases same
  exact explained

theorem push {frame : Frame} (above : frame.Explained vs)
    (below : ∀ frame ∈ stack, frame.Explained vs) :
    ∀ f ∈ frame :: stack, f.Explained vs :=
  List.forall_mem_cons.mpr ⟨above, below⟩

end Explained

/-! ### Moves -/

section Moves

open Explained (push)

variable {vs : List Sighting} {control control' : Control} {taken pushed stack : List Frame}
  {world : World} {name : String} {line : Nat} {i : ScopeId}
  (seen : ∀ node i, control = .evaluate node i → node.isVisited = true → ⟨node, i, world⟩ ∈ vs)
  (above : ∀ frame ∈ taken, frame.Explained vs)

include seen above

theorem Declares.explained {value : Int32} (declares : Declares control taken name value line i) :
    ∃ v ∈ vs, ∃ value?, v.node = .statement (.declaration name value? line) := by
  cases declares with
  | plain => exact ⟨_, seen _ _ rfl rfl, none, rfl⟩
  | valued => exact above _ List.mem_cons_self

theorem Calls.explained {function : Function} {done : List Int32} {todo : List Expr}
    (calls : Calls world.scopes control taken function name line done todo i) :
    ∃ v ∈ vs, v.Calls function name line (done.length + todo.length) := by
  cases calls with
  | begin found =>
    refine ⟨_, seen _ _ rfl rfl, _, rfl, ?_, found⟩
    rw [List.length_nil, Nat.zero_add]
  | argument => exact above _ List.mem_cons_self

theorem Begins.explained {node : Node} (begins : Begins world.scopes control taken node i pushed) :
    ∀ frame ∈ pushed, frame.Explained vs := by
  cases begins with
  | declaration => exact List.forall_mem_singleton.mpr ⟨_, seen _ _ rfl rfl, _, rfl⟩
  | assignment => exact List.forall_mem_singleton.mpr ⟨_, seen _ _ rfl rfl, _, rfl⟩
  | leftOperand => exact List.forall_mem_singleton.mpr ⟨_, seen _ _ rfl rfl, _, rfl⟩
  | rightOperand =>
    obtain ⟨v, mem, left, node⟩ := above _ List.mem_cons_self
    exact List.forall_mem_singleton.mpr ⟨v, mem, left, _, node⟩
  | argument calls =>
    obtain ⟨v, mem, called⟩ := calls.explained seen above
    rw [List.length_cons, ← Nat.add_assoc, Nat.add_right_comm] at called
    exact List.forall_mem_singleton.mpr ⟨v, mem, called⟩
  | expression => exact nofun
  | chosen => exact nofun
  | _ => exact List.forall_mem_singleton.mpr trivial

/-- A fault of its own points at the node that the machine came to, or that the frame was
made for. -/
theorem Fails.explained {fault : Fault} (fails : Fails world.scopes control taken fault)
    (space : NameSpace) :
    ∃ v ∈ vs, v.Causes fault ∧
      v.node.nameSpace = nextSpace space ⟨control, taken ++ stack, world⟩ := by
  cases fails with
  | identifier => exact ⟨_, seen _ _ rfl rfl, .unknownVariable, rfl⟩
  | function => exact ⟨_, seen _ _ rfl rfl, .unknownFunction, rfl⟩
  | definition => exact ⟨_, seen _ _ rfl rfl, .boundFunction, rfl⟩
  | target =>
    obtain ⟨⟨_, _, _⟩, mem, e, rfl⟩ := above _ List.mem_cons_self
    exact ⟨_, mem, .unknownTarget, rfl⟩
  | operator undefined =>
    obtain ⟨⟨_, _, _⟩, mem, left, right, rfl⟩ := above _ List.mem_cons_self
    exact ⟨_, mem, .division (BinaryOp.divides_of_apply_eq_none undefined), rfl⟩
  | declaration declares =>
    obtain ⟨⟨_, _, _⟩, mem, value?, rfl⟩ := declares.explained seen above
    cases declares with
    | plain => exact ⟨_, mem, .boundVariable, rfl⟩
    | valued => exact ⟨_, mem, .boundVariable, rfl⟩

theorem Moves.explained {effect : Effect} {space : NameSpace}
    (moves : Moves world.scopes control taken effect control' pushed)
    (raised : ∀ fault, control = .raise fault → fault.Explained vs space (taken ++ stack))
    (below : ∀ frame ∈ stack, frame.Explained vs) :
    Explained vs (nextSpace space ⟨control, taken ++ stack, world⟩)
      ⟨control', pushed ++ stack, effect.apply world⟩ := by
  cases moves with
  | begins begins =>
    exact .evaluate _ (List.forall_mem_append.mpr ⟨begins.explained seen above, below⟩)
  | yields => exact .deliver _ below
  | fails fails =>
    exact .raise ((Fault.explained_iff fails.passing).mpr (fails.explained seen above space)) below
  | write => exact .deliver _ (push trivial below)
  | call => exact .evaluate _ (push trivial (push trivial below))
  | mismatch calls differ =>
    obtain ⟨v, mem, called⟩ := calls.explained seen above
    exact .raise ⟨_, _, stack, rfl, v, mem, _, called, rfl, differ⟩ (push trivial below)
  | enter => exact .evaluate _ (push trivial below)
  | abandon =>
    have passing := (raised _ rfl).passing nofun
    rw [nextSpace_of_raise passing rfl]
    exact .raise ((raised _ rfl).of_passing passing stack) below
  | rename =>
    obtain ⟨name, line, below', same, ⟨_, _, _⟩, mem, c, ⟨arguments, rfl, rfl, here⟩, rfl,
      differ⟩ := raised _ rfl
    cases same
    exact .raise ⟨_, mem, .mismatch here differ, rfl⟩ below
  | @pass fault frame passes =>
    have passing : fault.Passing := by
      cases frame with
      | call name line => exact passes
      | _ => exact (raised fault rfl).passing nofun
    rw [nextSpace_of_raise passing rfl]
    exact .raise ((raised fault rfl).of_passing passing stack) below
  | _ => exact .deliver _ below

end Moves

namespace Explained

variable {vs : List Sighting} {space : NameSpace} {m : Machine}

theorem step (h : m.Explained vs space) :
    m.step.Explained (vs ++ m.sighting?.toList) (m.nextSpace space) := by
  have raised (fault : Fault) (now : m.control = .raise fault) :
      fault.Explained (vs ++ m.sighting?.toList) space m.stack :=
    (h.raised fault now).mono (List.subset_append_left ..)
  have stack (frame : Frame) (mem : frame ∈ m.stack) :
      frame.Explained (vs ++ m.sighting?.toList) :=
    (h.stack frame mem).mono (List.subset_append_left ..)
  obtain ⟨⟨outcome, ended⟩, same⟩ |
    ⟨control, taken, effect, control', pushed, stack', world, rfl, next, moves⟩ := m.step_cases
  · rw [same]
    refine ⟨stack, fun fault now => ?_⟩
    have passing := (h.raised fault now).passing (by simp [(outcome?_eq_some_iff.mp ended).1])
    rw [nextSpace_of_raise passing now]
    exact raised fault now
  · obtain ⟨above, below⟩ := List.forall_mem_append.mp stack
    rw [next]
    refine moves.explained (fun node i now visited => ?_) above raised below
    subst now
    simp [sighting?, visit?, visited]

end Explained

/-- After any number of steps, every frame was made for a visit among them, and a fault that is
raised is caused by one. -/
theorem explained_after (program : Program) (n : Nat) : ∃ space,
    ((ofProgram program).after n).Explained ((ofProgram program).sightings n) space := by
  induction n with
  | zero => exact ⟨.values, .evaluate _ nofun⟩
  | succ n ih =>
    obtain ⟨space, h⟩ := ih
    refine ⟨((ofProgram program).after n).nextSpace space, ?_⟩
    rw [after_succ_eq_step, sightings_succ_eq_append]
    exact h.step

/-- The visits of a run are of nodes of its program. -/
theorem has_of_mem_sightings {program : Program} {n : Nat} {v : Sighting}
    (mem : v ∈ (ofProgram program).sightings n) : (Node.program program).Has v.node := by
  obtain ⟨k, here⟩ := List.mem_iff_getElem?.mp mem
  obtain ⟨i, -, -, seen⟩ := exists_of_sightings here
  have inside := (over_ofProgram program).after (Node.closed_has _) i
  rw [(sighting?_eq_some seen).1] at inside
  exact inside.control _ _ rfl

/-- A fault that is raised has its cause among the visits and is what the evaluation ends with, but
for a mismatch of arguments, which the frame on top of the stack turns into a fault of its call. -/
theorem Explained.ends_of_raise {vs : List Sighting} {space : NameSpace} {m : Machine}
    {fault : Fault} (h : m.Explained vs space) (raised : m.control = .raise fault) :
    ∃ last, (∃ world, m.Ends (.error last) world) ∧ (∃ v ∈ vs, v.Causes last) ∧
      (last = fault ∨ ∃ expected found name line below,
        fault = .wrongArgumentsNumber expected found ∧ m.stack = .call name line :: below ∧
        last = .functionCall name line) := by
  have explained := h.raised fault raised
  by_cases passing : fault.Passing
  · obtain ⟨v, mem, causes, -⟩ := (Fault.explained_iff passing).mp explained
    exact ⟨fault, exists_ends_of_raise passing raised, ⟨v, mem, causes⟩, .inl rfl⟩
  · obtain ⟨expected, found, rfl⟩ := Fault.exists_of_not_passing passing
    obtain ⟨control, stack, world⟩ := m
    obtain rfl : control = .raise (.wrongArgumentsNumber expected found) := raised
    have next := h.step
    obtain ⟨name, line, below, rfl, -⟩ := explained
    obtain ⟨v, mem, causes, -⟩ := next.raised (.functionCall name line) rfl
    have passing : Fault.Passing (.functionCall name line) := nofun
    obtain ⟨last, ended⟩ := exists_ends_of_raise (m := ⟨_, below, world⟩) passing rfl
    have ends : Ends
        ⟨.raise (.wrongArgumentsNumber expected found), .call name line :: below, world⟩
        (.error (.functionCall name line)) last := .of_after (n := 1) ended
    rw [show sighting? _ = none from rfl, Option.toList_none, List.append_nil] at mem
    exact ⟨.functionCall name line, ⟨last, ends⟩, ⟨v, mem, causes⟩,
      .inr ⟨expected, found, name, line, below, rfl, rfl, rfl⟩⟩

/-- Faults point at the nodes that cause them. If a program ends in a fault, one of the visits of
the run was of a node of the program that causes it, on the line that the fault points at. Whatever
fault is raised at any step of the run, above any stack of frames, is caused by a visit before, and
is the fault that the program ends with. Only a mismatch of arguments is turned into another fault,
which is about the very call that applied the function. -/
theorem faults_point_at_causes (program : Program) :
    (∀ budget fault world, (ofProgram program).run budget = some (.error fault, world) →
      ∃ v ∈ (ofProgram program).sightings budget, (Node.program program).Has v.node ∧
        v.Causes fault ∧ fault.line? = some v.node.line) ∧
    ∀ n fault, ((ofProgram program).after n).control = .raise fault →
      ∃ last, (∃ world, (ofProgram program).Ends (.error last) world) ∧
        (∃ v ∈ (ofProgram program).sightings n, (Node.program program).Has v.node ∧
          v.Causes last) ∧
        (last = fault ∨ ∃ expected found name line below,
          fault = .wrongArgumentsNumber expected found ∧
          ((ofProgram program).after n).stack = .call name line :: below ∧
          last = .functionCall name line) := by
  refine ⟨fun budget fault world ran => ?_, fun n fault raised => ?_⟩
  · obtain ⟨n, lt, ended, -⟩ := run_eq_some_iff.mp ran
    obtain ⟨space, explained⟩ := explained_after program n
    obtain ⟨empty, ⟨value, -, failed⟩ | ⟨fault', raised, failed⟩⟩ := outcome?_eq_some_iff.mp ended
    · cases failed
    · cases failed
      obtain ⟨last, -, ⟨v, mem, causes⟩, rfl | ⟨_, _, _, _, below, -, pending, -⟩⟩ :=
        explained.ends_of_raise raised
      · rw [← sightings_eq_of_le ended (Nat.le_of_lt lt)] at mem
        exact ⟨v, mem, has_of_mem_sightings mem, causes, causes.line?⟩
      · rw [empty] at pending
        cases pending
  · obtain ⟨space, explained⟩ := explained_after program n
    obtain ⟨last, ⟨world, ended⟩, ⟨v, mem, causes⟩, same⟩ := explained.ends_of_raise raised
    exact ⟨last, ⟨world, ended.of_after⟩, ⟨v, mem, has_of_mem_sightings mem, causes⟩, same⟩

/-- A function without parameters, on line 1, and one on line 2 that gives it an argument, which is
called on line 3. -/
def overloading : Program :=
  ⟨⟨[.definition "f" [] ⟨[], 1⟩ 1,
    .definition "g" [] ⟨[.expression (.call "f" [.literal 1 2] 2)], 2⟩ 2,
    .expression (.call "g" [] 3)], 1⟩, 1⟩

/-- The mismatch is raised after 13 steps, inside the call on line 3. The program ends with a fault
of the call on line 2, and this call was visited. -/
theorem faults_point_at_causes_of_overloading :
    (∃ world, (ofProgram overloading).run 30 = some (.error (.functionCall "f" 2), world)) ∧
    (∃ v ∈ (ofProgram overloading).sightings 30, (Node.program overloading).Has v.node ∧
      v.Causes (.functionCall "f" 2) ∧ v.node.line = 2) ∧
    ((ofProgram overloading).after 13).control = .raise (.wrongArgumentsNumber 0 1) ∧
    ∃ last, (∃ world, (ofProgram overloading).Ends (.error last) world) ∧
      last = .functionCall "f" 2 := by
  obtain ⟨world, ran⟩ : ∃ world,
      (ofProgram overloading).run 30 = some (.error (.functionCall "f" 2), world) := ⟨_, rfl⟩
  have raised : ((ofProgram overloading).after 13).control =
      .raise (.wrongArgumentsNumber 0 1) := rfl
  obtain ⟨ends, raises⟩ := faults_point_at_causes overloading
  obtain ⟨v, mem, has, causes, line⟩ := ends 30 _ world ran
  obtain ⟨last, ended, -, -⟩ := raises 13 _ raised
  refine ⟨⟨world, ran⟩, ⟨v, mem, has, causes, (Option.some.inj line).symm⟩, raised, last, ended, ?_⟩
  obtain ⟨world', ended⟩ := ended
  exact Except.error.inj (ended.unique ⟨30, ran⟩).1

end Machine

end FunLanguage
