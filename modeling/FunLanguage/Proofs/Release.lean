import FunLanguage.Proofs.Interrupts

/-!
# Blocks that have ended

When a block ends its functions are forgotten. A machine that keeps them (`stepWith` with a release
that does nothing) takes the same steps: both machines differ at most in the functions of scopes
whose blocks have ended (`Matches`), and no path leads from a scope that the machine still knows to
such a scope. This holds because a scope captured by a function lies on every path on which the
function can be found, and because the scope of a block is younger than those the stack goes back
to.
-/

namespace FunLanguage

/-! ## Scopes with the same functions in sight -/

def Scope.withoutFunctions (t : Scope) : Scope :=
  { t with functions := [] }

namespace Scopes

/-- The scopes are the same, but for functions of scopes where `P` does not hold. -/
structure Agrees (P : ScopeId → Prop) (s s' : Scopes) : Prop where
  size : s'.size = s.size
  scope : ∀ j, (s'.scope j).withoutFunctions = (s.scope j).withoutFunctions
  functions : ∀ j, P j → (s'.scope j).functions = (s.scope j).functions

/-- No path from one of the scopes leaves `P`. -/
def Sees (P : ScopeId → Prop) (s : Scopes) (scopes : List ScopeId) : Prop :=
  ∀ i ∈ scopes, ∀ j ∈ s.path i, P j

namespace Agrees

variable {P : ScopeId → Prop} {s s' : Scopes}

theorem mono {Q : ScopeId → Prop} (h : s.Agrees P s') (sub : ∀ j, Q j → P j) : s.Agrees Q s' :=
  ⟨h.size, h.scope, fun j hj => h.functions j (sub j hj)⟩

theorem refl (P : ScopeId → Prop) (s : Scopes) : s.Agrees P s :=
  ⟨rfl, fun _ => rfl, fun _ _ => rfl⟩

theorem path (h : s.Agrees P s') (i : ScopeId) : s'.path i = s.path i := by
  have same := congrArg Scope.ancestors (h.scope i)
  exact congrArg (i :: ·) same

theorem valueOf? (h : s.Agrees P s') (i : ScopeId) (name : String) :
    (s'.scope i).valueOf? name = (s.scope i).valueOf? name := by
  have same := congrArg Scope.values (h.scope i)
  exact congrArg (List.lookup name) same

theorem interrupt? (h : s.Agrees P s') (i : ScopeId) :
    (s'.scope i).interrupt? = (s.scope i).interrupt? := by
  have same := congrArg Scope.interrupt? (h.scope i)
  exact same

theorem isInterrupted (h : s.Agrees P s') (i : ScopeId) :
    s'.isInterrupted i = s.isInterrupted i := by
  rw [Scopes.isInterrupted, h.interrupt?, Scopes.isInterrupted]

theorem result (h : s.Agrees P s') (i : ScopeId) : s'.result i = s.result i := by
  rw [Scopes.result, h.interrupt?, Scopes.result]

/-! ### Look-up -/

theorem get? (h : s.Agrees P s') (i : ScopeId) (name : String) :
    s'.get? i name = s.get? i name := by
  rw [Scopes.get?, h.path, Scopes.get?]
  exact congrArg (List.findSome? · _) (funext fun j => h.valueOf? j name)

theorem holder? (h : s.Agrees P s') (i : ScopeId) (name : String) :
    s'.holder? i name = s.holder? i name := by
  rw [Scopes.holder?, h.path, Scopes.holder?]
  exact congrArg (List.find? · _) (funext fun j => by rw [h.valueOf?])

theorem functionOf? (h : s.Agrees P s') {i : ScopeId} (inside : P i) (name : String) :
    (s'.scope i).functionOf? name = (s.scope i).functionOf? name := by
  rw [Scope.functionOf?, h.functions i inside, Scope.functionOf?]

theorem function? (h : s.Agrees P s') {i : ScopeId} (inside : ∀ j ∈ s.path i, P j)
    (name : String) : s'.function? i name = s.function? i name := by
  rw [Scopes.function?, h.path, Scopes.function?]
  exact findSome?_congr fun j hj => h.functionOf? (inside j hj) name

/-! ### Updates -/

theorem modify (h : s.Agrees P s') (i : ScopeId) {f : Scope → Scope}
    (commutes : ∀ t, (f t).withoutFunctions = f t.withoutFunctions)
    (functions : ∀ t, (f t).functions = t.functions) :
    (s.modify i f).Agrees P (s'.modify i f) := by
  refine ⟨by simp [h.size], fun j => ?_, fun j hj => ?_⟩
  · simp only [scope_modify, h.size]
    split
    · rw [commutes, commutes, h.scope]
    · exact h.scope j
  · rw [field_modify Scope.functions _ _ _ functions, field_modify Scope.functions _ _ _ functions]
    exact h.functions j hj

theorem addVariable (h : s.Agrees P s') (i : ScopeId) (name : String) (value : Int32) :
    (s.modify i (·.addVariable name value)).Agrees P (s'.modify i (·.addVariable name value)) :=
  h.modify i (fun _ => rfl) fun _ => rfl

theorem setVariable (h : s.Agrees P s') (i : ScopeId) (name : String) (value : Int32) :
    (s.modify i (·.setVariable name value)).Agrees P (s'.modify i (·.setVariable name value)) :=
  h.modify i (fun _ => rfl) fun _ => rfl

theorem interrupt (h : s.Agrees P s') (i : ScopeId) (value : Int32) :
    (s.interrupt i value).Agrees P (s'.interrupt i value) :=
  h.modify i (fun _ => rfl) fun _ => rfl

theorem addFunction (h : s.Agrees P s') (i : ScopeId) (name : String) (function : Function) :
    (s.modify i (·.addFunction name function)).Agrees P
      (s'.modify i (·.addFunction name function)) := by
  refine ⟨by simp [h.size], fun j => ?_, fun j hj => ?_⟩
  · simp only [scope_modify, h.size]
    split
    · exact h.scope j
    · exact h.scope j
  · simp only [scope_modify, h.size]
    split
    · exact congrArg ((name, function) :: ·) (h.functions j hj)
    · exact h.functions j hj

theorem child (h : s.Agrees P s') (parent : ScopeId) :
    (s.child parent).2.Agrees P (s'.child parent).2 := by
  refine ⟨by simp [h.size], fun j => ?_, fun j hj => ?_⟩
  · simp only [scope_child, h.size, h.path]
    split
    · rfl
    · exact h.scope j
  · simp only [scope_child, h.size]
    split
    · rfl
    · exact h.functions j hj

theorem bindParameters (h : s.Agrees P s') (i : ScopeId) (bindings : List (String × Int32)) :
    (s.bindParameters i bindings).Agrees P (s'.bindParameters i bindings) := by
  induction bindings generalizing s s' with
  | nil => exact h
  | cons binding bindings ih =>
    simp only [Scopes.bindParameters, h.valueOf?]
    split
    · exact ih h
    · exact ih (h.addVariable i _ _)

/-- Only one of the two forgets the functions of a scope, which must then be out of sight. -/
theorem release (h : s.Agrees P s') {i : ScopeId} (out : ¬ P i) : (s.release i).Agrees P s' := by
  refine ⟨by simp [Scopes.release, h.size], fun j => ?_, fun j hj => ?_⟩
  · rw [h.scope, Scopes.release, scope_modify]
    split <;> rfl
  · have ne : i ≠ j := fun same => out (same ▸ hj)
    rw [h.functions j hj, Scopes.release, scope_modify_of_ne ne]

end Agrees

namespace Sees

variable {P : ScopeId → Prop} {s s' : Scopes} {scopes : List ScopeId}

@[simp] theorem nil : Sees P s [] := nofun

@[simp] theorem cons {i : ScopeId} :
    Sees P s (i :: scopes) ↔ (∀ j ∈ s.path i, P j) ∧ Sees P s scopes := by
  simp [Sees]

@[simp] theorem append {scopes' : List ScopeId} :
    Sees P s (scopes ++ scopes') ↔ Sees P s scopes ∧ Sees P s scopes' := by
  simp [Sees, or_imp, forall_and]

theorem mono {scopes' : List ScopeId} (h : Sees P s scopes) (sub : scopes' ⊆ scopes) :
    Sees P s scopes' :=
  fun i hi => h i (sub hi)

theorem congr (h : Sees P s scopes) (paths : ∀ i, s'.path i = s.path i) : Sees P s' scopes := by
  intro i hi j hj
  rw [paths] at hj
  exact h i hi j hj

theorem child (h : Sees P s scopes) {parent : ScopeId} (around : ∀ j ∈ s.path parent, P j)
    (new : P s.size) : Sees P (s.child parent).2 (s.size :: scopes) := by
  have fresh : ∀ j ∈ (s.child parent).2.path s.size, P j := by
    intro j hj
    rw [path_child_size] at hj
    rcases List.mem_cons.mp hj with rfl | hj
    · exact new
    · exact around j hj
  refine cons.mpr ⟨fresh, fun i hi j hj => ?_⟩
  by_cases here : i = s.size
  · exact fresh j (here ▸ hj)
  · rw [path_child_of_ne parent here] at hj
    exact h i hi j hj

end Sees

end Scopes

/-! ## Machines with another release -/

/-- The scopes that the control works in. -/
def Control.scopes : Control → List ScopeId
  | evaluate _ i => [i]
  | deliver _ => []
  | raise _ => []

/-- The scopes that the frame goes back to. -/
def Frame.scopes : Frame → List ScopeId
  | leftOperand _ _ _ i => [i]
  | rightOperand _ _ _ => []
  | argument _ _ _ _ _ i => [i]
  | call _ _ => []
  | result i => [i]
  | declaration _ _ i => [i]
  | assignment _ _ i => [i]
  | returns i => [i]
  | branch _ _ i => [i]
  | loopTest _ _ i => [i]
  | loopBody _ _ i => [i]
  | sequence _ inner outer => [inner, outer]

/-- A stack goes back to no scope that is younger than that of the part it waits for. -/
theorem Awaits.le_of_mem_scopes {s : Scopes} {part : Part} {i : ScopeId} {stack : List Frame}
    (h : Awaits s part i stack) : ∀ k ∈ stack.flatMap Frame.scopes, k ≤ i := by
  have own {frame : Frame} {stack : List Frame} {i : ScopeId} (known : frame.scopes ⊆ [i])
      (ih : ∀ k ∈ stack.flatMap Frame.scopes, k ≤ i) :
      ∀ k ∈ (frame :: stack).flatMap Frame.scopes, k ≤ i := by
    intro k hk
    rcases List.mem_append.mp hk with hk | hk
    · exact Nat.le_of_eq (List.mem_singleton.mp (known hk))
    · exact ih k hk
  induction h with
  | nothing => exact nofun
  | leftOperand _ ih => exact own (List.Subset.refl _) ih
  | rightOperand _ ih => exact own (List.nil_subset _) ih
  | argument _ _ ih => exact own (List.Subset.refl _) ih
  | declaration _ ih => exact own (List.Subset.refl _) ih
  | assignment _ ih => exact own (List.Subset.refl _) ih
  | returns _ ih => exact own (List.Subset.refl _) ih
  | branch _ ih => exact own (List.Subset.refl _) ih
  | loopTest _ ih => exact own (List.Subset.refl _) ih
  | loopBody _ ih => exact own (List.Subset.refl _) ih
  | @sequence part rest i outer stack _ younger _ _ _ ih =>
    intro k hk
    rcases List.mem_append.mp hk with hk | hk
    · rcases List.mem_cons.mp hk with rfl | hk
      · exact Nat.le_refl _
      · exact Nat.le_of_lt (List.mem_singleton.mp hk ▸ younger)
    · exact Nat.le_of_lt (Nat.lt_of_le_of_lt (ih k hk) younger)
  | result younger _ _ _ ih =>
    refine own (List.Subset.refl _) fun k hk => ?_
    exact Nat.le_of_lt (Nat.lt_of_le_of_lt (ih k hk) younger)
  | outcome => exact own (List.Subset.refl _) nofun
  | call _ ih => exact own (List.nil_subset _) ih

/-- The scope of the block that the effect ends. -/
def Effect.closes? (s : Scopes) : Effect → Option ScopeId
  | skip _ => some s.size
  | close inner => some inner
  | leave inner _ _ => some inner
  | _ => none

section With

variable (release : Scopes → ScopeId → Scopes)

/-- The scopes that the effect leaves with another release. -/
def Effect.scopesWith : Effect → Scopes → Scopes
  | skip outer, s => release (s.child outer).2 s.size
  | close inner, s => release s inner
  | leave inner outer value, s => release (s.interrupt outer value) inner
  | e, s => e.scopes s

def Effect.applyWith (e : Effect) (w : World) : World :=
  ⟨e.scopesWith release w.scopes, w.output ++ e.written⟩

end With

namespace Effect

variable {P : ScopeId → Prop} {s s' : Scopes}

/-- The scope that the effect creates one in. -/
def parent? : Effect → Option ScopeId
  | call captured _ => some captured
  | enter outer => some outer
  | skip outer => some outer
  | _ => none

theorem size_le (e : Effect) (s : Scopes) : s.size ≤ (e.scopes s).size := by
  cases e <;> simp [Scopes.release, Scopes.interrupt]

/-- No effect moves a scope that there is. -/
theorem path_of_lt (e : Effect) {j : ScopeId} (old : j < s.size) :
    (e.scopes s).path j = s.path j := by
  have ne : j ≠ s.size := Nat.ne_of_lt old
  cases e with
  | nothing => rfl
  | write text => rfl
  | call captured bindings => rw [scopes, Scopes.path_bindParameters, Scopes.path_child_of_ne _ ne]
  | enter outer => exact Scopes.path_child_of_ne outer ne
  | skip outer => rw [scopes, Scopes.path_release, Scopes.path_child_of_ne outer ne]
  | close inner => exact Scopes.path_release s inner j
  | leave inner outer value => rw [scopes, Scopes.path_release, Scopes.path_interrupt]
  | declare i name value => exact Scopes.path_modify s i j fun _ => rfl
  | define i name function => exact Scopes.path_modify s i j fun _ => rfl
  | assign i name value => exact Scopes.path_modify s i j fun _ => rfl
  | interrupt i value => exact Scopes.path_interrupt s i j value

/-- What was seen is seen after the effect, and so is what a new scope sees if the one that it is
created in was seen. -/
theorem sees {scopes : List ScopeId} (e : Effect) (h : s.Sees P scopes) (new : P s.size)
    (around : ∀ i, e.parent? = some i → ∀ j ∈ s.path i, P j) :
    (e.scopes s).Sees P (s.size :: scopes) := by
  have empty : s.Sees P (s.size :: scopes) := by
    refine Scopes.Sees.cons.mpr ⟨fun j hj => ?_, h⟩
    rw [Scopes.path, Scopes.scope_of_size_le (Nat.le_refl _)] at hj
    exact List.mem_singleton.mp hj ▸ new
  cases e with
  | nothing => exact empty
  | write text => exact empty
  | call captured bindings =>
    exact (h.child (around captured rfl) new).congr fun j => Scopes.path_bindParameters _ _ j _
  | enter outer => exact h.child (around outer rfl) new
  | skip outer => exact (h.child (around outer rfl) new).congr (Scopes.path_release _ _)
  | close inner => exact empty.congr (Scopes.path_release s inner)
  | leave inner outer value =>
    refine empty.congr fun j => ?_
    rw [Effect.scopes, Scopes.path_release, Scopes.path_interrupt]
  | declare i name value => exact empty.congr fun j => Scopes.path_modify s i j fun _ => rfl
  | define i name function => exact empty.congr fun j => Scopes.path_modify s i j fun _ => rfl
  | assign i name value => exact empty.congr fun j => Scopes.path_modify s i j fun _ => rfl
  | interrupt i value => exact empty.congr fun j => Scopes.path_interrupt s i j value

/-- Scopes that agree still do so after the effect. If it ends a block whose functions only one of
the two forgets, they do so out of sight of the block. -/
theorem agrees (e : Effect) (h : s.Agrees P s') :
    (e.scopes s).Agrees (fun j => P j ∧ e.closes? s ≠ some j) (e.scopesWith (fun s _ => s) s') := by
  have sub {inner : Option ScopeId} (j : ScopeId) : P j ∧ inner ≠ some j → P j := And.left
  cases e with
  | nothing => exact h.mono sub
  | write text => exact h.mono sub
  | call captured bindings =>
    rw [scopesWith, scopes, scopes, h.size]
    · exact ((h.child captured).bindParameters _ _).mono sub
    all_goals simp
  | enter outer => exact (h.child outer).mono sub
  | skip outer => exact ((h.child outer).mono sub).release fun inside => inside.2 rfl
  | close inner => exact (h.mono sub).release fun inside => inside.2 rfl
  | leave inner outer value =>
    exact ((h.interrupt outer value).mono sub).release fun inside => inside.2 rfl
  | declare i name value => exact (h.addVariable i name value).mono sub
  | define i name function => exact (h.addFunction i name function).mono sub
  | assign i name value => exact (h.setVariable i name value).mono sub
  | interrupt i value => exact (h.interrupt i value).mono sub

end Effect

namespace Machine

section With

variable (release : Scopes → ScopeId → Scopes)

/-- `proceedBlock` with another release. -/
def proceedBlockWith (rest : List Stmt) (inner outer : ScopeId) (stack : List Frame)
    (world : World) : Machine :=
  match rest with
  | [] => ⟨.deliver 0, stack, { world with scopes := release world.scopes inner }⟩
  | rest => proceedBlock rest inner outer stack world

def enterWith (node : Node) (i : ScopeId) (stack : List Frame) (world : World) : Machine :=
  match node with
  | .block b =>
    let (inner, scopes) := world.scopes.child i
    proceedBlockWith release b.statements inner i stack { world with scopes }
  | node => enter node i stack world

def receiveWith (frame : Frame) (value : Int32) (stack : List Frame) (world : World) : Machine :=
  match frame with
  | .sequence rest inner outer =>
    if world.scopes.isInterrupted inner then
      let value := world.scopes.result inner
      proceedBlockWith release [] inner outer stack
        { world with scopes := world.scopes.interrupt outer value }
    else proceedBlockWith release rest inner outer stack world
  | frame => receive frame value stack world

def unwindWith (frame : Frame) (fault : Fault) (stack : List Frame) (world : World) : Machine :=
  match frame with
  | .sequence _ inner _ =>
    ⟨.raise fault, stack, { world with scopes := release world.scopes inner }⟩
  | frame => unwind frame fault stack world

/-- The next step of a machine that ends blocks with another release. -/
def stepWith : Machine → Machine
  | ⟨.evaluate node i, stack, world⟩ => enterWith release node i stack world
  | ⟨.deliver value, frame :: stack, world⟩ => receiveWith release frame value stack world
  | ⟨.raise fault, frame :: stack, world⟩ => unwindWith release frame fault stack world
  | m => m

def afterWith : (count : Nat) → Machine → Machine
  | 0, m => m
  | count + 1, m => afterWith count (stepWith release m)

end With

/-- The scope of the block that ends with the next step: after its last statement, because a
statement has returned, because of a fault, or at once if the block is empty. -/
def closes? : Machine → Option ScopeId
  | ⟨.evaluate (.block b) _, _, world⟩ =>
    if b.statements.isEmpty then some world.scopes.size else none
  | ⟨.deliver _, .sequence rest inner _ :: _, world⟩ =>
    if rest.isEmpty || world.scopes.isInterrupted inner then some inner else none
  | ⟨.raise _, .sequence _ inner _ :: _, _⟩ => some inner
  | _ => none

/-! ## Moves with another release -/

section Moves

variable {control control' : Control} {taken pushed : List Frame} {effect : Effect}
  {world : World} (stack : List Frame)

theorem closes?_of_moves (moves : Moves world.scopes control taken effect control' pushed) :
    closes? ⟨control, taken ++ stack, world⟩ = effect.closes? world.scopes := by
  cases moves with
  | begins begins =>
    cases begins with
    | next running => simp [closes?, Effect.closes?, running]
    | loopTest loops => cases loops <;> rfl
    | argument calls => cases calls <;> rfl
    | _ => rfl
  | yields yields =>
    cases yields with
    | loop loops => cases loops <;> rfl
    | _ => rfl
  | fails fails =>
    cases fails with
    | declaration declares => cases declares <;> rfl
    | _ => rfl
  | write calls => cases calls <;> rfl
  | call calls => cases calls <;> rfl
  | mismatch calls => cases calls <;> rfl
  | declare declares => cases declares <;> rfl
  | enter statements => simp [closes?, Effect.closes?, statements]
  | skip empty => simp [closes?, Effect.closes?, empty]
  | leave returned => simp [closes?, Effect.closes?, returned]
  | @pass fault frame passes =>
    cases frame with
    | sequence => exact passes.elim
    | _ => rfl
  | _ => rfl

variable (release : Scopes → ScopeId → Scopes)

/-- Where no block ends, the release does not matter. -/
theorem stepWith_of_open {m : Machine} (none : m.closes? = none) : stepWith release m = m.step := by
  obtain ⟨control, stack, world⟩ := m
  cases control with
  | evaluate node i =>
    cases node with
    | block b =>
      obtain ⟨statements, line⟩ := b
      cases statements with
      | nil => cases none
      | cons t rest => rfl
    | _ => rfl
  | deliver value =>
    cases stack with
    | nil => rfl
    | cons frame stack =>
      cases frame with
      | sequence rest inner outer =>
        cases rest with
        | nil => cases none
        | cons t rest =>
          have running : world.scopes.isInterrupted inner = false := by
            simpa [closes?] using none
          simp only [stepWith, receiveWith, step, receive, running]
          rfl
      | _ => rfl
  | raise fault =>
    cases stack with
    | nil => rfl
    | cons frame stack =>
      cases frame with
      | sequence => cases none
      | _ => rfl

theorem stepWith_of_moves (moves : Moves world.scopes control taken effect control' pushed) :
    stepWith release ⟨control, taken ++ stack, world⟩ =
      ⟨control', pushed ++ stack, effect.applyWith release world⟩ := by
  have other (none : effect.closes? world.scopes = none) :
      stepWith release ⟨control, taken ++ stack, world⟩ =
        ⟨control', pushed ++ stack, effect.apply world⟩ := by
    rw [stepWith_of_open release ((closes?_of_moves stack moves).trans none),
      step_of_moves stack world moves]
  cases moves with
  | skip empty =>
    simp [stepWith, enterWith, proceedBlockWith, empty, Effect.applyWith, Effect.scopesWith]
  | close running =>
    simp [stepWith, receiveWith, proceedBlockWith, running, Effect.applyWith, Effect.scopesWith]
  | leave returned =>
    simp [stepWith, receiveWith, proceedBlockWith, returned, Effect.applyWith, Effect.scopesWith]
  | abandon => simp [stepWith, unwindWith, Effect.applyWith, Effect.scopesWith]
  | _ => exact other rfl

end Moves

theorem closes?_of_outcome? {m : Machine} {outcome : Except Fault Int32}
    (ended : m.outcome? = some outcome) : m.closes? = none := by
  obtain ⟨control, stack, world⟩ := m
  obtain ⟨empty, ⟨value, delivered, -⟩ | ⟨fault, raised, -⟩⟩ := outcome?_eq_some_iff.mp ended
  · cases empty
    cases delivered
    rfl
  · cases empty
    cases raised
    rfl

/-- With the release that there is, the machine is the one that there is. -/
theorem stepWith_release (m : Machine) : stepWith Scopes.release m = m.step := by
  obtain ⟨⟨outcome, ended⟩, -⟩ |
    ⟨control, taken, effect, control', pushed, stack, world, rfl, next, moves⟩ := m.step_cases
  · exact stepWith_of_open _ (closes?_of_outcome? ended)
  · rw [next, stepWith_of_moves stack _ moves]
    cases effect <;> rfl

theorem afterWith_release (n : Nat) (m : Machine) : afterWith Scopes.release n m = m.after n := by
  induction n generalizing m with
  | zero => rfl
  | succ n ih => rw [afterWith, stepWith_release, ih, after_succ]

/-! ## Machines that differ out of sight -/

/-- Worlds that are the same as far as the stack can see, and scopes to come will be in sight. -/
structure Alike (P : ScopeId → Prop) (stack : List Frame) (world world' : World) : Prop where
  output : world'.output = world.output
  scopes : world.scopes.Agrees P world'.scopes
  new : ∀ j, world.scopes.size ≤ j → P j
  below : world.scopes.Sees P (stack.flatMap Frame.scopes)

/-- Both machines are about to do the same, and see the same. -/
structure Matches (P : ScopeId → Prop) (m m' : Machine) : Prop where
  control : m'.control = m.control
  stack : m'.stack = m.stack
  alike : Alike P m.stack m.world m'.world
  here : m.world.scopes.Sees P m.control.scopes

/-- The machine that keeps functions. -/
abbrev keep : Scopes → ScopeId → Scopes := fun s _ => s

/-! ### Moves of machines that see the same -/

section Moves

variable {P : ScopeId → Prop} {s s' : Scopes} {control control' : Control}
  {taken pushed : List Frame} {effect : Effect} {i : ScopeId}

theorem Calls.mem_scopes {function : Function} {name : String} {line : Nat} {done : List Int32}
    {todo : List Expr} (calls : Calls s control taken function name line done todo i) :
    i ∈ control.scopes ++ taken.flatMap Frame.scopes := by
  cases calls <;> simp [Control.scopes, Frame.scopes]

theorem Loops.mem_scopes {condition : Expr} {body : Block}
    (loops : Loops control taken condition body i) :
    i ∈ control.scopes ++ taken.flatMap Frame.scopes := by
  cases loops <;> simp [Control.scopes, Frame.scopes]

theorem Begins.scopes_subset {node : Node} (begins : Begins s control taken node i pushed) :
    i :: pushed.flatMap Frame.scopes ⊆ control.scopes ++ taken.flatMap Frame.scopes := by
  cases begins with
  | loopTest loops => simpa [Frame.scopes] using loops.mem_scopes
  | argument calls => simpa [Frame.scopes] using calls.mem_scopes
  | _ => simp [Control.scopes, Frame.scopes]

/-- A move goes back to no scope but to those that the machine was to go back to, and to the one
that is new. -/
theorem Moves.scopes_subset (moves : Moves s control taken effect control' pushed) :
    control'.scopes ++ pushed.flatMap Frame.scopes ⊆
      s.size :: (control.scopes ++ taken.flatMap Frame.scopes) := by
  cases moves with
  | begins begins => exact List.subset_cons_of_subset _ begins.scopes_subset
  | _ => simp [Control.scopes, Frame.scopes]

variable (agrees : s.Agrees P s') (here : s.Sees P control.scopes)

include agrees here

theorem Calls.congr {function : Function} {name : String} {line : Nat} {done : List Int32}
    {todo : List Expr} (calls : Calls s control taken function name line done todo i) :
    Calls s' control taken function name line done todo i := by
  cases calls with
  | begin found => exact .begin ((agrees.function? (Scopes.Sees.cons.mp here).1 _).trans found)
  | argument => exact .argument

theorem Begins.congr {node : Node} (begins : Begins s control taken node i pushed) :
    Begins s' control taken node i pushed := by
  cases begins with
  | next running => exact .next ((agrees.isInterrupted _).trans running)
  | loopTest loops running => exact .loopTest loops ((agrees.isInterrupted _).trans running)
  | argument calls => exact .argument (calls.congr agrees here)
  | program => exact .program
  | expression => exact .expression
  | declaration => exact .declaration
  | assignment => exact .assignment
  | returns => exact .returns
  | branch => exact .branch
  | chosen chosen => exact .chosen chosen
  | loopBody holds => exact .loopBody holds
  | leftOperand => exact .leftOperand
  | rightOperand => exact .rightOperand

omit here in
theorem Yields.congr {value : Int32} (yields : Yields s control taken value) :
    Yields s' control taken value := by
  cases yields with
  | literal => exact .literal
  | identifier bound => exact .identifier ((agrees.get? _ _).trans bound)
  | operator applied => exact .operator applied
  | call => exact .call
  | result =>
    rw [← agrees.result]
    exact .result
  | branch none => exact .branch none
  | loopTest => exact .loopTest
  | loop loops returned => exact .loop loops ((agrees.isInterrupted _).trans returned)

theorem Fails.congr {fault : Fault} (fails : Fails s control taken fault) :
    Fails s' control taken fault := by
  cases fails with
  | identifier unbound => exact .identifier ((agrees.get? _ _).trans unbound)
  | target unbound => exact .target ((agrees.holder? _ _).trans unbound)
  | function unbound =>
    exact .function ((agrees.function? (Scopes.Sees.cons.mp here).1 _).trans unbound)
  | declaration declares bound =>
    exact .declaration declares ((congrArg Option.isSome (agrees.valueOf? _ _)).trans bound)
  | definition bound =>
    have inside := (Scopes.Sees.cons.mp here).1 _ (Scopes.mem_path_self ..)
    exact .definition ((congrArg Option.isSome (agrees.functionOf? inside _)).trans bound)
  | operator undefined => exact .operator undefined

/-- Scopes that look the same allow the same moves. -/
theorem Moves.congr (moves : Moves s control taken effect control' pushed) :
    Moves s' control taken effect control' pushed := by
  cases moves with
  | begins begins => exact .begins (begins.congr agrees here)
  | yields yields => exact .yields (yields.congr agrees)
  | fails fails => exact .fails (fails.congr agrees here)
  | write calls => exact .write (calls.congr agrees here)
  | call calls fits =>
    rw [← agrees.size]
    exact .call (calls.congr agrees here) fits
  | mismatch calls differ => exact .mismatch (calls.congr agrees here) differ
  | enter statements =>
    rw [← agrees.size]
    exact .enter statements
  | skip empty => exact .skip empty
  | close running => exact .close ((agrees.isInterrupted _).trans running)
  | leave returned =>
    rw [← agrees.result]
    exact .leave ((agrees.isInterrupted _).trans returned)
  | abandon => exact .abandon
  | declare declares free =>
    exact .declare declares ((congrArg Option.isSome (agrees.valueOf? _ _)).trans free)
  | define free =>
    have inside := (Scopes.Sees.cons.mp here).1 _ (Scopes.mem_path_self ..)
    exact .define ((congrArg Option.isSome (agrees.functionOf? inside _)).trans free)
  | assign holder => exact .assign ((agrees.holder? _ _).trans holder)
  | interrupt => exact .interrupt
  | rename => exact .rename
  | pass passes => exact .pass passes

end Moves

/-- The block that a move ends has the youngest scope of those that the machine still knows. -/
theorem Coherent.of_closes {control control' : Control} {taken pushed stack : List Frame}
    {effect : Effect} {world : World} {inner : ScopeId}
    (h : Coherent ⟨control, taken ++ stack, world⟩)
    (moves : Moves world.scopes control taken effect control' pushed)
    (closes : effect.closes? world.scopes = some inner) :
    control'.scopes ++ pushed.flatMap Frame.scopes = [] ∧
      inner < (effect.scopes world.scopes).size ∧ inner ≤ world.scopes.size ∧
      ∃ part outer, outer < inner ∧ Awaits world.scopes part outer stack := by
  cases moves with
  | skip empty =>
    cases closes
    cases h with
    | evaluate sound created running below =>
      exact ⟨rfl, by simp [Scopes.release], Nat.le_refl _, _, _, created, below⟩
  | close =>
    cases closes
    obtain ⟨created, younger, -, -, below⟩ := h.of_sequence
    exact ⟨rfl, by simpa [Scopes.release] using created, Nat.le_of_lt created, _, _, younger, below⟩
  | leave =>
    cases closes
    obtain ⟨created, younger, -, -, below⟩ := h.of_sequence
    exact ⟨rfl, by simpa [Scopes.release, Scopes.interrupt] using created, Nat.le_of_lt created, _,
      _, younger, below⟩
  | abandon =>
    cases closes
    cases h with
    | raise part sound created below =>
      cases below with
      | sequence _ younger _ _ below =>
        exact ⟨rfl, by simpa [Scopes.release] using created, Nat.le_of_lt created, _, _, younger,
          below⟩
  | _ => cases closes

/-- Where a move creates a scope, the machine sees the scope around it. -/
theorem Coherent.of_parent {control control' : Control} {taken pushed stack : List Frame}
    {effect : Effect} {world : World} {i : ScopeId}
    (h : Coherent ⟨control, taken ++ stack, world⟩)
    (moves : Moves world.scopes control taken effect control' pushed)
    (parent : effect.parent? = some i) :
    ∃ k ∈ control.scopes ++ taken.flatMap Frame.scopes, i ∈ world.scopes.path k := by
  cases moves with
  | call calls =>
    cases parent
    obtain ⟨-, -, found, -⟩ := h.of_calls calls
    exact ⟨_, calls.mem_scopes, found _ rfl⟩
  | enter =>
    cases parent
    exact ⟨_, by simp [Control.scopes], Scopes.mem_path_self ..⟩
  | skip =>
    cases parent
    exact ⟨_, by simp [Control.scopes], Scopes.mem_path_self ..⟩
  | _ => cases parent

namespace Matches

variable {P : ScopeId → Prop}

/-- Nothing more gets out of sight if no block ends. -/
theorem of_open {m m' : Machine} {closed : Option ScopeId} (h : Matches P m m')
    (none : closed = none) : Matches (fun j => P j ∧ closed ≠ some j) m m' := by
  subst none
  simpa using h

/-- Machines that match take matching steps. A block that ends gets out of sight. -/
theorem step {m m' : Machine} (coherent : m.Coherent) (h : Matches P m m') :
    Matches (fun j => P j ∧ m.closes? ≠ some j) m.step (stepWith keep m') := by
  obtain ⟨control', stack', world'⟩ := m'
  obtain ⟨rfl, rfl, ⟨output, agrees, new, below⟩, here⟩ := h
  obtain ⟨⟨outcome, ended⟩, same⟩ |
    ⟨control, taken, effect, control', pushed, stack, world, rfl, next, moves⟩ := m.step_cases
  · have left := outcome?_eq_some_iff.mp ended
    have ended' : outcome? ⟨m.control, m.stack, world'⟩ = some outcome :=
      outcome?_eq_some_iff.mpr left
    rw [same, stepWith_of_open keep (closes?_of_outcome? ended'), step_of_outcome? ended']
    exact of_open ⟨rfl, rfl, ⟨output, agrees, new, below⟩, here⟩ (closes?_of_outcome? ended)
  · have moves' := moves.congr agrees here
    rw [next, stepWith_of_moves stack keep moves', closes?_of_moves stack moves]
    have output' : (effect.applyWith keep world').output = (effect.apply world).output :=
      congrArg (· ++ effect.written) output
    have agrees' := effect.agrees agrees
    have grown := effect.size_le world.scopes
    rw [List.flatMap_append] at below
    obtain ⟨above, below⟩ := Scopes.Sees.append.mp below
    cases closes : effect.closes? world.scopes with
    | none =>
      have known := Scopes.Sees.append.mpr ⟨here, above⟩
      have seen : (effect.scopes world.scopes).Sees P
          ((world.scopes.size :: (control.scopes ++ taken.flatMap Frame.scopes)) ++
            stack.flatMap Frame.scopes) := by
        refine effect.sees (Scopes.Sees.append.mpr ⟨known, below⟩) (new _ (Nat.le_refl _)) ?_
        intro i parent j hj
        obtain ⟨k, hk, hi⟩ := coherent.of_parent moves parent
        exact known k hk j (coherent.sound.path_subset hi hj)
      obtain ⟨moved, waiting⟩ := Scopes.Sees.append.mp seen
      obtain ⟨here', above'⟩ := Scopes.Sees.append.mp (moved.mono moves.scopes_subset)
      refine of_open ⟨rfl, rfl, ⟨output', ?_, ?_, ?_⟩, here'⟩ rfl
      · exact agrees'.mono fun j hj => ⟨hj, by simp [closes]⟩
      · exact fun j le => new j (Nat.le_trans grown le)
      · rw [List.flatMap_append]
        exact Scopes.Sees.append.mpr ⟨above', waiting⟩
    | some inner =>
      -- The scope of the block is younger than all that those who wait can see.
      obtain ⟨nothing, created, le, part, outer, younger, awaits⟩ :=
        coherent.of_closes moves closes
      obtain ⟨nothing, none⟩ := List.append_eq_nil_iff.mp nothing
      refine ⟨rfl, rfl, ⟨output', closes ▸ agrees', fun j le' => ⟨?_, ?_⟩, ?_⟩, ?_⟩
      · exact new j (Nat.le_trans grown le')
      · exact fun same => Nat.ne_of_lt (Nat.lt_of_lt_of_le created le') (Option.some.inj same)
      · rw [List.flatMap_append, none, List.nil_append]
        intro k hk j hj
        have older : k < inner := Nat.lt_of_le_of_lt (awaits.le_of_mem_scopes k hk) younger
        rw [Effect.apply_scopes, effect.path_of_lt (Nat.lt_of_lt_of_le older le)] at hj
        refine ⟨below k hk j hj, fun same => ?_⟩
        exact Nat.ne_of_gt (Nat.lt_of_le_of_lt (coherent.sound.le_of_mem_path hj) older)
          (Option.some.inj same)
      · rw [nothing]
        exact .nil

/-- Machines that match do so ever after, and no block that ends is seen again. -/
theorem after {m m' : Machine} (coherent : m.Coherent) (h : Matches P m m') (n : Nat) :
    Matches (fun j => P j ∧ ∀ k < n, (m.after k).closes? ≠ some j) (m.after n)
      (afterWith keep n m') := by
  induction n generalizing P m m' with
  | zero =>
    have same : (fun j => P j ∧ ∀ k < 0, (m.after k).closes? ≠ some j) = P := by
      funext j
      simp
    rwa [same]
  | succ n ih =>
    have same : (fun j => P j ∧ ∀ k < n + 1, (m.after k).closes? ≠ some j) =
        fun j => (P j ∧ m.closes? ≠ some j) ∧ ∀ k < n, (m.step.after k).closes? ≠ some j := by
      funext j
      refine propext ⟨fun ⟨inside, never⟩ => ⟨⟨inside, never 0 (Nat.succ_pos n)⟩, ?_⟩, ?_⟩
      · exact fun k lt => never (k + 1) (Nat.succ_lt_succ lt)
      · rintro ⟨⟨inside, now⟩, later⟩
        refine ⟨inside, fun k lt => ?_⟩
        cases k with
        | zero => exact now
        | succ k => exact later k (Nat.lt_of_succ_lt_succ lt)
    rw [same]
    exact ih coherent.step (h.step coherent)

theorem outcome? {m m' : Machine} (h : Matches P m m') : m'.outcome? = m.outcome? := by
  obtain ⟨c, s, w⟩ := m
  obtain ⟨c', s', w'⟩ := m'
  cases h.control
  cases h.stack
  cases c <;> cases s <;> rfl

theorem visit? {m m' : Machine} (h : Matches P m m') : m'.visit? = m.visit? := by
  obtain ⟨c, s, w⟩ := m
  obtain ⟨c', s', w'⟩ := m'
  cases h.control
  cases c <;> rfl

/-- What is visited is visited in sight. -/
theorem of_visit? {m m' : Machine} (h : Matches P m m') {node : Node} {i : ScopeId}
    (visit : m.visit? = some (node, i)) : ∀ j ∈ m.world.scopes.path i, P j := by
  obtain ⟨control, stack, world⟩ := m
  have here := h.here
  cases control with
  | evaluate node' i' =>
    simp only [Machine.visit?] at visit
    split at visit
    · cases visit
      exact (Scopes.Sees.cons.mp here).1
    · cases visit
  | deliver => cases visit
  | raise => cases visit

end Matches

/-- Forgetting the functions of blocks that have ended cannot be observed: a machine that keeps them
ends in the same way, writes the same and visits the same, and sees the same variables and functions
wherever it is. No path from a later visit leads to a block that has ended. -/
theorem release_unobservable (program : Program) :
    (∀ n, afterWith Scopes.release n (ofProgram program) = (ofProgram program).after n) ∧
    (∀ n,
      (afterWith keep n (ofProgram program)).outcome? = ((ofProgram program).after n).outcome? ∧
      (afterWith keep n (ofProgram program)).world.output =
        ((ofProgram program).after n).world.output ∧
      (afterWith keep n (ofProgram program)).visit? = ((ofProgram program).after n).visit? ∧
      ∀ node i, ((ofProgram program).after n).visit? = some (node, i) → ∀ name,
        (afterWith keep n (ofProgram program)).world.scopes.get? i name =
          ((ofProgram program).after n).world.scopes.get? i name ∧
        (afterWith keep n (ofProgram program)).world.scopes.function? i name =
          ((ofProgram program).after n).world.scopes.function? i name) ∧
    ∀ n k i, ((ofProgram program).after n).closes? = some i → n < k →
      ∀ node j, ((ofProgram program).after k).visit? = some (node, j) →
        i ∉ ((ofProgram program).after k).world.scopes.path j := by
  have start : Matches (fun _ => True) (ofProgram program) (ofProgram program) :=
    ⟨rfl, rfl, ⟨rfl, .refl _ _, fun _ _ => trivial, fun _ _ _ _ => trivial⟩, fun _ _ _ _ => trivial⟩
  have matching := start.after (coherent_ofProgram program)
  refine ⟨fun n => afterWith_release n _, fun n => ?_, fun n k i closes lt node j visit hi => ?_⟩
  · have alike := matching n
    refine ⟨alike.outcome?, alike.alike.output, alike.visit?, fun node i visit name => ⟨?_, ?_⟩⟩
    · exact alike.alike.scopes.get? i name
    · exact alike.alike.scopes.function? (alike.of_visit? visit) name
  · exact ((matching k).of_visit? visit i hi).2 n lt closes

/-- A block that defines a function, and a statement after the block. -/
def definitionInBlock : Program :=
  ⟨⟨[.branch (.literal 1 1) ⟨[.definition "f" [] ⟨[], 1⟩ 1], 1⟩ none 1,
    .returns (.literal 0 2) 2], 1⟩, 1⟩

theorem release_unobservable_of_branch :
    ((ofProgram definitionInBlock).after 7).closes? = some 2 ∧
    ((ofProgram definitionInBlock).after 9).visit? =
      some (.statement (.returns (.literal 0 2) 2), 1) ∧
    2 ∉ ((ofProgram definitionInBlock).after 9).world.scopes.path 1 ∧
    (afterWith keep 9 (ofProgram definitionInBlock)).world.scopes.function? 1 "f" =
      ((ofProgram definitionInBlock).after 9).world.scopes.function? 1 "f" := by
  obtain ⟨-, same, unseen⟩ := release_unobservable definitionInBlock
  have closes : ((ofProgram definitionInBlock).after 7).closes? = some 2 := by
    rfl
  have visit : ((ofProgram definitionInBlock).after 9).visit? =
      some (.statement (.returns (.literal 0 2) 2), 1) := by
    rfl
  exact ⟨closes, visit, unseen 7 9 2 closes (by decide) _ 1 visit,
    ((same 9).2.2.2 _ 1 visit "f").2⟩

end Machine

end FunLanguage
