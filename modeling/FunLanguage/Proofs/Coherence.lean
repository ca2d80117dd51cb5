import FunLanguage.Proofs.Moves

/-!
# Coherent machines

The stack of a machine that runs a program is no arbitrary list of frames: what a frame waits for,
and the scope it works in, follow from what lies below it. `Awaits` says so frame by frame. It also
says that no scope the stack goes back to is interrupted, and that the scope of a block or of a call
is younger than every scope below it. `Coherent` adds that the scopes are sound, and that the scope
of the part under way is interrupted at most once the part has been evaluated.

Every step keeps a machine coherent (`Coherent.step`), and a program starts out so
(`coherent_ofProgram`). Hence nothing is ever visited in a scope that is about to return
(`Coherent.uninterrupted_of_visit`).
-/

namespace FunLanguage

/-- What a stack can wait for. -/
inductive Part where
  | program
  | block
  | statement
  | expression
  /-- A function applied to arguments. -/
  | application
  deriving DecidableEq

/-- What the node is to the stack that waits for it. -/
def Node.part : Node → Part
  | program _ => .program
  | block _ => .block
  | statement _ => .statement
  | expression _ => .expression

/-- The stack waits for a part of the program that is evaluated in scope `i`. -/
inductive Awaits (s : Scopes) : Part → ScopeId → List Frame → Prop
  /-- Nothing waits for the part. -/
  | nothing {part i} (around : ∀ j ∈ (s.scope i).ancestors, s.isInterrupted j = false) :
      Awaits s part i []
  | leftOperand {operator right line i stack} (below : Awaits s .expression i stack) :
      Awaits s .expression i (.leftOperand operator right line i :: stack)
  | rightOperand {operator left line i stack} (below : Awaits s .expression i stack) :
      Awaits s .expression i (.rightOperand operator left line :: stack)
  /-- The function was found from the scope of the call. -/
  | argument {function name line done todo i stack}
      (found : ∀ c, function = .closure c → c.scope ∈ s.path i)
      (below : Awaits s .expression i stack) :
      Awaits s .expression i (.argument function name line done todo i :: stack)
  | declaration {name line i stack} (below : Awaits s .statement i stack) :
      Awaits s .expression i (.declaration name line i :: stack)
  | assignment {name line i stack} (below : Awaits s .statement i stack) :
      Awaits s .expression i (.assignment name line i :: stack)
  | returns {i stack} (below : Awaits s .statement i stack) :
      Awaits s .expression i (.returns i :: stack)
  | branch {body otherwise? i stack} (below : Awaits s .statement i stack) :
      Awaits s .expression i (.branch body otherwise? i :: stack)
  | loopTest {condition body i stack} (below : Awaits s .statement i stack) :
      Awaits s .expression i (.loopTest condition body i :: stack)
  | loopBody {condition body i stack} (below : Awaits s .statement i stack) :
      Awaits s .block i (.loopBody condition body i :: stack)
  /-- A statement of a block, or what the statement ends with: a block of its own, or an
  expression. -/
  | sequence {part rest i outer stack} (kind : part ≠ .program ∧ part ≠ .application)
      (younger : outer < i) (around : (s.scope i).ancestors = s.path outer)
      (running : s.isInterrupted outer = false) (below : Awaits s .block outer stack) :
      Awaits s part i (.sequence rest i outer :: stack)
  /-- The body of a function, whose scope sees only scopes that the call sees. -/
  | result {i caller stack} (younger : caller < i)
      (around : (s.scope i).ancestors ⊆ s.path caller) (running : s.isInterrupted caller = false)
      (below : Awaits s .application caller stack) : Awaits s .block i (.result i :: stack)
  /-- The block of the program itself, or the body of a function that nothing in the
  program called. -/
  | outcome {i} (around : ∀ j ∈ (s.scope i).ancestors, s.isInterrupted j = false) :
      Awaits s .block i [.result i]
  | call {name line i stack} (below : Awaits s .expression i stack) :
      Awaits s .application i (.call name line :: stack)

namespace Awaits

variable {s s' : Scopes} {part : Part} {i : ScopeId} {stack : List Frame}

/-- No scope around the part is interrupted. -/
theorem uninterrupted (h : Awaits s part i stack) :
    ∀ j ∈ (s.scope i).ancestors, s.isInterrupted j = false := by
  induction h with
  | nothing around => exact around
  | leftOperand _ ih => exact ih
  | rightOperand _ ih => exact ih
  | argument _ _ ih => exact ih
  | declaration _ ih => exact ih
  | assignment _ ih => exact ih
  | returns _ ih => exact ih
  | branch _ ih => exact ih
  | loopTest _ ih => exact ih
  | loopBody _ ih => exact ih
  | sequence _ _ around running _ ih =>
    intro j hj
    rw [around] at hj
    rcases List.mem_cons.mp hj with rfl | hj
    · exact running
    · exact ih j hj
  | result _ around running _ ih =>
    intro j hj
    rcases List.mem_cons.mp (around hj) with rfl | hj
    · exact running
    · exact ih j hj
  | outcome around => exact around
  | call _ ih => exact ih

/-- The stack waits as before if the scopes up to that of the part are where they were, and none
below it has been interrupted. -/
theorem mono (h : Awaits s part i stack) (sound : s.Sound)
    (paths : ∀ j ≤ i, s'.path j = s.path j)
    (running : ∀ j < i, s.isInterrupted j = false → s'.isInterrupted j = false) :
    Awaits s' part i stack := by
  have ancestors {j} (le : j ≤ i) : (s'.scope j).ancestors = (s.scope j).ancestors :=
    List.tail_eq_of_cons_eq (paths j le)
  induction h with
  | nothing around =>
    refine .nothing fun j hj => ?_
    rw [ancestors (Nat.le_refl _)] at hj
    exact running j (sound.lt_of_mem_ancestors hj) (around j hj)
  | leftOperand _ ih => exact .leftOperand (ih paths running ancestors)
  | rightOperand _ ih => exact .rightOperand (ih paths running ancestors)
  | argument found _ ih =>
    refine .argument (fun c hc => ?_) (ih paths running ancestors)
    rw [paths _ (Nat.le_refl _)]
    exact found c hc
  | declaration _ ih => exact .declaration (ih paths running ancestors)
  | assignment _ ih => exact .assignment (ih paths running ancestors)
  | returns _ ih => exact .returns (ih paths running ancestors)
  | branch _ ih => exact .branch (ih paths running ancestors)
  | loopTest _ ih => exact .loopTest (ih paths running ancestors)
  | loopBody _ ih => exact .loopBody (ih paths running ancestors)
  | sequence kind younger around outside _ ih =>
    refine .sequence kind younger ?_ (running _ younger outside)
      (ih (fun j hj => paths j (Nat.le_trans hj (Nat.le_of_lt younger)))
        (fun j hj => running j (Nat.lt_trans hj younger))
        fun hj => ancestors (Nat.le_trans hj (Nat.le_of_lt younger)))
    rw [ancestors (Nat.le_refl _), paths _ (Nat.le_of_lt younger)]
    exact around
  | result younger around outside _ ih =>
    refine .result younger ?_ (running _ younger outside)
      (ih (fun j hj => paths j (Nat.le_trans hj (Nat.le_of_lt younger)))
        (fun j hj => running j (Nat.lt_trans hj younger))
        fun hj => ancestors (Nat.le_trans hj (Nat.le_of_lt younger)))
    rw [ancestors (Nat.le_refl _), paths _ (Nat.le_of_lt younger)]
    exact around
  | outcome around =>
    refine .outcome fun j hj => ?_
    rw [ancestors (Nat.le_refl _)] at hj
    exact running j (sound.lt_of_mem_ancestors hj) (around j hj)
  | call _ ih => exact .call (ih paths running ancestors)

theorem modify (h : Awaits s part i stack) (sound : s.Sound) (k : ScopeId) {f : Scope → Scope}
    (ancestors : ∀ t, (f t).ancestors = t.ancestors)
    (interrupt? : ∀ t, (f t).interrupt? = t.interrupt?) : Awaits (s.modify k f) part i stack := by
  refine h.mono sound (fun j _ => Scopes.path_modify s k j ancestors) fun j _ running => ?_
  rw [Scopes.isInterrupted_modify s k j interrupt?]
  exact running

theorem bindParameters (h : Awaits s part i stack) (sound : s.Sound) (k : ScopeId)
    (bindings : List (String × Int32)) : Awaits (s.bindParameters k bindings) part i stack := by
  refine h.mono sound (fun j _ => Scopes.path_bindParameters s k j bindings) fun j _ running => ?_
  rw [Scopes.isInterrupted_bindParameters]
  exact running

/-- Interrupting the scope of the part, or a younger one, is nothing to those who wait. -/
theorem interrupt (h : Awaits s part i stack) (sound : s.Sound) {k : ScopeId} (le : i ≤ k)
    (value : Int32) : Awaits (s.interrupt k value) part i stack := by
  refine h.mono sound (fun j _ => Scopes.path_modify s k j fun _ => rfl) fun j lt running => ?_
  rw [Scopes.isInterrupted_interrupt_of_ne (Nat.ne_of_gt (Nat.lt_of_lt_of_le lt le))]
  exact running

theorem child (h : Awaits s part i stack) (sound : s.Sound) (created : i < s.size)
    (parent : ScopeId) : Awaits (s.child parent).2 part i stack := by
  have old {j : ScopeId} (le : j ≤ i) : j ≠ s.size := Nat.ne_of_lt (Nat.lt_of_le_of_lt le created)
  refine h.mono sound (fun j le => Scopes.path_child_of_ne parent (old le)) fun j lt running => ?_
  rw [Scopes.isInterrupted_child_of_ne parent (old (Nat.le_of_lt lt))]
  exact running

/-- What waits for a statement can be given an expression that ends it. -/
theorem expression_of_statement (h : Awaits s .statement i stack) :
    Awaits s .expression i stack := by
  cases h with
  | nothing around => exact .nothing around
  | sequence _ younger around running below =>
    exact .sequence (by decide) younger around running below

/-- What waits for a statement can be given a block that ends it. -/
theorem block_of_statement (h : Awaits s .statement i stack) : Awaits s .block i stack := by
  cases h with
  | nothing around => exact .nothing around
  | sequence _ younger around running below =>
    exact .sequence (by decide) younger around running below

/-- What waits for a program can be given its block, and takes what the block returns. -/
theorem block_of_program (h : Awaits s .program i stack) :
    Awaits s .block i (.result i :: stack) := by
  cases h with
  | nothing around => exact .outcome around
  | sequence kind => exact absurd rfl kind.1

/-- Below a frame there waits a stack for a part in the same scope, or in an older one. -/
theorem pop {frame : Frame} (h : Awaits s part i (frame :: stack)) :
    ∃ part' j, j ≤ i ∧ Awaits s part' j stack := by
  cases h with
  | leftOperand below => exact ⟨_, i, Nat.le_refl i, below⟩
  | rightOperand below => exact ⟨_, i, Nat.le_refl i, below⟩
  | argument _ below => exact ⟨_, i, Nat.le_refl i, below⟩
  | declaration below => exact ⟨_, i, Nat.le_refl i, below⟩
  | assignment below => exact ⟨_, i, Nat.le_refl i, below⟩
  | returns below => exact ⟨_, i, Nat.le_refl i, below⟩
  | branch below => exact ⟨_, i, Nat.le_refl i, below⟩
  | loopTest below => exact ⟨_, i, Nat.le_refl i, below⟩
  | loopBody below => exact ⟨_, i, Nat.le_refl i, below⟩
  | sequence _ younger _ _ below => exact ⟨_, _, Nat.le_of_lt younger, below⟩
  | result younger _ _ below => exact ⟨_, _, Nat.le_of_lt younger, below⟩
  | outcome around => exact ⟨.program, i, Nat.le_refl i, .nothing around⟩
  | call below => exact ⟨_, i, Nat.le_refl i, below⟩

end Awaits

namespace Machine

/-- The machine is in a state that the run of a program can come to. -/
inductive Coherent : Machine → Prop
  | evaluate {node i stack world} (sound : world.scopes.Sound) (created : i < world.scopes.size)
      (running : world.scopes.isInterrupted i = false)
      (below : Awaits world.scopes node.part i stack) : Coherent ⟨.evaluate node i, stack, world⟩
  /-- Only a block or a statement can leave its scope interrupted. -/
  | deliver {value i stack world} (part : Part) (sound : world.scopes.Sound)
      (created : i < world.scopes.size)
      (running : part = .expression ∨ part = .application → world.scopes.isInterrupted i = false)
      (below : Awaits world.scopes part i stack) : Coherent ⟨.deliver value, stack, world⟩
  | raise {fault i stack world} (part : Part) (sound : world.scopes.Sound)
      (created : i < world.scopes.size) (below : Awaits world.scopes part i stack) :
      Coherent ⟨.raise fault, stack, world⟩

/-! ## New scopes -/

theorem apply_closure (c : Closure) (arguments : List Int32) (stack : List Frame) (world : World) :
    apply (.closure c) arguments stack world =
      if arguments.length = c.parameters.length then
        ⟨.evaluate (.block c.body) world.scopes.size, .result world.scopes.size :: stack,
          { world with
            scopes := (world.scopes.child c.scope).2.bindParameters world.scopes.size
              (c.parameters.zip arguments) }⟩
      else ⟨.raise (.wrongArgumentsNumber c.parameters.length arguments.length), stack, world⟩ :=
  rfl

theorem enter_block (b : Block) (i : ScopeId) (stack : List Frame) (world : World) :
    enter (.block b) i stack world =
      proceedBlock b.statements world.scopes.size i stack
        { world with scopes := (world.scopes.child i).2 } :=
  rfl

/-! ## Steps keep machines coherent -/

namespace Coherent

variable {control : Control} {taken pushed stack : List Frame} {world : World} {name : String}
  {line : Nat} {i : ScopeId}

theorem sound {m : Machine} (h : m.Coherent) : m.world.scopes.Sound := by
  cases h with
  | evaluate sound => exact sound
  | deliver part sound => exact sound
  | raise part sound => exact sound

/-- Whatever a move takes off the stack, the rest waits for something. -/
theorem exists_awaits (h : Coherent ⟨control, taken ++ stack, world⟩) :
    ∃ part i, i < world.scopes.size ∧ Awaits world.scopes part i stack := by
  have waits : ∃ part i, i < world.scopes.size ∧ Awaits world.scopes part i (taken ++ stack) := by
    cases h with
    | evaluate _ created _ below => exact ⟨_, _, created, below⟩
    | deliver _ _ created _ below => exact ⟨_, _, created, below⟩
    | raise _ _ created below => exact ⟨_, _, created, below⟩
  clear h
  induction taken with
  | nil => exact waits
  | cons frame taken ih =>
    obtain ⟨part, i, created, below⟩ := waits
    obtain ⟨part', j, le, below⟩ := below.pop
    exact ih ⟨part', j, Nat.lt_of_le_of_lt le created, below⟩

/-- A fault may be raised wherever the machine is. -/
theorem raises (h : Coherent ⟨control, taken ++ stack, world⟩) (fault : Fault) :
    Coherent ⟨.raise fault, stack, world⟩ := by
  obtain ⟨part, i, created, below⟩ := h.exists_awaits
  exact .raise part h.sound created below

/-! ### Where moves take place -/

theorem of_calls {function : Function} {done : List Int32} {todo : List Expr}
    (h : Coherent ⟨control, taken ++ stack, world⟩)
    (calls : Calls world.scopes control taken function name line done todo i) :
    i < world.scopes.size ∧ world.scopes.isInterrupted i = false ∧
      (∀ c, function = .closure c → c.scope ∈ world.scopes.path i) ∧
      Awaits world.scopes .expression i stack := by
  cases calls with
  | begin found =>
    cases h with
    | evaluate sound created running below =>
      exact ⟨created, running, fun c hc => sound.scope_mem_path (hc ▸ found), below⟩
  | argument =>
    cases h with
    | deliver part sound created running below =>
      cases below with
      | argument found below => exact ⟨created, running (.inl rfl), found, below⟩

theorem of_loops {condition : Expr} {body : Block} (h : Coherent ⟨control, taken ++ stack, world⟩)
    (loops : Loops control taken condition body i) :
    i < world.scopes.size ∧ Awaits world.scopes .statement i stack := by
  cases loops with
  | begin =>
    cases h with
    | evaluate sound created running below => exact ⟨created, below⟩
  | again =>
    cases h with
    | deliver part sound created running below =>
      cases below with
      | loopBody below => exact ⟨created, below⟩

theorem of_declares {value : Int32} (h : Coherent ⟨control, taken ++ stack, world⟩)
    (declares : Declares control taken name value line i) :
    i < world.scopes.size ∧ Awaits world.scopes .statement i stack := by
  cases declares with
  | plain =>
    cases h with
    | evaluate sound created running below => exact ⟨created, below⟩
  | valued =>
    cases h with
    | deliver part sound created running below =>
      cases below with
      | declaration below => exact ⟨created, below⟩

/-- A block stands in a scope that is about to get a younger one inside. -/
theorem of_block {b : Block} (h : Coherent ⟨.evaluate (.block b) i, stack, world⟩) :
    (world.scopes.child i).2.Sound ∧ i < world.scopes.size ∧
      ((world.scopes.child i).2.scope world.scopes.size).ancestors =
        (world.scopes.child i).2.path i ∧
      (world.scopes.child i).2.isInterrupted i = false ∧
      Awaits (world.scopes.child i).2 .block i stack := by
  cases h with
  | evaluate sound created running below =>
    have old := Nat.ne_of_lt created
    refine ⟨sound.child created, created, ?_, ?_, below.child sound created i⟩
    · rw [Scopes.scope_child_size, Scopes.path_child_of_ne _ old]
    · rw [Scopes.isInterrupted_child_of_ne _ old]
      exact running

theorem of_sequence {value : Int32} {rest : List Stmt} {inner outer : ScopeId}
    (h : Coherent ⟨.deliver value, .sequence rest inner outer :: stack, world⟩) :
    inner < world.scopes.size ∧ outer < inner ∧
      (world.scopes.scope inner).ancestors = world.scopes.path outer ∧
      world.scopes.isInterrupted outer = false ∧ Awaits world.scopes .block outer stack := by
  cases h with
  | deliver part sound created running below =>
    cases below with
    | sequence kind younger around outside below => exact ⟨created, younger, around, outside, below⟩

/-! ### Moves -/

/-- The machine goes on with a part of its node. -/
theorem part {node node' : Node} {stack' : List Frame}
    (h : Coherent ⟨.evaluate node i, stack, world⟩)
    (keeps : Awaits world.scopes node.part i stack → Awaits world.scopes node'.part i stack') :
    Coherent ⟨.evaluate node' i, stack', world⟩ := by
  cases h with
  | evaluate sound created running below => exact .evaluate sound created running (keeps below)

theorem of_begins {node : Node} (h : Coherent ⟨control, taken ++ stack, world⟩)
    (begins : Begins world.scopes control taken node i pushed) :
    Coherent ⟨.evaluate node i, pushed ++ stack, world⟩ := by
  cases begins with
  | program => exact h.part .block_of_program
  | expression => exact h.part .expression_of_statement
  | declaration => exact h.part .declaration
  | assignment => exact h.part .assignment
  | returns => exact h.part .returns
  | branch => exact h.part .branch
  | leftOperand => exact h.part .leftOperand
  | next running =>
    obtain ⟨created, younger, around, outside, below⟩ := h.of_sequence
    exact .evaluate h.sound created running (.sequence ⟨nofun, nofun⟩ younger around outside below)
  | loopTest loops running =>
    obtain ⟨created, below⟩ := h.of_loops loops
    exact .evaluate h.sound created running (.loopTest below)
  | argument calls =>
    obtain ⟨created, running, found, below⟩ := h.of_calls calls
    exact .evaluate h.sound created running (.argument found below)
  | chosen =>
    cases h with
    | deliver part sound created running below =>
      cases below with
      | branch below => exact .evaluate sound created (running (.inl rfl)) below.block_of_statement
  | loopBody =>
    cases h with
    | deliver part sound created running below =>
      cases below with
      | loopTest below => exact .evaluate sound created (running (.inl rfl)) (.loopBody below)
  | rightOperand =>
    cases h with
    | deliver part sound created running below =>
      cases below with
      | leftOperand below =>
        exact .evaluate sound created (running (.inl rfl)) (.rightOperand below)

theorem of_yields {value : Int32} (h : Coherent ⟨control, taken ++ stack, world⟩)
    (yields : Yields world.scopes control taken value) :
    Coherent ⟨.deliver value, stack, world⟩ := by
  cases yields with
  | literal | identifier =>
    cases h with
    | evaluate sound created running below =>
      exact .deliver _ sound created (fun _ => running) below
  | loop loops =>
    obtain ⟨created, below⟩ := h.of_loops loops
    exact .deliver .statement h.sound created (by simp) below
  | operator =>
    cases h with
    | deliver part sound created running below =>
      cases below with
      | rightOperand below => exact .deliver _ sound created running below
  | call =>
    cases h with
    | deliver part sound created running below =>
      cases below with
      | call below => exact .deliver _ sound created (fun _ => running (.inr rfl)) below
  | result =>
    cases h with
    | deliver part sound created running below =>
      cases below with
      | result younger around outside below =>
        exact .deliver .application sound (Nat.lt_trans younger created) (fun _ => outside) below
      | outcome around => exact .deliver .program sound created (by simp) (.nothing around)
  | branch =>
    cases h with
    | deliver part sound created running below =>
      cases below with
      | branch below => exact .deliver .statement sound created (by simp) below
  | loopTest =>
    cases h with
    | deliver part sound created running below =>
      cases below with
      | loopTest below => exact .deliver .statement sound created (by simp) below

/-- The scope of a call is the youngest of all, and sees what the captured scope sees. -/
theorem of_call {c : Closure} {done : List Int32} (h : Coherent ⟨control, taken ++ stack, world⟩)
    (calls : Calls world.scopes control taken (.closure c) name line done [] i)
    (bindings : List (String × Int32)) :
    Coherent ⟨.evaluate (.block c.body) world.scopes.size,
      .result world.scopes.size :: .call name line :: stack,
      (Effect.call c.scope bindings).apply world⟩ := by
  obtain ⟨created, running, found, below⟩ := h.of_calls calls
  have visible := found c rfl
  have captured : c.scope < world.scopes.size :=
    Nat.lt_of_le_of_lt (h.sound.le_of_mem_path visible) created
  have old := Nat.ne_of_lt created
  have within : Awaits (world.scopes.child c.scope).2 .block world.scopes.size
      (.result world.scopes.size :: .call name line :: stack) := by
    refine .result created ?_ ?_ (.call (below.child h.sound created c.scope))
    · rw [Scopes.scope_child_size, Scopes.path_child_of_ne _ old]
      exact h.sound.path_subset visible
    · rw [Scopes.isInterrupted_child_of_ne _ old]
      exact running
  have nested := h.sound.child captured
  refine .evaluate (nested.bindParameters _ _) (by simp [Effect.apply]) ?_
    (within.bindParameters nested _ _)
  show Scopes.isInterrupted (Scopes.bindParameters _ _ _) _ = false
  rw [Scopes.isInterrupted_bindParameters, Scopes.isInterrupted_child_size]

theorem of_moves {effect : Effect} {control' : Control}
    (h : Coherent ⟨control, taken ++ stack, world⟩)
    (moves : Moves world.scopes control taken effect control' pushed) :
    Coherent ⟨control', pushed ++ stack, effect.apply world⟩ := by
  have sound : world.scopes.Sound := h.sound
  cases moves with
  | begins begins => exact (Effect.apply_nothing world).symm ▸ h.of_begins begins
  | yields yields => exact (Effect.apply_nothing world).symm ▸ h.of_yields yields
  | fails fails => exact (Effect.apply_nothing world).symm ▸ h.raises _
  | write calls =>
    obtain ⟨created, running, -, below⟩ := h.of_calls calls
    exact .deliver .application sound created (fun _ => running) (.call below)
  | call calls => exact h.of_call calls _
  | mismatch calls =>
    obtain ⟨created, -, -, below⟩ := h.of_calls calls
    exact .raise .application sound created (.call below)
  | enter statements =>
    obtain ⟨nested, created, around, outside, below⟩ := h.of_block
    exact .evaluate nested (by simp [Effect.apply]) (Scopes.isInterrupted_child_size ..)
      (.sequence ⟨nofun, nofun⟩ created around outside below)
  | skip empty =>
    obtain ⟨nested, created, -, -, below⟩ := h.of_block
    refine .deliver .block (nested.release _) ?_ (by simp)
      (below.modify nested _ (fun _ => rfl) fun _ => rfl)
    simpa [Effect.apply, Scopes.release] using Nat.lt_succ_of_lt created
  | close =>
    obtain ⟨created, younger, -, -, below⟩ := h.of_sequence
    exact .deliver .block (sound.release _)
      (by simpa [Effect.apply, Scopes.release] using Nat.lt_trans younger created) (by simp)
      (below.modify sound _ (fun _ => rfl) fun _ => rfl)
  | leave returned =>
    -- What the inner scope returns is handed on to the outer one, and the block is over.
    obtain ⟨created, younger, -, -, below⟩ := h.of_sequence
    refine .deliver .block ((sound.interrupt _ _).release _) ?_ (by simp)
      ((below.interrupt sound (Nat.le_refl _) _).modify (sound.interrupt _ _) _ (fun _ => rfl)
        fun _ => rfl)
    simpa [Effect.apply, Scopes.release, Scopes.interrupt] using Nat.lt_trans younger created
  | abandon =>
    obtain ⟨part, i, created, below⟩ := h.exists_awaits
    exact .raise part (sound.release _) (by simpa [Effect.apply, Scopes.release] using created)
      (below.modify sound _ (fun _ => rfl) fun _ => rfl)
  | declare declares =>
    obtain ⟨created, below⟩ := h.of_declares declares
    exact .deliver .statement (sound.addVariable _ _ _) (by simpa [Effect.apply] using created)
      (by simp) (below.modify sound _ (fun _ => rfl) fun _ => rfl)
  | define =>
    cases h with
    | evaluate sound created running below =>
      refine .deliver .statement (sound.addFunction _ _ fun c hc => ?_)
        (by simpa [Effect.apply] using created) (by simp)
        (below.modify sound _ (fun _ => rfl) fun _ => rfl)
      cases hc
      rfl
  | assign =>
    cases h with
    | deliver part sound created running below =>
      cases below with
      | assignment below =>
        exact .deliver .statement (sound.setVariable _ _ _) (by simpa [Effect.apply] using created)
          (by simp) (below.modify sound _ (fun _ => rfl) fun _ => rfl)
  | interrupt =>
    cases h with
    | deliver part sound created running below =>
      cases below with
      | returns below =>
        exact .deliver .statement (sound.interrupt _ _)
          (by simpa [Effect.apply, Scopes.interrupt] using created) (by simp)
          (below.interrupt sound (Nat.le_refl _) _)
  | rename => exact (Effect.apply_nothing world).symm ▸ h.raises _
  | pass => exact (Effect.apply_nothing world).symm ▸ h.raises _

/-- A step keeps a machine coherent. -/
theorem step {m : Machine} (h : m.Coherent) : m.step.Coherent := by
  obtain ⟨-, same⟩ | ⟨control, taken, effect, control', pushed, stack, world, rfl, next, moves⟩ :=
    m.step_cases
  · rwa [same]
  · rw [next]
    exact h.of_moves moves

theorem after {m : Machine} (h : m.Coherent) (n : Nat) : (after n m).Coherent :=
  after_induction (motive := Coherent) (fun _ => step) n h

/-- What is visited is visited where neither the scope nor one around it is about to return. -/
theorem uninterrupted_of_visit {m : Machine} (h : m.Coherent) {node : Node} {i : ScopeId}
    (visit : m.visit? = some (node, i)) :
    ∀ j ∈ m.world.scopes.path i, m.world.scopes.isInterrupted j = false := by
  cases h with
  | @evaluate node' i' stack world sound created running below =>
    have here : i' = i := by
      simp only [visit?] at visit
      split at visit
      · exact congrArg Prod.snd (Option.some.inj visit)
      · cases visit
    subst here
    intro j hj
    rcases List.mem_cons.mp hj with rfl | hj
    · exact running
    · exact below.uninterrupted j hj
  | deliver => cases visit
  | raise => cases visit

end Coherent

/-- A program starts out coherent. -/
theorem coherent_ofProgram (program : Program) : (ofProgram program).Coherent := by
  have root : Scopes.Sound (Scopes.root {}).2 := by
    refine ⟨fun i name c h => ?_, fun i => .inl ?_⟩ <;> cases i <;> first | rfl | cases h
  have bound (i : ScopeId) (b : Builtin) {s : Scopes} (h : s.Sound) :
      (s.modify i (·.addFunction b.name (.builtin b))).Sound :=
    h.addFunction i _ fun c hc => by cases hc
  exact .evaluate (bound 0 .println (bound 0 .print root)) (by decide) rfl
    (.nothing fun j hj => by cases hj)

end Machine

end FunLanguage
