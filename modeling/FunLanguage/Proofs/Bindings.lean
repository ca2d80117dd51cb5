import FunLanguage.Proofs.Context
import FunLanguage.Proofs.Footprint
import FunLanguage.Proofs.Tracking

/-!
# Evaluation leaves no binding behind

Whatever an expression does, every scope that there was keeps its place, its names, its functions
and its interrupt; only the values of its variables can change. A block does no more than that, but
for the interrupt of the scope it stands in, and leaves that alone too unless it ends well
(`Machine.evaluation_keeps_bindings`). Closures may capture whatever they like.

Everything that binds a name or interrupts a scope works in a scope that is created on the way, so
an expression is confined to the scopes to come (`Machine.respects_expression`). A block goes on by
statements in a scope of its own, and the frame below them is the only one that can reach the scope
around (`Machine.InBlock`).
-/

namespace FunLanguage

/-! ## What can be seen from a scope that has kept its bindings -/

theorem Scope.isSome_valueOf? (t : Scope) (name : String) :
    (t.valueOf? name).isSome = true ↔ name ∈ t.values.map Prod.fst := by
  rw [valueOf?, List.lookup_isSome_iff, List.mem_map]
  refine exists_congr fun b => and_congr_right fun _ => ?_
  rw [beq_iff_eq, eq_comm]

theorem Scope.SameBindings.isSome_valueOf? {t t' : Scope} (h : t.SameBindings t') (name : String) :
    (t'.valueOf? name).isSome = (t.valueOf? name).isSome := by
  rw [Bool.eq_iff_iff, Scope.isSome_valueOf?, Scope.isSome_valueOf?, h.names]

namespace Scopes

/-- Every scope that there was has kept its bindings. -/
structure Retains (s s' : Scopes) : Prop where
  size : s.size ≤ s'.size
  bindings : ∀ j < s.size, (s.scope j).SameBindings (s'.scope j)

namespace Retains

variable {s s' s'' : Scopes} {i : ScopeId}

theorem refl (s : Scopes) : s.Retains s :=
  ⟨Nat.le_refl _, fun _ _ => .refl _⟩

theorem trans (h : s.Retains s') (h' : s'.Retains s'') : s.Retains s'' :=
  ⟨Nat.le_trans h.size h'.size, fun j lt =>
    (h.bindings j lt).trans (h'.bindings j (Nat.lt_of_lt_of_le lt h.size))⟩

theorem path (h : s.Retains s') (created : i < s.size) : s'.path i = s.path i :=
  congrArg (i :: ·) (h.bindings i created).ancestors

/-- The names of variables that can be seen are the same. -/
theorem isSome_get? (h : s.Retains s') (created : ∀ j ∈ s.path i, j < s.size) (name : String) :
    (s'.get? i name).isSome = (s.get? i name).isSome := by
  rw [get?, get?, h.path (created i (s.mem_path_self i)), List.isSome_findSome?,
    List.isSome_findSome?, Bool.eq_iff_iff, List.any_eq_true, List.any_eq_true]
  refine exists_congr fun j => and_congr_right fun hj => ?_
  rw [(h.bindings j (created j hj)).isSome_valueOf?]

/-- A name stands for the same function. -/
theorem function? (h : s.Retains s') (created : ∀ j ∈ s.path i, j < s.size) (name : String) :
    s'.function? i name = s.function? i name := by
  have same (j : ScopeId) (hj : j ∈ s.path i) :
      (s'.scope j).functionOf? name = (s.scope j).functionOf? name :=
    congrArg (List.lookup name) (h.bindings j (created j hj)).functions
  rw [Scopes.function?, Scopes.function?, h.path (created i (s.mem_path_self i)),
    findSome?_congr same]

end Retains

/-- A new scope inside one of the scopes that there were sees the names that it would have seen. -/
theorem Retains.sights_child {s s' : Scopes} {i : ScopeId} (h : s.Retains s')
    (created : ∀ j ∈ s.path i, j < s.size) (name : String) :
    ((s'.child i).2.get? s'.size name).isSome = ((s.child i).2.get? s.size name).isSome ∧
    (s'.child i).2.function? s'.size name = (s.child i).2.function? s.size name := by
  have created' : ∀ j ∈ s'.path i, j < s'.size := by
    intro j hj
    rw [h.path (created i (s.mem_path_self i))] at hj
    exact Nat.lt_of_lt_of_le (created j hj) h.size
  rw [get?_child created', get?_child created, function?_child created', function?_child created]
  exact ⟨h.isSome_get? created name, h.function? created name⟩

/-- Among all scopes, those yet to be created. -/
theorem region_new (s : Scopes) : s.Region (fun _ => True) (s.size ≤ ·) :=
  ⟨fun _ _ => trivial, fun _ le => le, fun _ _ _ _ => trivial, fun _ _ _ _ _ => trivial⟩

/-- What is confined to new scopes leaves the old ones their bindings and their interrupts. -/
theorem Confined.retains {s s' : Scopes}
    (h : s.Confined (fun _ => True) (s.size ≤ ·) s') : s.Retains s' ∧ s.SameInterrupts s' :=
  ⟨⟨h.size, fun j lt => h.bindings j (Nat.not_le_of_lt lt)⟩,
    ⟨h.size, fun j lt => h.interrupt? j (Nat.not_le_of_lt lt)⟩⟩

end Scopes

namespace Machine

/-! ## Expressions -/

theorem respects_expression (e : Expr) (i : ScopeId) (world : World) (n : Nat) :
    ((start (.expression e) i world).after n).Respects (fun _ => True) (world.scopes.size ≤ ·)
      world.scopes := by
  have within : (start (.expression e) i world).Within (fun _ => True) (world.scopes.size ≤ ·) :=
    ⟨trivial, fun _ none => (List.not_mem_nil none).elim, Scopes.region_new _⟩
  exact within.respects_after n

/-! ## Blocks -/

/-- A block in scope `outer`, where the scopes before it were `s`: a statement is under way over the
frame that waits for it, or the block has ended. Only where it has ended well can it have
interrupted `outer`. -/
inductive InBlock (s : Scopes) (outer : ScopeId) : Machine → Prop
  | statement {m : Machine} {rest : List Stmt} {inner : ScopeId} (new : s.size ≤ inner)
      (kept : m.Respects (fun _ => True) (s.size ≤ ·) s) :
      InBlock s outer (m.above [.sequence rest inner outer])
  | ended {value : Int32} {world : World} (retains : s.Retains world.scopes)
      (others : ∀ j < s.size, j ≠ outer →
        (world.scopes.scope j).interrupt? = (s.scope j).interrupt?) :
      InBlock s outer ⟨.deliver value, [], world⟩
  | failed {fault : Fault} {world : World}
      (kept : s.Confined (fun _ => True) (s.size ≤ ·) world.scopes) :
      InBlock s outer ⟨.raise fault, [], world⟩

namespace InBlock

variable {s : Scopes} {inner outer : ScopeId} {m : Machine} {world : World}

theorem proceed (new : s.size ≤ inner)
    (kept : s.Confined (fun _ => True) (s.size ≤ ·) world.scopes)
    (region : world.scopes.Region (fun _ => True) (s.size ≤ ·)) (rest : List Stmt) :
    InBlock s outer (proceedBlock rest inner outer [] world) := by
  cases rest with
  | nil =>
    have released := kept.trans (.modify region.sub _ new ({ · with functions := [] }))
    exact .ended released.retains.1 fun j lt _ => released.retains.2.interrupt? j lt
  | cons t rest =>
    have within : Within (fun _ => True) (s.size ≤ ·) ⟨.evaluate (.statement t) inner, [], world⟩ :=
      ⟨new, fun _ none => (List.not_mem_nil none).elim, region⟩
    exact .statement new ⟨within, kept⟩

/-- The statement that was under way has ended, and the block acts on that. -/
theorem close {rest : List Stmt} (new : s.size ≤ inner)
    (kept : m.Respects (fun _ => True) (s.size ≤ ·) s) (outcome : Except Fault Int32) :
    InBlock s outer (halted [.sequence rest inner outer] m.world outcome).step := by
  have region := kept.within.region
  cases outcome with
  | error fault => exact .failed (kept.confined.trans (.modify region.sub _ new _))
  | ok value =>
    simp only [halted, Machine.step, receive]
    split
    -- Only here is the scope around the block interrupted, and the block is over.
    · have old (j : ScopeId) (lt : j < s.size) :
          ((m.world.scopes.interrupt outer (m.world.scopes.result inner)).release inner).scope j =
            (m.world.scopes.interrupt outer (m.world.scopes.result inner)).scope j :=
        Scopes.scope_modify_of_ne (Nat.ne_of_gt (Nat.lt_of_lt_of_le lt new)) _
      refine .ended ⟨?_, fun j lt => ?_⟩ fun j lt ne => ?_
      · simpa [Scopes.release, Scopes.interrupt] using kept.confined.size
      · rw [old j lt]
        refine (kept.confined.retains.1.bindings j lt).trans ?_
        rw [Scopes.interrupt, Scopes.scope_modify]
        split
        · exact ⟨rfl, rfl, rfl⟩
        · exact .refl _
      · rw [old j lt, Scopes.interrupt, Scopes.scope_modify_of_ne ne.symm]
        exact kept.confined.retains.2.interrupt? j lt
    · exact proceed new kept.confined region rest

theorem step (h : InBlock s outer m) : InBlock s outer m.step := by
  cases h with
  | @statement m rest inner new kept =>
    cases now : m.outcome? with
    | none =>
      have next := kept.within.respects_step
      rw [step_above _ now]
      exact .statement new ⟨next.within, kept.confined.trans next.confined⟩
    | some outcome =>
      rw [above_of_outcome? _ now]
      exact close new kept outcome
  | ended retains others => exact .ended retains others
  | failed kept => exact .failed kept

/-- What is left of the old scopes wherever the block has come to. -/
theorem retains (h : InBlock s outer m) :
    s.Retains m.world.scopes ∧
    (∀ j < s.size, j ≠ outer →
      (m.world.scopes.scope j).interrupt? = (s.scope j).interrupt?) ∧
    ((∀ value, m.outcome? ≠ some (.ok value)) → s.SameInterrupts m.world.scopes) := by
  cases h with
  | statement new kept =>
    obtain ⟨retains, same⟩ := kept.confined.retains
    exact ⟨retains, fun j lt _ => same.interrupt? j lt, fun _ => same⟩
  | @ended value world retains others =>
    exact ⟨retains, others, fun unfinished => absurd rfl (unfinished value)⟩
  | failed kept =>
    obtain ⟨retains, same⟩ := kept.retains
    exact ⟨retains, fun j lt _ => same.interrupt? j lt, fun _ => same⟩

end InBlock

theorem inBlock_step_start (b : Block) (i : ScopeId) (world : World) :
    InBlock world.scopes i (start (.block b) i world).step := by
  have region := Scopes.region_new world.scopes
  exact .proceed (Nat.le_refl _) (.child region i) (region.child trivial) b.statements

theorem block_retains (b : Block) (i : ScopeId) (world : World) (n : Nat) :
    world.scopes.Retains ((start (.block b) i world).after n).world.scopes ∧
    (∀ j < world.scopes.size, j ≠ i →
      (((start (.block b) i world).after n).world.scopes.scope j).interrupt? =
        (world.scopes.scope j).interrupt?) ∧
    ((∀ value, ((start (.block b) i world).after n).outcome? ≠ some (.ok value)) →
      world.scopes.SameInterrupts ((start (.block b) i world).after n).world.scopes) := by
  cases n with
  | zero => exact ⟨.refl _, fun _ _ _ => rfl, fun _ => .refl _⟩
  | succ n =>
    exact (after_induction (motive := InBlock world.scopes i) (fun _ => InBlock.step) n
      (inBlock_step_start b i world)).retains

/-! ## Loops -/

/-- A loop in scope `i`, where the scopes before it were `s`: its condition or its body is under
way, from scopes that have kept their bindings since, or the loop has ended. -/
inductive InLoop (s : Scopes) (i : ScopeId) (condition : Expr) (body : Block) : Machine → Prop
  | testing {m : Machine} {s' : Scopes} (before : s.Retains s')
      (kept : m.Respects (fun _ => True) (s'.size ≤ ·) s') :
      InLoop s i condition body (m.above [.loopTest condition body i])
  | entering {world : World} (before : s.Retains world.scopes) :
      InLoop s i condition body ((start (.block body) i world).above [.loopBody condition body i])
  | running {m : Machine} {s' : Scopes} (before : s.Retains s') (block : InBlock s' i m) :
      InLoop s i condition body (m.above [.loopBody condition body i])
  | ended {m : Machine} {outcome : Except Fault Int32} (finished : m.outcome? = some outcome)
      (retains : s.Retains m.world.scopes) : InLoop s i condition body m

namespace InLoop

variable {s : Scopes} {i : ScopeId} {condition : Expr} {body : Block} {m : Machine} {world : World}

theorem proceed (before : s.Retains world.scopes) :
    InLoop s i condition body (proceedLoop condition body i [] world) := by
  unfold proceedLoop
  split
  · exact .ended rfl before
  · exact .testing (m := start (.expression condition) i world) before
      (respects_expression condition i world 0)

theorem step (h : InLoop s i condition body m) : InLoop s i condition body m.step := by
  cases h with
  | @testing m s' before kept =>
    cases now : m.outcome? with
    | none =>
      have next := kept.within.respects_step
      rw [step_above _ now]
      exact .testing before ⟨next.within, kept.confined.trans next.confined⟩
    | some outcome =>
      have retains := before.trans kept.confined.retains.1
      rw [above_of_outcome? _ now]
      cases outcome with
      | error fault => exact .ended rfl retains
      | ok value =>
        simp only [halted, Machine.step, receive]
        split
        · exact .ended rfl retains
        · exact .entering retains
  | @entering world before =>
    rw [step_above _ rfl]
    exact .running before (inBlock_step_start body i world)
  | @running m s' before block =>
    cases now : m.outcome? with
    | none =>
      rw [step_above _ now]
      exact .running before block.step
    | some outcome =>
      have retains := before.trans block.retains.1
      rw [above_of_outcome? _ now]
      cases outcome with
      | error fault => exact .ended rfl retains
      | ok value => exact proceed retains
  | ended finished retains =>
    rw [step_of_outcome? finished]
    exact .ended finished retains

theorem retains (h : InLoop s i condition body m) : s.Retains m.world.scopes := by
  cases h with
  | testing before kept => exact before.trans kept.confined.retains.1
  | entering before => exact before
  | running before block => exact before.trans block.retains.1
  | ended finished retains => exact retains

end InLoop

/-- A loop binds nothing in the scope that it stands in, whatever its bodies declare. -/
theorem retains_loop (condition : Expr) (body : Block) (line : Nat) (i : ScopeId) (world : World)
    (n : Nat) : world.scopes.Retains
      ((start (.statement (.loop condition body line)) i world).after n).world.scopes := by
  cases n with
  | zero => exact .refl _
  | succ n =>
    have entered : InLoop world.scopes i condition body
        (start (.statement (.loop condition body line)) i world).step := .proceed (.refl _)
    exact (after_induction (motive := InLoop world.scopes i condition body)
      (fun _ => InLoop.step) n entered).retains

/-! ## One evaluation after another -/

/-- Expressions are evaluated in a scope one after another, whether they fail or not, each in the
world that the one before it has left. -/
inductive EndsEach (i : ScopeId) :
    World → List Expr → List (Except Fault Int32) → World → Prop
  | nil (world) : EndsEach i world [] [] world
  | cons {world world' world'' e es outcome outcomes}
      (first : (start (.expression e) i world).Ends outcome world')
      (rest : EndsEach i world' es outcomes world'') :
      EndsEach i world (e :: es) (outcome :: outcomes) world''

theorem Ends.retains {e : Expr} {i : ScopeId} {world world' : World}
    {outcome : Except Fault Int32} (ends : (start (.expression e) i world).Ends outcome world') :
    world.scopes.Retains world'.scopes ∧ world.scopes.SameInterrupts world'.scopes := by
  obtain ⟨n, -, rfl⟩ := ends_iff.mp ends
  exact (respects_expression e i world n).confined.retains

theorem EndsEach.retains {i : ScopeId} {world world' : World} {es : List Expr}
    {outcomes : List (Except Fault Int32)} (ends : EndsEach i world es outcomes world') :
    world.scopes.Retains world'.scopes ∧ world.scopes.SameInterrupts world'.scopes := by
  induction ends with
  | nil => exact ⟨.refl _, .refl _⟩
  | cons first _ ih => exact ⟨first.retains.1.trans ih.1, first.retains.2.trans ih.2⟩

/-! ## Calls and declarations -/

/-- The arguments of a call have values, and the function is applied to them. -/
theorem EndsEach.reaches_apply {i : ScopeId} {world world' : World} {todo : List Expr}
    {outcomes : List (Except Fault Int32)} (ends : EndsEach i world todo outcomes world')
    {values : List Int32} (all : outcomes = values.map .ok) (function : Function) (name : String)
    (line : Nat) (done : List Int32) :
    (proceedCall function name line done todo i [] world).Reaches
      (apply function (done.reverse ++ values) [.call name line] world') := by
  induction ends generalizing values done with
  | nil world =>
    obtain rfl : values = [] := List.map_eq_nil_iff.mp all.symm
    rw [List.append_nil]
    exact .refl _
  | @cons world world₁ world' e todo outcome outcomes first rest ih =>
    cases values with
    | nil => cases all
    | cons value values =>
      cases all
      have evaluated := first.above [.argument function name line done todo i]
      have applied := ih rfl (value :: done)
      rw [List.reverse_cons, List.append_assoc, List.singleton_append] at applied
      exact evaluated.trans (.head rfl applied)

/-- A declaration is a redefinition if the name was bound before the variable got its value. -/
theorem Ends.declaration {e : Expr} {i : ScopeId} {world world' : World} {value : Int32}
    (ends : (start (.expression e) i world).Ends (.ok value) world')
    (created : i < world.scopes.size) (name : String) (line : Nat) :
    ∃ world'', (start (.statement (.declaration name (some e) line)) i world).Ends
      (if ((world.scopes.scope i).valueOf? name).isSome then .error (.redefinition name line)
        else .ok 0) world'' := by
  have evaluated : (start (.statement (.declaration name (some e) line)) i world).Reaches
      (declare name value line i [] world') :=
    .head rfl ((ends.above [.declaration name line i]).tail rfl)
  have same := (ends.retains.1.bindings i created).isSome_valueOf? name
  refine ⟨_, evaluated.ends ?_⟩
  rw [declare, Scopes.define, same]
  cases ((world.scopes.scope i).valueOf? name).isSome <;> rfl

/-- Evaluation leaves no binding behind. An expression leaves every scope that there was in its
place, with its names, its functions and its interrupt, at every step and so wherever it ends; and
so does a block, but that one which has ended well can have interrupted the scope that it stands in.

Hence a call applies the function that would also be found behind its arguments; the value of a
variable has no say in whether its declaration is a redefinition; and each body of a loop starts out
seeing the names that the first one saw. -/
theorem evaluation_keeps_bindings (world : World) (i : ScopeId) :
    (∀ e n,
      world.scopes.Retains ((start (.expression e) i world).after n).world.scopes ∧
      world.scopes.SameInterrupts ((start (.expression e) i world).after n).world.scopes) ∧
    (∀ b n,
      world.scopes.Retains ((start (.block b) i world).after n).world.scopes ∧
      (∀ j < world.scopes.size, j ≠ i →
        (((start (.block b) i world).after n).world.scopes.scope j).interrupt? =
          (world.scopes.scope j).interrupt?) ∧
      ((∀ value, ((start (.block b) i world).after n).outcome? ≠ some (.ok value)) →
        world.scopes.SameInterrupts ((start (.block b) i world).after n).world.scopes)) ∧
    ((∀ j ∈ world.scopes.path i, j < world.scopes.size) →
      (∀ name function arguments line values world',
        world.scopes.function? i name = some function →
        EndsEach i world arguments (values.map .ok) world' →
        (start (.expression (.call name arguments line)) i world).Reaches
          (apply function values [.call name line] world') ∧
        world'.scopes.function? i name = some function) ∧
      (∀ name e line value world', (start (.expression e) i world).Ends (.ok value) world' →
        ∃ world'', (start (.statement (.declaration name (some e) line)) i world).Ends
          (if ((world.scopes.scope i).valueOf? name).isSome then .error (.redefinition name line)
            else .ok 0) world'') ∧
      ∀ condition body line n name,
        let s := ((start (.statement (.loop condition body line)) i world).after n).world.scopes
        ((s.child i).2.get? s.size name).isSome =
          ((world.scopes.child i).2.get? world.scopes.size name).isSome ∧
        (s.child i).2.function? s.size name =
          (world.scopes.child i).2.function? world.scopes.size name) := by
  refine ⟨fun e n => (respects_expression e i world n).confined.retains,
    fun b n => block_retains b i world n, fun exist => ⟨?_, ?_, ?_⟩⟩
  · intro name function arguments line values world' found ends
    have entered : (start (.expression (.call name arguments line)) i world).step =
        proceedCall function name line [] arguments i [] world := by
      rw [start, Machine.step, enter, enterExpression, found]
    refine ⟨.head entered (ends.reaches_apply rfl function name line []), ?_⟩
    rw [ends.retains.1.function? exist, found]
  · intro name e line value world' ends
    exact ends.declaration (exist i (world.scopes.mem_path_self i)) name line
  · intro condition body line n name
    exact (retains_loop condition body line i world n).sights_child exist name

/-- A variable, a function that assigns to it and declares another, and a built-in function. -/
def assigning : World where
  scopes := ⟨#[{
    values := [("x", 1)]
    functions := [("println", .builtin .println),
      ("f", .closure ⟨0, [], ⟨[.assignment "x" (.literal 2 1) 1, .declaration "y" none 1,
        .returns (.identifier "x" 1) 1], 1⟩⟩)] }]⟩

theorem evaluation_keeps_bindings_of_call :
    (∀ j ∈ assigning.scopes.path 0, j < assigning.scopes.size) ∧
    (∃ world',
      EndsEach 0 assigning [.call "f" [] 1] ([2].map .ok) world' ∧
      world'.scopes.get? 0 "x" = some 2 ∧
      (start (.expression (.call "println" [.call "f" [] 1] 1)) 0 assigning).Reaches
        (apply (.builtin .println) [2] [.call "println" 1] world') ∧
      world'.scopes.function? 0 "println" = some (.builtin .println)) ∧
    ∃ world', (start (.statement (.declaration "x" (some (.call "f" [] 1)) 1)) 0 assigning).Ends
      (.error (.redefinition "x" 1)) world' := by
  have exist : ∀ j ∈ assigning.scopes.path 0, j < assigning.scopes.size := by decide
  obtain ⟨calls, declarations, -⟩ := (evaluation_keeps_bindings assigning 0).2.2 exist
  have ends : (start (.expression (.call "f" [] 1)) 0 assigning).Ends (.ok 2)
      ((start (.expression (.call "f" [] 1)) 0 assigning).after 20).world :=
    ends_iff.mpr ⟨20, by rfl, rfl⟩
  have each : EndsEach 0 assigning [.call "f" [] 1] ([2].map .ok) _ := .cons ends (.nil _)
  obtain ⟨applied, found⟩ := calls "println" (.builtin .println) _ 1 _ _ rfl each
  exact ⟨exist, ⟨_, each, by rfl, applied, found⟩, declarations "x" _ 1 _ _ ends⟩

end Machine

end FunLanguage
