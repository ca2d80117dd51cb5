import FunLanguage.Proofs.Coherence
import FunLanguage.Proofs.Context
import FunLanguage.Proofs.Output
import FunLanguage.Proofs.Preorder

/-!
# From left to right

The evaluation of an expression that succeeds is made of episodes: each node but a literal is
visited once, in the order of a walk over the expression, and each call applies its function once
all its arguments have values (`Expr.schedule`). What happens within an application is the run of a
machine of its own. `Evaluates` tells such an evaluation by recursion on the expression, and the
machine evaluates an expression so and in no other way (`Machine.endsVisiting_iff`).

An expression without calls has the value that its variables give it, and changes nothing on the way
(`Machine.Quiet`). If it has none, the fault is that of the first variable or operator that fails
behind its operands (`Expr.valueIn_spec`).
-/

namespace FunLanguage

namespace Machine

/-! ## Runs with their visits -/

/-- Some number of steps leads from one machine to the other and makes the visits. -/
def ReachesVisiting (m : Machine) (visits : List Sighting) (m' : Machine) : Prop :=
  ∃ n, m.after n = m' ∧ m.sightings n = visits

/-- The evaluation makes the visits, ends with the outcome, and leaves the world. -/
def EndsVisiting (m : Machine) (visits : List Sighting) (outcome : Except Fault Int32)
    (world : World) : Prop :=
  ∃ n, (m.after n).outcome? = some outcome ∧ (m.after n).world = world ∧ m.sightings n = visits

namespace ReachesVisiting

variable {m m' m'' : Machine} {visits visits' : List Sighting}

theorem refl (m : Machine) : m.ReachesVisiting [] m :=
  ⟨0, rfl, rfl⟩

theorem trans (h : m.ReachesVisiting visits m') (h' : m'.ReachesVisiting visits' m'') :
    m.ReachesVisiting (visits ++ visits') m'' := by
  obtain ⟨a, rfl, rfl⟩ := h
  obtain ⟨b, rfl, rfl⟩ := h'
  exact ⟨a + b, after_add a b m, sightings_add a b m⟩

/-- One step first, and the visit that it makes, if any. -/
theorem head (next : m.step = m') (h : m'.ReachesVisiting visits m'') :
    m.ReachesVisiting (m.sighting?.toList ++ visits) m'' := by
  subst next
  obtain ⟨n, rfl, rfl⟩ := h
  exact ⟨n + 1, rfl, rfl⟩

/-- One step last, which is no visit. -/
theorem tail (h : m.ReachesVisiting visits m') (quiet : m'.sighting? = none)
    (next : m'.step = m'') : m.ReachesVisiting visits m'' := by
  have last := h.trans (head next (refl m''))
  rwa [quiet, Option.toList_none, List.append_nil, List.append_nil] at last

theorem ends {outcome : Except Fault Int32} (h : m.ReachesVisiting visits m')
    (ended : m'.outcome? = some outcome) : m.EndsVisiting visits outcome m'.world := by
  obtain ⟨n, rfl, rfl⟩ := h
  exact ⟨n, ended, rfl, rfl⟩

end ReachesVisiting

theorem Ends.visiting {m : Machine} {outcome : Except Fault Int32} {world : World}
    (h : m.Ends outcome world) : ∃ visits, m.EndsVisiting visits outcome world := by
  obtain ⟨n, ended, left⟩ := ends_iff.mp h
  exact ⟨_, n, ended, left, rfl⟩

theorem sighting?_above (base : List Frame) (m : Machine) :
    (m.above base).sighting? = m.sighting? := by
  obtain ⟨control, stack, world⟩ := m
  cases control <;> rfl

/-- A machine that is under way is so in front of any stack. -/
theorem outcome?_above {m : Machine} (base : List Frame) (moving : m.outcome? = none) :
    (m.above base).outcome? = none := by
  obtain ⟨control, stack, world⟩ := m
  cases stack with
  | nil => cases control <;> trivial
  | cons frame stack => cases control <;> rfl

namespace EndsVisiting

variable {m : Machine} {visits visits' : List Sighting} {outcome outcome' : Except Fault Int32}
  {world world' : World}

theorem toEnds (h : m.EndsVisiting visits outcome world) : m.Ends outcome world := by
  obtain ⟨n, ended, left, -⟩ := h
  exact ends_iff.mpr ⟨n, ended, left⟩

theorem unique (h : m.EndsVisiting visits outcome world)
    (h' : m.EndsVisiting visits' outcome' world') :
    visits = visits' ∧ outcome = outcome' ∧ world = world' := by
  refine ⟨?_, h.toEnds.unique h'.toEnds⟩
  obtain ⟨a, ended, -, rfl⟩ := h
  obtain ⟨b, ended', -, rfl⟩ := h'
  rcases Nat.le_total a b with le | le
  · exact (sightings_eq_of_le ended le).symm
  · exact sightings_eq_of_le ended' le

/-- With frames below it the evaluation makes the same visits. -/
theorem above (base : List Frame) (h : m.EndsVisiting visits outcome world) :
    (m.above base).ReachesVisiting visits (halted base world outcome) := by
  obtain ⟨n, ended, rfl, rfl⟩ := h
  induction n generalizing m with
  | zero => exact above_of_outcome? base ended ▸ .refl _
  | succ n ih =>
    cases now : m.outcome? with
    | none =>
      rw [sightings_succ, ← sighting?_above base]
      exact .head (step_above base now) (ih ended)
    | some outcome' =>
      rw [after_of_outcome? now] at ended ⊢
      rw [sightings_of_outcome? now]
      exact above_of_outcome? base ended ▸ .refl _

end EndsVisiting

/-! ## Parts of evaluations that end well -/

namespace Ends

variable {m : Machine} {outcome : Except Fault Int32} {world : World}

/-- An evaluation under way ends as it goes on. -/
theorem step (h : m.Ends outcome world) (moving : m.outcome? = none) :
    m.step.Ends outcome world := by
  obtain ⟨n, ended, left⟩ := ends_iff.mp h
  cases n with
  | zero => cases moving.symm.trans ended
  | succ n => exact ends_iff.mpr ⟨n, ended, left⟩

/-- An evaluation in front of a stack ends by itself, and then the stack goes on. -/
theorem of_above {base : List Frame} (h : (m.above base).Ends outcome world) :
    ∃ outcome' world', m.Ends outcome' world' ∧
      (halted base world' outcome').Ends outcome world := by
  obtain ⟨n, ended, left⟩ := ends_iff.mp h
  clear h
  induction n generalizing m with
  | zero =>
    cases now : m.outcome? with
    | some outcome' =>
      have both := above_of_outcome? base now
      exact ⟨outcome', m.world, ends_iff.mpr ⟨0, now, rfl⟩, both ▸ ends_iff.mpr ⟨0, ended, left⟩⟩
    | none => cases (outcome?_above base now).symm.trans ended
  | succ n ih =>
    cases now : m.outcome? with
    | some outcome' =>
      have both := above_of_outcome? base now
      exact ⟨outcome', m.world, ends_iff.mpr ⟨0, now, rfl⟩,
        both ▸ ends_iff.mpr ⟨n + 1, ended, left⟩⟩
    | none =>
      rw [after_succ, step_above base now] at ended left
      obtain ⟨outcome', world', ends, rest⟩ := ih ended left
      obtain ⟨k, ended', left'⟩ := ends_iff.mp ends
      exact ⟨outcome', world', ends_iff.mpr ⟨k + 1, ended', left'⟩, rest⟩

end Ends

/-- Nothing is ever taken back of what has been written. -/
theorem output_after (m : Machine) (n : Nat) :
    ∃ text, (m.after n).world.output = m.world.output ++ text := by
  refine ⟨(m.withoutOutput.after n).world.output, ?_⟩
  conv => lhs; rw [← m.prepend_withoutOutput, after_prepend]
  rfl

theorem Ends.output {m : Machine} {outcome : Except Fault Int32} {world : World}
    (h : m.Ends outcome world) : ∃ text, world.output = m.world.output ++ text := by
  obtain ⟨n, -, rfl⟩ := ends_iff.mp h
  exact output_after m n

/-- No frame makes a value of a fault. -/
theorem exists_raise_of_step (fault : Fault) (stack : List Frame) (world : World) :
    ∃ fault', (step ⟨.raise fault, stack, world⟩).control = .raise fault' := by
  cases stack with
  | nil => exact ⟨fault, rfl⟩
  | cons frame stack =>
    rw [step]
    unfold unwind
    split
    · exact ⟨_, rfl⟩
    · exact ⟨_, rfl⟩
    · exact ⟨_, rfl⟩

theorem not_ends_of_raise {fault : Fault} {stack : List Frame} {world world' : World}
    {value : Int32} : ¬ Ends ⟨.raise fault, stack, world⟩ (.ok value) world' := by
  intro ends
  obtain ⟨n, ended, -⟩ := ends_iff.mp ends
  have step (m : Machine) (h : ∃ fault, m.control = .raise fault) :
      ∃ fault, m.step.control = .raise fault := by
    obtain ⟨control, stack, world⟩ := m
    obtain ⟨fault, rfl⟩ := h
    exact exists_raise_of_step fault stack world
  obtain ⟨fault', raised⟩ := after_induction step n (m := ⟨.raise fault, stack, world⟩) ⟨fault, rfl⟩
  obtain ⟨-, ⟨value', delivered, -⟩ | ⟨_, _, none⟩⟩ := outcome?_eq_some_iff.mp ended
  · cases raised.symm.trans delivered
  · cases none

end Machine

/-! ## Episodes -/

/-- What an evaluation of an expression is made of: a visit of a node of it, or the application of a
function by a call, with all visits that are made and all that is written until it is over. -/
inductive Episode where
  | visit (v : Sighting)
  | application (call : Node) (visits : List Sighting) (written : String)

/-- An episode of an expression, whatever the world is. -/
inductive Occasion where
  | visit (node : Node)
  | application (call : Node)

namespace Episode

def visits : Episode → List Sighting
  | visit v => [v]
  | application _ visits _ => visits

def written : Episode → String
  | visit _ => ""
  | application _ _ written => written

def occasion : Episode → Occasion
  | visit v => .visit v.node
  | application call _ _ => .application call

/-- Each visit comes when the text up to then has been written, and those of an application come
while it goes on writing. -/
def InOrder (before : String) : List Episode → (after : String) → Prop
  | [], after => before = after
  | visit v :: es, after => v.world.output = before ∧ InOrder before es after
  | application _ visits written :: es, after =>
    (∀ v ∈ visits, ∃ part rest, written = part ++ rest ∧ v.world.output = before ++ part) ∧
      InOrder (before ++ written) es after

theorem InOrder.append {before mid after : String} {es es' : List Episode}
    (h : InOrder before es mid) (h' : InOrder mid es' after) :
    InOrder before (es ++ es') after := by
  induction es generalizing before with
  | nil =>
    obtain rfl : before = mid := h
    exact h'
  | cons episode es ih =>
    cases episode with
    | visit v => exact ⟨h.1, ih h.2⟩
    | application call visits written => exact ⟨h.1, ih h.2⟩

/-- What has been written in the end is what the episodes have written, one after another. -/
theorem InOrder.eq_append {before after : String} {es : List Episode}
    (h : InOrder before es after) : after = before ++ String.join (es.map written) := by
  induction es generalizing before with
  | nil =>
    obtain rfl : before = after := h
    simp
  | cons episode es ih =>
    cases episode with
    | visit v => simpa [written] using ih h.2
    | application call visits text => simpa [written, String.append_assoc] using ih h.2

end Episode

/-- The node that is visited, if one is. -/
def Occasion.visited? : Occasion → Option Node
  | visit node => some node
  | application _ => none

mutual

/-- The episodes of an expression: every node but a literal is visited in front of its parts, and
behind the arguments of a call the function is applied. -/
def Expr.schedule : Expr → List Occasion
  | .literal .. => []
  | .identifier name line => [.visit (.expression (.identifier name line))]
  | .binary operator left right line =>
    .visit (.expression (.binary operator left right line)) :: (left.schedule ++ right.schedule)
  | .call name arguments line =>
    .visit (.expression (.call name arguments line)) ::
      (Expr.listSchedule arguments ++ [.application (.expression (.call name arguments line))])

/-- The episodes of expressions that are evaluated one after another. -/
def Expr.listSchedule : List Expr → List Occasion
  | [] => []
  | e :: es => e.schedule ++ Expr.listSchedule es

end

mutual

/-- The nodes are visited in the order of a walk over the expression. -/
theorem Expr.filterMap_schedule :
    (e : Expr) → e.schedule.filterMap Occasion.visited? = e.preorder.filter Node.isVisited
  | .literal value line => rfl
  | .identifier name line => rfl
  | .binary operator left right line => by
    rw [Expr.schedule, Expr.preorder, List.filterMap_cons_some (f := Occasion.visited?) rfl,
      List.filterMap_append, left.filterMap_schedule, right.filterMap_schedule,
      List.filter_cons_of_pos rfl, List.filter_append]
  | .call name arguments line => by
    rw [Expr.schedule, Expr.preorder, List.filterMap_cons_some (f := Occasion.visited?) rfl,
      List.filterMap_append, Expr.filterMap_listSchedule arguments, List.filter_cons_of_pos rfl]
    exact congrArg _ (List.append_nil _)

theorem Expr.filterMap_listSchedule : (es : List Expr) →
    (Expr.listSchedule es).filterMap Occasion.visited? =
      (Expr.listPreorder es).filter Node.isVisited
  | [] => rfl
  | e :: es => by
    rw [Expr.listSchedule, Expr.listPreorder, List.filterMap_append, List.filter_append,
      e.filterMap_schedule, Expr.filterMap_listSchedule es]

end

/-! ## Evaluations by episodes -/

/-- The machine that runs the body of a closure for the arguments, in a scope of its own. -/
def Machine.ofCall (c : Closure) (arguments : List Int32) (world : World) : Machine :=
  start (.block c.body) world.scopes.size
    { world with
      scopes := (world.scopes.child c.scope).2.bindParameters world.scopes.size
        (c.parameters.zip arguments) }

/-- Applied to the arguments the function makes the visits, writes the text and has the value. A
built-in function has the value 0, and a closure what its body returns. -/
inductive Applies : Function → List Int32 → World → (visits : List Sighting) →
    (written : String) → Int32 → World → Prop
  | builtin {b arguments world} :
      Applies (.builtin b) arguments world [] (b.written arguments) 0
        (world.write (b.written arguments))
  | closure {c arguments world visits written value world'}
      (enough : arguments.length = c.parameters.length)
      (run : (Machine.ofCall c arguments world).EndsVisiting visits (.ok value) world')
      (output : world'.output = world.output ++ written) :
      Applies (.closure c) arguments world visits written
        (world'.scopes.result world.scopes.size) world'

mutual

/-- In the scope, and from the first world on, the expression is evaluated in these episodes. It has
the value, and leaves the second world. -/
inductive Evaluates (i : ScopeId) :
    World → Expr → List Episode → Int32 → World → Prop
  | literal {world value line} : Evaluates i world (.literal value line) [] value world
  | identifier {world name line value} (found : world.scopes.get? i name = some value) :
      Evaluates i world (.identifier name line)
        [.visit ⟨.expression (.identifier name line), i, world⟩] value world
  | binary {world operator left right line es a world₁ es' b world₂ value}
      (first : Evaluates i world left es a world₁)
      (second : Evaluates i world₁ right es' b world₂)
      (applied : operator.apply a b = some value) :
      Evaluates i world (.binary operator left right line)
        (.visit ⟨.expression (.binary operator left right line), i, world⟩ :: (es ++ es'))
        value world₂
  | call {world name arguments line function es values world₁ visits written value world₂}
      (found : world.scopes.function? i name = some function)
      (each : EvaluatesEach i world arguments es values world₁)
      (applied : Applies function values world₁ visits written value world₂) :
      Evaluates i world (.call name arguments line)
        (.visit ⟨.expression (.call name arguments line), i, world⟩ ::
          (es ++ [.application (.expression (.call name arguments line)) visits written]))
        value world₂

/-- The expressions are evaluated one after another. -/
inductive EvaluatesEach (i : ScopeId) :
    World → List Expr → List Episode → List Int32 → World → Prop
  | nil {world} : EvaluatesEach i world [] [] [] world
  | cons {world e rest es value world₁ es' values world₂}
      (first : Evaluates i world e es value world₁)
      (others : EvaluatesEach i world₁ rest es' values world₂) :
      EvaluatesEach i world (e :: rest) (es ++ es') (value :: values) world₂

end

namespace Machine

variable {i : ScopeId} {world world' : World}

/-! ## The machine goes through the episodes -/

theorem reaches_of_applies {function : Function} {arguments : List Int32} {visits : List Sighting}
    {written : String} {value : Int32} (applies : Applies function arguments world visits written
      value world') (name : String) (line : Nat) (stack : List Frame) :
    (apply function arguments (.call name line :: stack) world).ReachesVisiting visits
      ⟨.deliver value, stack, world'⟩ := by
  cases applies with
  | builtin => exact .head rfl (.refl _)
  | @closure c _ _ _ _ value world' enough run output =>
    rw [apply_closure, if_pos enough]
    have ran := run.above (.result world.scopes.size :: .call name line :: stack)
    exact (ran.tail rfl rfl).tail rfl rfl

mutual

theorem reaches_of_evaluates {e : Expr} {es : List Episode} {value : Int32} {world world' : World} :
    Evaluates i world e es value world' → ∀ stack,
      ReachesVisiting ⟨.evaluate (.expression e) i, stack, world⟩ (es.flatMap Episode.visits)
        ⟨.deliver value, stack, world'⟩
  | .literal, stack => .head rfl (.refl _)
  | .identifier found, stack => by
    refine .head ?_ (.refl _)
    rw [step, enter, enterExpression, found]
  | @Evaluates.binary _ _ operator _ right line _ a _ _ _ _ _ first second applied, stack => by
    have left := reaches_of_evaluates first (.leftOperand operator right line i :: stack)
    have both := left.trans (.head rfl
      (reaches_of_evaluates second (.rightOperand operator a line :: stack)))
    rw [List.flatMap_cons, List.flatMap_append]
    exact .head rfl (both.tail rfl (by rw [step, receive, applied]))
  | @Evaluates.call _ _ name arguments line function _ _ _ _ _ _ _ found each applied, stack => by
    have next : step ⟨.evaluate (.expression (.call name arguments line)) i, stack, world⟩ =
        proceedCall function name line [] arguments i stack world := by
      rw [step, enter, enterExpression, found]
    have ready := reaches_of_evaluatesEach each function name line [] stack
    have called := ready.trans (reaches_of_applies applied name line stack)
    rw [List.flatMap_cons, List.flatMap_append, List.flatMap_singleton]
    exact .head next called

theorem reaches_of_evaluatesEach {todo : List Expr} {es : List Episode} {values : List Int32}
    {world world' : World} : EvaluatesEach i world todo es values world' →
    ∀ (function : Function) (name : String) (line : Nat) (done : List Int32) (stack : List Frame),
      (proceedCall function name line done todo i stack world).ReachesVisiting
        (es.flatMap Episode.visits)
        (apply function (done.reverse ++ values) (.call name line :: stack) world')
  | .nil, function, name, line, done, stack => by
    rw [List.append_nil]
    exact .refl _
  | @EvaluatesEach.cons _ _ _ rest _ value _ _ _ _ first others, function, name, line, done,
      stack => by
    have evaluated := reaches_of_evaluates first (.argument function name line done rest i :: stack)
    have applied := reaches_of_evaluatesEach others function name line (value :: done) stack
    rw [List.reverse_cons, List.append_assoc, List.singleton_append] at applied
    rw [List.flatMap_append]
    exact evaluated.trans (.head rfl applied)

end

/-! ## The machine goes no other way -/

theorem applies_of_ends {function : Function} {arguments : List Int32} {name : String} {line : Nat}
    {stack : List Frame} {outcome : Int32}
    (ends : (apply function arguments (.call name line :: stack) world).Ends (.ok outcome) world') :
    ∃ visits written value world₁, Applies function arguments world visits written value world₁ ∧
      Ends ⟨.deliver value, stack, world₁⟩ (.ok outcome) world' := by
  cases function with
  | builtin b => exact ⟨_, _, _, _, .builtin, ends.step rfl⟩
  | closure c =>
    rw [apply_closure] at ends
    split at ends
    · next enough =>
      have inside : ((ofCall c arguments world).above
          (.result world.scopes.size :: .call name line :: stack)).Ends (.ok outcome) world' := ends
      obtain ⟨inner, world₁, run, rest⟩ := inside.of_above
      cases inner with
      | error fault => exact absurd rest not_ends_of_raise
      | ok value =>
        obtain ⟨visits, run⟩ := run.visiting
        obtain ⟨written, output⟩ := run.toEnds.output
        exact ⟨_, _, _, _, .closure enough run output, (rest.step rfl).step rfl⟩
    · exact absurd ends not_ends_of_raise

mutual

theorem evaluates_of_ends {stack : List Frame} {outcome : Int32} {world' : World} :
    (e : Expr) → {world : World} →
      Ends ⟨.evaluate (.expression e) i, stack, world⟩ (.ok outcome) world' →
        ∃ es value world₁, Evaluates i world e es value world₁ ∧
          Ends ⟨.deliver value, stack, world₁⟩ (.ok outcome) world'
  | .literal value line, _, ends => ⟨_, _, _, .literal, ends.step rfl⟩
  | .identifier name line, world, ends => by
    have next := ends.step rfl
    rw [step, enter, enterExpression] at next
    cases found : world.scopes.get? i name with
    | none =>
      rw [found] at next
      exact absurd next not_ends_of_raise
    | some value =>
      rw [found] at next
      exact ⟨_, _, _, .identifier found, next⟩
  | .binary operator left right line, _, ends => by
    obtain ⟨es, a, world₁, first, ends⟩ := evaluates_of_ends left (ends.step rfl)
    obtain ⟨es', b, world₂, second, ends⟩ := evaluates_of_ends right (ends.step rfl)
    have next := ends.step rfl
    rw [step, receive] at next
    cases applied : operator.apply a b with
    | none =>
      rw [applied] at next
      exact absurd next not_ends_of_raise
    | some value =>
      rw [applied] at next
      exact ⟨_, _, _, .binary first second applied, next⟩
  | .call name arguments line, world, ends => by
    have next := ends.step rfl
    rw [step, enter, enterExpression] at next
    cases found : world.scopes.function? i name with
    | none =>
      rw [found] at next
      exact absurd next not_ends_of_raise
    | some function =>
      rw [found] at next
      obtain ⟨es, values, world₁, each, ends⟩ := evaluatesEach_of_ends arguments next
      obtain ⟨visits, written, value, world₂, applied, ends⟩ := applies_of_ends ends
      exact ⟨_, _, _, .call found each applied, ends⟩

theorem evaluatesEach_of_ends {function : Function} {name : String} {line : Nat}
    {stack : List Frame} {outcome : Int32} {world' : World} :
    (todo : List Expr) → {done : List Int32} → {world : World} →
      (proceedCall function name line done todo i stack world).Ends (.ok outcome) world' →
        ∃ es values world₁, EvaluatesEach i world todo es values world₁ ∧
          (apply function (done.reverse ++ values) (.call name line :: stack) world₁).Ends
            (.ok outcome) world'
  | [], _, _, ends => ⟨[], [], _, .nil, by rwa [List.append_nil]⟩
  | e :: todo, done, _, ends => by
    obtain ⟨es, value, world₁, first, ends⟩ := evaluates_of_ends e ends
    have next : (proceedCall function name line (value :: done) todo i stack world₁).Ends
        (.ok outcome) world' := ends.step rfl
    obtain ⟨es', values, world₂, others, ends⟩ := evaluatesEach_of_ends todo next
    rw [List.reverse_cons, List.append_assoc, List.singleton_append] at ends
    exact ⟨_, _, _, .cons first others, ends⟩

end

/-- The machine evaluates an expression by its episodes, and in no other way. -/
theorem endsVisiting_iff {e : Expr} {visits : List Sighting} {value : Int32} :
    (start (.expression e) i world).EndsVisiting visits (.ok value) world' ↔
      ∃ es, Evaluates i world e es value world' ∧ visits = es.flatMap Episode.visits := by
  constructor
  · intro ends
    obtain ⟨es, value', world₁, evaluates, rest⟩ := evaluates_of_ends e ends.toEnds
    have there : Ends ⟨.deliver value', [], world₁⟩ (.ok value') world₁ :=
      ends_iff.mpr ⟨0, rfl, rfl⟩
    obtain ⟨same, rfl⟩ := rest.unique there
    obtain rfl := Except.ok.inj same
    have reached := (reaches_of_evaluates evaluates []).ends rfl
    exact ⟨es, evaluates, (ends.unique reached).1⟩
  · rintro ⟨es, evaluates, rfl⟩
    exact (reaches_of_evaluates evaluates []).ends rfl

end Machine

/-! ## The order of visits and of output -/

open Machine

/-- What is seen on the way has been written by then, and is still there in the end. -/
theorem Machine.EndsVisiting.output {m : Machine} {visits : List Sighting}
    {outcome : Except Fault Int32} {world : World} (h : m.EndsVisiting visits outcome world)
    {v : Sighting} (seen : v ∈ visits) :
    ∃ part rest, v.world.output = m.world.output ++ part ∧
      world.output = m.world.output ++ (part ++ rest) := by
  obtain ⟨n, -, rfl, rfl⟩ := h
  obtain ⟨k, seen⟩ := List.mem_iff_getElem?.mp seen
  obtain ⟨a, lt, -, here⟩ := exists_of_sightings seen
  obtain ⟨b, rfl⟩ := Nat.exists_eq_add_of_lt lt
  obtain ⟨part, before⟩ := output_after m a
  obtain ⟨rest, after⟩ := output_after (m.after a) (b + 1)
  have same : v.world = (m.after a).world :=
    (congrArg Machine.world (sighting?_eq_some here).1).symm
  refine ⟨part, rest, same ▸ before, ?_⟩
  rw [Nat.add_assoc, after_add, after, before, String.append_assoc]

theorem Applies.inOrder {function : Function} {arguments : List Int32} {world : World}
    {visits : List Sighting} {written : String} {value : Int32} {world' : World}
    (h : Applies function arguments world visits written value world') (call : Node) :
    Episode.InOrder world.output [.application call visits written] world'.output := by
  cases h with
  | builtin => exact ⟨nofun, rfl⟩
  | closure enough run output =>
    refine ⟨fun v seen => ?_, output.symm⟩
    obtain ⟨part, rest, before, after⟩ := run.output seen
    have same : written = part ++ rest := by
      have both : world.output ++ written = world.output ++ (part ++ rest) :=
        output.symm.trans after
      simpa using both
    exact ⟨part, rest, same, before⟩

section Evaluates

variable {i : ScopeId}

mutual

theorem Evaluates.occasions {world : World} {e : Expr} {es : List Episode} {value : Int32}
    {world' : World} : Evaluates i world e es value world' →
      es.map Episode.occasion = e.schedule
  | .literal => rfl
  | .identifier _ => rfl
  | .binary first second _ => by
    rw [Expr.schedule, List.map_cons, List.map_append, first.occasions, second.occasions]
    rfl
  | .call _ each _ => by
    rw [Expr.schedule, List.map_cons, List.map_append, each.occasions]
    rfl

theorem EvaluatesEach.occasions {world : World} {todo : List Expr} {es : List Episode}
    {values : List Int32} {world' : World} : EvaluatesEach i world todo es values world' →
      es.map Episode.occasion = Expr.listSchedule todo
  | .nil => rfl
  | .cons first others => by
    rw [Expr.listSchedule, List.map_append, first.occasions, others.occasions]

end

mutual

/-- All nodes of the expression are visited in its scope. -/
theorem Evaluates.scope_eq {world : World} {e : Expr} {es : List Episode} {value : Int32}
    {world' : World} {v : Sighting} : Evaluates i world e es value world' → .visit v ∈ es →
      v.scope = i
  | .literal, mem => nomatch mem
  | .identifier _, mem => by
    obtain rfl : v = _ := by simpa using mem
    rfl
  | .binary first second _, mem => by
    obtain here | later := List.mem_cons.mp mem
    · cases here
      rfl
    · obtain left | right := List.mem_append.mp later
      · exact first.scope_eq left
      · exact second.scope_eq right
  | .call _ each _, mem => by
    obtain here | later := List.mem_cons.mp mem
    · cases here
      rfl
    · obtain inside | behind := List.mem_append.mp later
      · exact each.scope_eq inside
      · cases List.mem_singleton.mp behind

theorem EvaluatesEach.scope_eq {world : World} {todo : List Expr} {es : List Episode}
    {values : List Int32} {world' : World} {v : Sighting} :
    EvaluatesEach i world todo es values world' → .visit v ∈ es → v.scope = i
  | .nil, mem => nomatch mem
  | .cons first others, mem => by
    obtain here | later := List.mem_append.mp mem
    · exact first.scope_eq here
    · exact others.scope_eq later

end

mutual

theorem Evaluates.inOrder {world : World} {e : Expr} {es : List Episode} {value : Int32}
    {world' : World} : Evaluates i world e es value world' →
      Episode.InOrder world.output es world'.output
  | .literal => rfl
  | .identifier _ => ⟨rfl, rfl⟩
  | .binary first second _ => ⟨rfl, first.inOrder.append second.inOrder⟩
  | .call _ each applied => ⟨rfl, each.inOrder.append (applied.inOrder _)⟩

theorem EvaluatesEach.inOrder {world : World} {todo : List Expr} {es : List Episode}
    {values : List Int32} {world' : World} : EvaluatesEach i world todo es values world' →
      Episode.InOrder world.output es world'.output
  | .nil => rfl
  | .cons first others => first.inOrder.append others.inOrder

end

end Evaluates

/-! ## Expressions without calls -/

/-- The frame waits for an operand of an expression without calls. -/
def Frame.CallFree : Frame → Prop
  | leftOperand _ right _ _ => right.CallFree
  | rightOperand .. => True
  | _ => False

namespace Expr

/-- The expression for values of its variables, which a variable and an operator may lack. -/
def fold (value? : String → Option Int32) : Expr → Option Int32
  | literal value _ => some value
  | identifier name _ => value? name
  | binary operator left right _ => do
    let a ← left.fold value?
    let b ← right.fold value?
    operator.apply a b
  | call .. => none

mutual

/-- The expression and those that it is made of, each behind its parts. -/
def postorder : Expr → List Expr
  | literal value line => [.literal value line]
  | identifier name line => [.identifier name line]
  | binary operator left right line =>
    left.postorder ++ right.postorder ++ [.binary operator left right line]
  | call name arguments line => listPostorder arguments ++ [.call name arguments line]

/-- The expressions of a list and those that they are made of, one expression after another. -/
def listPostorder : List Expr → List Expr
  | [] => []
  | e :: es => e.postorder ++ listPostorder es

end

/-- What goes wrong at the variable or the operator itself, for values of the variables: the
variable has none, or the operator has none for the values of its operands. -/
def ownFault? (value? : String → Option Int32) : Expr → Option Fault
  | literal .. => none
  | identifier name line =>
    match value? name with
    | some _ => none
    | none => some (.unknownIdentifier name line)
  | binary operator left right line =>
    match left.fold value?, right.fold value? with
    | some a, some b =>
      match operator.apply a b with
      | some _ => none
      | none => some (.arithmetic line)
    | _, _ => none
  | call .. => none

/-- The value of an expression without calls is that of the values of its variables. If it has none,
the first variable or operator that fails is to blame. -/
theorem valueIn_spec (s : Scopes) (i : ScopeId) : (e : Expr) → e.CallFree →
    (∃ value, e.valueIn s i = .ok value ∧ e.fold (s.get? i) = some value ∧
      e.postorder.findSome? (ownFault? (s.get? i)) = none) ∨
    ∃ fault, e.valueIn s i = .error fault ∧ e.fold (s.get? i) = none ∧
      e.postorder.findSome? (ownFault? (s.get? i)) = some fault
  | literal value line, _ => .inl ⟨value, rfl, rfl, rfl⟩
  | identifier name line, _ => by
    simp only [valueIn, fold, postorder, List.findSome?_singleton, ownFault?]
    cases s.get? i name with
    | some value => exact .inl ⟨value, rfl, rfl, rfl⟩
    | none => exact .inr ⟨_, rfl, rfl, rfl⟩
  | binary operator left right line, free => by
    simp only [valueIn, fold, postorder, List.findSome?_append, List.findSome?_singleton, ownFault?]
    obtain ⟨a, known, folded, passed⟩ | ⟨fault, failed, folded, found⟩ :=
      valueIn_spec s i left free.1
    · obtain ⟨b, known', folded', passed'⟩ | ⟨fault, failed', folded', found'⟩ :=
        valueIn_spec s i right free.2
      · simp only [known, known', folded, folded', passed, passed']
        cases applied : operator.apply a b with
        | some value => exact .inl ⟨value, by simp [bind, Except.bind, applied], applied, rfl⟩
        | none => exact .inr ⟨_, by simp [bind, Except.bind, applied], applied, rfl⟩
      · simp only [known, failed', folded, folded', passed, found']
        exact .inr ⟨fault, rfl, rfl, rfl⟩
    · simp only [failed, folded, found]
      exact .inr ⟨fault, rfl, rfl, rfl⟩

/-- Only the one or the other: a value, or a fault. -/
theorem valueIn_eq_ok_iff {e : Expr} (free : e.CallFree) {s : Scopes} {i : ScopeId}
    {value : Int32} : e.valueIn s i = .ok value ↔ e.fold (s.get? i) = some value := by
  obtain ⟨_, known, folded, -⟩ | ⟨_, failed, folded, -⟩ := valueIn_spec s i e free
  · rw [known, folded, Except.ok.injEq, Option.some.injEq]
  · rw [failed, folded]
    exact iff_of_false nofun nofun

theorem valueIn_eq_error_iff {e : Expr} (free : e.CallFree) {s : Scopes} {i : ScopeId}
    {fault : Fault} : e.valueIn s i = .error fault ↔
      e.postorder.findSome? (ownFault? (s.get? i)) = some fault := by
  obtain ⟨_, known, -, first⟩ | ⟨_, failed, -, first⟩ := valueIn_spec s i e free
  · rw [known, first]
    exact iff_of_false nofun nofun
  · rw [failed, first, Except.error.injEq, Option.some.injEq]

end Expr

namespace Machine

/-- Nothing but expressions without calls is under way, and the world is what it was. -/
inductive Quiet (world : World) : Machine → Prop
  | evaluate {e i stack} (free : e.CallFree) (below : ∀ frame ∈ stack, frame.CallFree) :
      Quiet world ⟨.evaluate (.expression e) i, stack, world⟩
  | deliver {value stack} (below : ∀ frame ∈ stack, frame.CallFree) :
      Quiet world ⟨.deliver value, stack, world⟩
  | raise {fault stack} (below : ∀ frame ∈ stack, frame.CallFree) :
      Quiet world ⟨.raise fault, stack, world⟩

namespace Quiet

variable {world : World} {m : Machine}

theorem step (h : m.Quiet world) : m.step.Quiet world := by
  cases h with
  | @evaluate e i stack free below =>
    cases e with
    | literal value line => exact .deliver below
    | identifier name line =>
      rw [Machine.step, enter, enterExpression]
      split
      · exact .deliver below
      · exact .raise below
    | binary operator left right line =>
      exact .evaluate free.1 (List.forall_mem_cons.mpr ⟨free.2, below⟩)
    | call name arguments line => exact free.elim
  | @deliver value stack below =>
    cases stack with
    | nil => exact .deliver below
    | cons frame stack =>
      obtain ⟨free, others⟩ := List.forall_mem_cons.mp below
      cases frame with
      | leftOperand operator right line i =>
        exact .evaluate free (List.forall_mem_cons.mpr ⟨trivial, others⟩)
      | rightOperand operator left line =>
        rw [Machine.step, receive]
        split
        · exact .deliver others
        · exact .raise others
      | _ => exact free.elim
  | @raise fault stack below =>
    cases stack with
    | nil => exact .raise below
    | cons frame stack =>
      obtain ⟨free, others⟩ := List.forall_mem_cons.mp below
      cases frame with
      | leftOperand | rightOperand => exact .raise others
      | _ => exact free.elim

theorem world_eq (h : m.Quiet world) : m.world = world := by
  cases h <;> rfl

end Quiet

/-- At no step of an expression without calls has anything changed. -/
theorem world_after_of_callFree {e : Expr} (free : e.CallFree) (i : ScopeId) (world : World)
    (n : Nat) : ((start (.expression e) i world).after n).world = world :=
  have quiet : (start (.expression e) i world).Quiet world := .evaluate free nofun
  (after_induction (motive := Quiet world) (fun _ => Quiet.step) n quiet).world_eq

/-- Operands and arguments are evaluated from left to right, each of them once. An evaluation that
succeeds is made of the episodes that the expression schedules: a visit of each node but the
literals, in the scope and in the order of a walk over the expression, and behind the visits of the
arguments of a call the application of its function, in which the body of a closure makes all its
visits. The value is that of the operators for the values of their operands, for logical operators
as for others. The output is in the same order: every visit comes when the episodes before it have
written theirs, and what is written in the end is what the episodes have written.

An expression without calls changes nothing at any step, whether it succeeds or not. It always ends.
Its value is that of the values that the scope gives its variables, and if it fails, the fault is
that of the first variable or operator that has no value behind its operands. -/
theorem evaluation_goes_left_to_right (i : ScopeId) :
    (∀ e world visits value world',
      (start (.expression e) i world).EndsVisiting visits (.ok value) world' ↔
        ∃ es, Evaluates i world e es value world' ∧ visits = es.flatMap Episode.visits) ∧
    (∀ world e es value world', Evaluates i world e es value world' →
      es.map Episode.occasion = e.schedule ∧ (∀ v, .visit v ∈ es → v.scope = i) ∧
      Episode.InOrder world.output es world'.output ∧
      world'.output = world.output ++ String.join (es.map Episode.written)) ∧
    (∀ e : Expr,
      e.schedule.filterMap Occasion.visited? = (Node.expression e).preorder.filter Node.isVisited) ∧
    ∀ e world, e.CallFree →
      (∀ n, ((start (.expression e) i world).after n).world = world) ∧
      (∃ outcome, (start (.expression e) i world).Ends outcome world) ∧
      (∀ value, (start (.expression e) i world).Ends (.ok value) world ↔
        e.fold (world.scopes.get? i) = some value) ∧
      ∀ fault, (start (.expression e) i world).Ends (.error fault) world ↔
        e.postorder.findSome? (Expr.ownFault? (world.scopes.get? i)) = some fault := by
  refine ⟨fun _ _ _ _ _ => endsVisiting_iff, ?_, Expr.filterMap_schedule, ?_⟩
  · intro world e es value world' evaluates
    have output := evaluates.inOrder
    exact ⟨evaluates.occasions, fun v => evaluates.scope_eq, output, output.eq_append⟩
  · intro e world free
    have ends := ends_of_callFree free i world
    have only (outcome : Except Fault Int32) :
        (start (.expression e) i world).Ends outcome world ↔ e.valueIn world.scopes i = outcome :=
      ⟨fun ends' => (ends.unique ends').1, fun same => same ▸ ends⟩
    refine ⟨world_after_of_callFree free i world, ⟨_, ends⟩, fun value => ?_, fun fault => ?_⟩
    · rw [only, Expr.valueIn_eq_ok_iff free]
    · rw [only, Expr.valueIn_eq_error_iff free]

/-- A variable, the built-in function that writes, and a function that assigns to the variable,
writes it and returns it. -/
def incrementing : World where
  scopes := ⟨#[{
    values := [("x", 1)]
    functions := [("print", .builtin .print),
      ("f", .closure ⟨0, [], ⟨[
        .assignment "x" (.binary .add (.identifier "x" 1) (.literal 1 1) 1) 1,
        .expression (.call "print" [.identifier "x" 1] 1),
        .returns (.identifier "x" 1) 1], 1⟩⟩)] }]⟩

theorem evaluation_goes_left_to_right_of_incrementing :
    let x : Expr := .identifier "x" 1
    let difference : Expr := .binary .subtract (.call "f" [] 1) (.call "f" [] 1) 1
    let twice : Expr := .binary .multiply x difference 1
    (∃ es world', Evaluates 0 incrementing twice es (-1) world' ∧
      es.map Episode.occasion = twice.schedule ∧
      Episode.InOrder "" es world'.output ∧ world'.output = "2\n3\n") ∧
    (start (.expression (.binary .remainder x (.literal 0 1) 1)) 0 incrementing).Ends
      (.error (.arithmetic 1)) incrementing := by
  intro x difference twice
  obtain ⟨runs, episodes, -, quiet⟩ := evaluation_goes_left_to_right 0
  have ends : (start (.expression twice) 0 incrementing).EndsVisiting _ (.ok (-1)) _ :=
    ⟨60, by rfl, rfl, rfl⟩
  obtain ⟨es, evaluates, -⟩ := (runs twice incrementing _ _ _).mp ends
  obtain ⟨scheduled, -, ordered, -⟩ := episodes incrementing twice es _ _ evaluates
  have free : (Expr.binary .remainder x (.literal 0 1) 1).CallFree := ⟨trivial, trivial⟩
  obtain ⟨-, -, -, faults⟩ := quiet _ incrementing free
  exact ⟨⟨es, _, evaluates, scheduled, ordered, by decide +kernel⟩, (faults _).mpr rfl⟩

end Machine

end FunLanguage
