import FunLanguage.Proofs.Tracking

/-!
# Interrupts implement returns

The machine and the big-step semantics agree. The machine carries the value of a return statement in
the interrupts of the scopes around it; where the semantics says that a part is completed normally,
or has returned a value, no old scope, or none but that of the part, is interrupted when the machine
is done with it (`Completed`).

`simulates` is the induction on the fuel that goes through all rules; each has a lemma of its own.
From it programs (`run_follows`) and applications of functions (`apply_follows`) do what the
semantics says, and `interrupts_implement_returns` is the main result.
-/

namespace FunLanguage

namespace BigStep

open Evaluation Machine

/-! ## What the machine comes to -/

/-- The machine hands on the value of an expression or of a call. -/
def Valued (s : Scopes) (stack : List Frame) (value : Int32) (m : Machine) : Prop :=
  ∃ world, m = ⟨.deliver value, stack, world⟩ ∧ s.SameInterrupts world.scopes

/-- The value returned, if one is. -/
def Completion.returned? : Completion → Option Int32
  | normal => none
  | returned value => some value

/-- The scopes when a part in scope `i` has come to the completion. -/
def Completion.mark (i : ScopeId) (s : Scopes) : Completion → Scopes
  | normal => s
  | returned value => s.interrupt i value

namespace Completion

variable {s s' : Scopes} {i : ScopeId}

/-- A part in a new scope changes no old interrupt. -/
theorem sameInterrupts_of_mark {old : Scopes} (completion : Completion)
    (before : old.SameInterrupts s) (new : old.size ≤ i)
    (h : (completion.mark i s).SameInterrupts s') : old.SameInterrupts s' := by
  cases completion with
  | normal => exact before.trans h
  | returned value => exact .of_interrupt_new new before h

theorem getD_returned? (completion : Completion) :
    completion.returned?.getD 0 = completion.value := by
  cases completion <;> rfl

theorem size_mark (completion : Completion) (i : ScopeId) (s : Scopes) :
    (completion.mark i s).size = s.size := by
  cases completion <;> simp [mark, Scopes.interrupt]

/-- The interrupt of a scope that had none tells the completion. -/
theorem interrupt?_of_mark (completion : Completion) (created : i < s.size)
    (fresh : (s.scope i).interrupt? = none) (h : (completion.mark i s).SameInterrupts s') :
    (s'.scope i).interrupt? = completion.returned? := by
  rw [h.interrupt? i (by rwa [size_mark])]
  cases completion with
  | normal => exact fresh
  | returned value => exact Scopes.interrupt?_interrupt_self created value

end Completion

/-- The machine is done with a part that changes no old interrupt but that of its scope `i`. -/
def Completed (s : Scopes) (i : ScopeId) (stack : List Frame) (completion : Completion)
    (m : Machine) : Prop :=
  ∃ value world, m = ⟨.deliver value, stack, world⟩ ∧
    (completion.mark i s).SameInterrupts world.scopes

theorem Completed.of_kept {s s' : Scopes} {i : ScopeId} {stack : List Frame}
    {completion : Completion} {m : Machine} (h : Completed s' i stack completion m)
    (kept : s.SameInterrupts s') : Completed s i stack completion m := by
  obtain ⟨value, world, rfl, done⟩ := h
  refine ⟨value, world, rfl, ?_⟩
  cases completion with
  | normal => exact kept.trans done
  | returned v => exact (kept.interrupt i v).trans done

/-- All evaluations with this fuel track the machine. -/
structure Simulates (fuel : Nat) : Prop where
  expression : ∀ e i stack world,
    Tracks (fuel / 2 + 1) (expression fuel e i) world.forgetInterrupts
      ⟨.evaluate (.expression e) i, stack, world⟩ stack (Valued world.scopes stack)
  /-- The arguments of a call, and what comes after them. -/
  arguments : ∀ function name line done todo i stack world steps (f : List Int32 → Evaluation Int32)
    right, steps ≤ (fuel + 1) / 2 →
    (∀ values world', world.scopes.SameInterrupts world'.scopes →
      Tracks steps (f values) world'.forgetInterrupts
        (Machine.apply function (done.reverse ++ values) (.call name line :: stack) world') stack
        right) →
    Tracks steps (arguments fuel todo i >>= f) world.forgetInterrupts
      (proceedCall function name line done todo i stack world) stack right
  apply : ∀ function values stack world,
    Tracks ((fuel + 1) / 2) (apply fuel function values) world.forgetInterrupts
      (Machine.apply function values stack world) stack (Valued world.scopes stack)
  block : ∀ b i stack world,
    Tracks (fuel / 2 + 1) (block fuel b i) world.forgetInterrupts
      ⟨.evaluate (.block b) i, stack, world⟩ stack (Completed world.scopes i stack)
  /-- The statements of a block, where the scopes before the block were `s`. -/
  statements : ∀ s rest outer stack world, s.SameInterrupts world.scopes →
    s.size < world.scopes.size → world.scopes.isInterrupted s.size = false →
    Tracks ((fuel + 1) / 2) (releasing s.size (statements fuel rest s.size)) world.forgetInterrupts
      (proceedBlock rest s.size outer stack world) stack (Completed s outer stack)
  statement : ∀ t i stack world, i < world.scopes.size → world.scopes.isInterrupted i = false →
    Tracks (fuel / 2 + 1) (statement fuel t i) world.forgetInterrupts
      ⟨.evaluate (.statement t) i, stack, world⟩ stack (Completed world.scopes i stack)
  loop : ∀ condition body i stack world, i < world.scopes.size →
    world.scopes.isInterrupted i = false →
    Tracks ((fuel + 1) / 2) (loop fuel condition body i) world.forgetInterrupts
      (proceedLoop condition body i stack world) stack (Completed world.scopes i stack)

/-! ## Expressions -/

section Rules

variable {fuel : Nat} (ih : Simulates fuel) {i : ScopeId} {stack : List Frame} {world : World}

include ih

/-- An expression and what comes after it, where a fault only passes through the frame. -/
theorem Simulates.operand {β : Type} {steps : Nat} {e : Expr} {frame : Frame}
    {f : Int32 → Evaluation β} {right : β → Machine → Prop} (le : steps ≤ fuel / 2 + 1)
    (plain : ∀ fault world, unwind frame fault stack world = ⟨.raise fault, stack, world⟩)
    (next : ∀ value world', world.scopes.SameInterrupts world'.scopes →
      Tracks steps (f value) world'.forgetInterrupts ⟨.deliver value, frame :: stack, world'⟩ stack
        right) :
    Tracks steps (BigStep.expression fuel e i >>= f) world.forgetInterrupts
      ⟨.evaluate (.expression e) i, frame :: stack, world⟩ stack right := by
  refine ((ih.expression e i (frame :: stack) world).mono _ le).bind ?_ ?_
  · exact fun fault world' => .fail_frame (plain fault world')
  · rintro value m ⟨world', rfl, same⟩
    exact next value world' same

theorem expression_tracks (e : Expr) :
    Tracks ((fuel + 1) / 2 + 1) (expression (fuel + 1) e i) world.forgetInterrupts
      ⟨.evaluate (.expression e) i, stack, world⟩ stack (Valued world.scopes stack) := by
  cases e with
  | literal value line =>
    rw [expression]
    refine .skip rfl rfl rfl ?_
    exact .pure rfl ⟨world, rfl, .refl _⟩
  | identifier name line =>
    rw [expression]
    refine .visit rfl rfl (.scopes ?_)
    have same : world.forgetInterrupts.scopes.get? i name = world.scopes.get? i name :=
      Scopes.get?_forgetInterrupts ..
    rw [same, enter, enterExpression]
    cases world.scopes.get? i name with
    | some value => exact .pure rfl ⟨world, rfl, .refl _⟩
    | none => exact .fail rfl
  | binary operator left right line =>
    rw [expression]
    refine .visit rfl rfl ?_
    refine ih.operand (by omega) (fun _ _ => rfl) fun a world₁ same₁ => ?_
    refine .skip rfl rfl rfl ?_
    refine ih.operand (by omega) (fun _ _ => rfl) fun b world₂ same₂ => ?_
    refine .skip rfl rfl rfl ?_
    rw [Machine.step, receive]
    cases operator.apply a b with
    | some value => exact .pure rfl ⟨world₂, rfl, same₁.trans same₂⟩
    | none => exact .fail rfl
  | call name todo line =>
    rw [expression]
    refine .visit rfl rfl (.scopes ?_)
    have same : world.forgetInterrupts.scopes.function? i name = world.scopes.function? i name :=
      Scopes.function?_forgetInterrupts ..
    rw [same, enter, enterExpression]
    cases world.scopes.function? i name with
    | none => exact .fail rfl
    | some function =>
      refine ih.arguments _ _ _ _ _ _ _ _ _ _ _ (Nat.le_refl _) fun values world₁ same₁ => ?_
      rw [calledBy_eq]
      refine (ih.apply function values (.call name line :: stack) world₁).followedBy ?_ ?_
      · rintro value m ⟨world₂, rfl, same₂⟩
        refine .skip rfl rfl rfl ?_
        exact .pure rfl ⟨world₂, rfl, same₁.trans same₂⟩
      · intro fault world₂
        refine .skip rfl rfl rfl ?_
        cases fault <;> exact .fail rfl

/-- The arguments of a call and what comes after them. -/
theorem arguments_track {function : Function} {name : String} {line : Nat} {done : List Int32}
    {steps : Nat} {f : List Int32 → Evaluation Int32} {right : Int32 → Machine → Prop}
    (todo : List Expr) (le : steps ≤ (fuel + 1 + 1) / 2)
    (next : ∀ values world', world.scopes.SameInterrupts world'.scopes →
      Tracks steps (f values) world'.forgetInterrupts
        (Machine.apply function (done.reverse ++ values) (.call name line :: stack) world') stack
        right) :
    Tracks steps (arguments (fuel + 1) todo i >>= f) world.forgetInterrupts
      (proceedCall function name line done todo i stack world) stack right := by
  cases todo with
  | nil =>
    have all := next [] world (.refl _)
    rw [List.append_nil] at all
    rw [arguments]
    exact all
  | cons e todo =>
    have same : arguments (fuel + 1) (e :: todo) i >>= f =
        expression fuel e i >>= fun value =>
          arguments fuel todo i >>= fun values => f (value :: values) := by
      rw [arguments, Evaluation.bind_assoc]
      congr 1
      funext value
      rw [Evaluation.bind_assoc]
      rfl
    rw [same, proceedCall]
    refine ih.operand (by omega) (fun _ _ => rfl) fun value world₁ same₁ => ?_
    refine .pass (steps - 1) (by omega) rfl rfl rfl ?_
    refine ih.arguments _ _ _ _ _ _ _ _ _ _ _ (by omega) fun values world₂ same₂ => ?_
    have all := (next (value :: values) world₂ (same₁.trans same₂)).mono _ (Nat.sub_le steps 1)
    rw [List.reverse_cons, List.append_assoc, List.singleton_append]
    exact all

/-! ## Calls -/

theorem apply_tracks (function : Function) (values : List Int32) :
    Tracks ((fuel + 1 + 1) / 2) (apply (fuel + 1) function values) world.forgetInterrupts
      (Machine.apply function values stack world) stack (Valued world.scopes stack) := by
  cases function with
  | builtin b =>
    rw [apply]
    exact .write (.pure rfl ⟨_, rfl, .refl _⟩)
  | closure c =>
    rw [apply, apply_closure]
    split
    · next enough =>
      let inside := (world.scopes.child c.scope).2.bindParameters world.scopes.size
        (c.parameters.zip values)
      have same : (world.scopes.forgetInterrupts.child c.scope).2.bindParameters world.scopes.size
          (c.parameters.zip values) = inside.forgetInterrupts := by
        rw [← Scopes.forgetInterrupts_child, ← Scopes.forgetInterrupts_bindParameters]
      have kept : world.scopes.SameInterrupts inside :=
        (Scopes.SameInterrupts.child _ c.scope).trans (.bindParameters _ _ _)
      refine .scopes ?_
      show Tracks _ (setScopes ((world.scopes.forgetInterrupts.child c.scope).2.bindParameters
          world.scopes.forgetInterrupts.size (c.parameters.zip values)) >>= fun _ =>
        block fuel c.body world.scopes.forgetInterrupts.size >>= fun completion =>
          pure completion.value) _ _ _ _
      rw [Scopes.size_forgetInterrupts, same]
      have body := ih.block c.body world.scopes.size (.result world.scopes.size :: stack)
        { world with scopes := inside }
      refine .setScopes ((body.mono ((fuel + 1 + 1) / 2) (by omega)).bind
        (fun _ _ => .fail_frame rfl) ?_)
      rintro completion m ⟨value, world₁, rfl, done⟩
      have interrupt? := completion.interrupt?_of_mark (by simp [inside]) (by
        rw [Scopes.field_bindParameters Scope.interrupt? _ _ _ _ fun _ _ _ => rfl,
          Scopes.scope_child_size]) done
      refine .skip rfl rfl rfl (.pure rfl ⟨world₁, ?_, ?_⟩)
      · rw [Machine.step, receive, Scopes.result, interrupt?, completion.getD_returned?]
      · exact completion.sameInterrupts_of_mark kept (Nat.le_refl _) done
    · exact .fail rfl

/-! ## Blocks -/

theorem block_tracks (b : Block) :
    Tracks ((fuel + 1) / 2 + 1) (block (fuel + 1) b i) world.forgetInterrupts
      ⟨.evaluate (.block b) i, stack, world⟩ stack (Completed world.scopes i stack) := by
  have same : (world.scopes.forgetInterrupts.child i).2 =
      (world.scopes.child i).2.forgetInterrupts := (Scopes.forgetInterrupts_child ..).symm
  rw [block]
  refine .visit (enter_block b i stack world) rfl (.scopes ?_)
  show Tracks _ (setScopes (world.scopes.forgetInterrupts.child i).2 >>= fun _ =>
    releasing world.scopes.forgetInterrupts.size
      (statements fuel b.statements world.scopes.forgetInterrupts.size)) _ _ _ _
  rw [Scopes.size_forgetInterrupts, same]
  have rest := ih.statements world.scopes b.statements i stack
    { world with scopes := (world.scopes.child i).2 } (.child _ i) (by simp)
    (Scopes.isInterrupted_child_size ..)
  exact .setScopes rest

/-- The statements of a block, where `s` are the scopes before the block. -/
theorem statements_track {s : Scopes} {outer : ScopeId} (rest : List Stmt)
    (kept : s.SameInterrupts world.scopes) (created : s.size < world.scopes.size)
    (running : world.scopes.isInterrupted s.size = false) :
    Tracks ((fuel + 1 + 1) / 2) (releasing s.size (statements (fuel + 1) rest s.size))
      world.forgetInterrupts (proceedBlock rest s.size outer stack world) stack
      (Completed s outer stack) := by
  have released (scopes : Scopes) (output : String) :
      ({ scopes := scopes.forgetInterrupts.release s.size, output } : World) =
        World.forgetInterrupts { scopes := scopes.release s.size, output } := by
    rw [World.forgetInterrupts, Scopes.forgetInterrupts_release]
  cases rest with
  | nil =>
    rw [statements]
    exact .released (.pure (released ..) ⟨0, _, rfl, kept.trans (.release ..)⟩)
  | cons t rest =>
    rw [statements, releasing_bind]
    refine ((ih.statement t s.size (.sequence rest s.size outer :: stack) world created
      running).mono ((fuel + 1 + 1) / 2) (by omega)).followedBy ?_ ?_
    · rintro completion m ⟨value, world₁, rfl, done⟩
      have kept₁ := completion.sameInterrupts_of_mark kept (Nat.le_refl _) done
      have created₁ := Nat.lt_of_lt_of_le created (completion.size_mark s.size _ ▸ done.size)
      have interrupt? := completion.interrupt?_of_mark created (by
        simpa [Scopes.isInterrupted] using running) done
      cases completion with
      | normal =>
        have inside : world₁.scopes.isInterrupted s.size = false := by
          rw [Scopes.isInterrupted, interrupt?]
          rfl
        refine .pass ((fuel + 1) / 2) (by omega) rfl ?_ rfl
          (ih.statements s rest outer stack world₁ kept₁ created₁ inside)
        rw [Machine.step, receive, if_neg (by simp [inside])]
      | returned v =>
        have next : (Machine.step ⟨.deliver value, .sequence rest s.size outer :: stack, world₁⟩) =
            ⟨.deliver 0, stack,
              { world₁ with scopes := (world₁.scopes.interrupt outer v).release s.size }⟩ := by
          rw [Machine.step, receive, Scopes.isInterrupted, Scopes.result, interrupt?]
          rfl
        refine .skip rfl next rfl (.released (.pure ?_ ⟨0, _, rfl, ?_⟩))
        · rw [← released, Scopes.forgetInterrupts_interrupt]
          rfl
        · exact (kept₁.interrupt outer v).trans (.release ..)
    · intro fault world₁
      exact .skip rfl rfl rfl (.released_fail (.fail (released ..)))

/-! ## Statements -/

omit ih in
theorem declare_tracks {steps : Nat} {s : Scopes} (name : String) (value : Int32) (line : Nat)
    (kept : s.SameInterrupts world.scopes) :
    Tracks steps (do
        update (.redefinition name line) ((← scopes).define i name value)
        pure Completion.normal) world.forgetInterrupts (declare name value line i stack world) stack
      (Completed s i stack) := by
  refine .scopes (.update (·.define i name value)
    (Scopes.define_forgetInterrupts ..) (fun s' bound => ?_) fun e s' unbound => ?_)
  · have declared : declare name value line i stack world =
        ⟨.deliver 0, stack, { world with scopes := s' }⟩ := by
      rw [declare, bound]
    obtain ⟨-, rfl⟩ := Scopes.define_eq_ok_iff.mp bound
    rw [declared]
    exact .pure rfl ⟨0, _, rfl, kept.trans (.modify _ _ fun _ => rfl)⟩
  · have failed : declare name value line i stack world =
        ⟨.raise (.redefinition name line), stack, { world with scopes := s' }⟩ := by
      rw [declare, unbound]
    rw [failed]
    exact .fail rfl

theorem statement_tracks (t : Stmt) (created : i < world.scopes.size)
    (running : world.scopes.isInterrupted i = false) :
    Tracks ((fuel + 1) / 2 + 1) (statement (fuel + 1) t i) world.forgetInterrupts
      ⟨.evaluate (.statement t) i, stack, world⟩ stack (Completed world.scopes i stack) := by
  cases t with
  | expression e =>
    rw [statement]
    refine .pass (fuel / 2 + 1) (by omega) rfl rfl rfl ?_
    refine (ih.expression e i stack world).bind ?_ ?_
    · exact fun _ _ => .fail rfl
    · rintro value m ⟨world₁, rfl, kept⟩
      exact .pure rfl ⟨value, world₁, rfl, kept⟩
  | definition name parameters body line =>
    rw [statement]
    refine .visit rfl rfl (.scopes (.update (·.defineFunction i name _)
      (Scopes.defineFunction_forgetInterrupts ..) (fun s' bound => ?_) fun e s' unbound => ?_))
    · have defined : enter (.statement (.definition name parameters body line)) i stack world =
          ⟨.deliver 0, stack, { world with scopes := s' }⟩ := by
        rw [enter, enterStatement, bound]
      obtain ⟨-, rfl⟩ := Scopes.defineFunction_eq_ok_iff.mp bound
      rw [defined]
      exact .pure rfl ⟨0, _, rfl, .modify _ _ fun _ => rfl⟩
    · have failed : enter (.statement (.definition name parameters body line)) i stack world =
          ⟨.raise (.redefinition name line), stack, { world with scopes := s' }⟩ := by
        rw [enter, enterStatement, unbound]
      rw [failed]
      exact .fail rfl
  | declaration name value? line =>
    cases value? with
    | none =>
      rw [statement]
      exact .visit rfl rfl (declare_tracks name 0 line (.refl _))
    | some e =>
      rw [statement]
      refine .visit rfl rfl ?_
      refine ih.operand (by omega) (fun _ _ => rfl) fun value world₁ kept => ?_
      exact .skip rfl rfl rfl (declare_tracks name value line kept)
  | loop condition body line =>
    rw [statement]
    exact .visit rfl rfl (ih.loop condition body i stack world created running)
  | branch condition body otherwise? line =>
    rw [statement]
    refine .visit rfl rfl ?_
    refine ih.operand (by omega) (fun _ _ => rfl) fun value world₁ kept => ?_
    refine .skip rfl rfl rfl ?_
    rw [Machine.step, receive]
    cases (if value = 0 then otherwise? else some body) with
    | none => exact .pure rfl ⟨0, world₁, rfl, kept⟩
    | some chosen =>
      exact ((ih.block chosen i stack world₁).mono _ (by omega)).imp
        fun _ _ done => done.of_kept kept
  | assignment name e line =>
    rw [statement]
    refine .visit rfl rfl ?_
    refine ih.operand (by omega) (fun _ _ => rfl) fun value world₁ kept => ?_
    refine .skip rfl rfl rfl ?_
    refine .scopes (.update (·.set i name value) (Scopes.set_forgetInterrupts ..)
      (fun s' bound => ?_) fun e s' unbound => ?_)
    · have assigned : Machine.step ⟨.deliver value, .assignment name line i :: stack, world₁⟩ =
          ⟨.deliver 0, stack, { world₁ with scopes := s' }⟩ := by
        rw [Machine.step, receive, bound]
      obtain ⟨j, -, rfl⟩ := Scopes.set_eq_ok_iff.mp bound
      rw [assigned]
      exact .pure rfl ⟨0, _, rfl, kept.trans (.modify _ _ fun _ => rfl)⟩
    · have failed : Machine.step ⟨.deliver value, .assignment name line i :: stack, world₁⟩ =
          ⟨.raise (.unknownIdentifier name line), stack, { world₁ with scopes := s' }⟩ := by
        rw [Machine.step, receive, unbound]
      rw [failed]
      exact .fail rfl
  | returns e line =>
    rw [statement]
    refine .visit rfl rfl ?_
    refine ih.operand (by omega) (fun _ _ => rfl) fun value world₁ kept => ?_
    refine .skip rfl rfl rfl (.pure ?_ ⟨0, _, rfl, kept.interrupt i value⟩)
    exact congrArg (World.mk · world₁.output) (Scopes.forgetInterrupts_interrupt ..).symm

theorem loop_tracks (condition : Expr) (body : Block) (created : i < world.scopes.size)
    (running : world.scopes.isInterrupted i = false) :
    Tracks ((fuel + 1 + 1) / 2) (loop (fuel + 1) condition body i) world.forgetInterrupts
      (proceedLoop condition body i stack world) stack (Completed world.scopes i stack) := by
  rw [loop, proceedLoop, if_neg (by simp [running])]
  refine ih.operand (by omega) (fun _ _ => rfl) fun value world₁ kept => ?_
  refine .skip rfl rfl rfl ?_
  rw [Machine.step, receive]
  split
  · exact .pure rfl ⟨0, world₁, rfl, kept⟩
  · refine ((ih.block body i (.loopBody condition body i :: stack) world₁).mono
      ((fuel + 1 + 1) / 2) (by omega)).bind (fun _ _ => .fail_frame rfl) ?_
    rintro completion m ⟨v, world₂, rfl, done⟩
    have created₁ := Nat.lt_of_lt_of_le created kept.size
    have running₁ := kept.isInterrupted created ▸ running
    have interrupt? := completion.interrupt?_of_mark created₁ (by
      simpa [Scopes.isInterrupted] using running₁) done
    cases completion with
    | normal =>
      have running₂ : world₂.scopes.isInterrupted i = false := by
        rw [Scopes.isInterrupted, interrupt?]
        rfl
      refine .pass ((fuel + 1) / 2) (by omega) rfl rfl rfl ?_
      refine (ih.loop condition body i stack world₂ (Nat.lt_of_lt_of_le created₁ done.size)
        running₂).imp fun _ _ done' => done'.of_kept (kept.trans done)
    | returned r =>
      have next : Machine.step ⟨.deliver v, .loopBody condition body i :: stack, world₂⟩ =
          ⟨.deliver 0, stack, world₂⟩ := by
        rw [Machine.step, receive, proceedLoop, Scopes.isInterrupted, interrupt?]
        rfl
      exact .skip rfl next rfl (.pure rfl ⟨0, world₂, rfl, (kept.interrupt i r).trans done⟩)

end Rules

/-! ## All evaluations -/

theorem simulates_zero : Simulates 0 where
  expression e i stack world := by
    rw [expression]
    exact .exhausted (by decide) (fun _ => rfl) fun _ => rfl
  arguments function name line done todo i stack world steps f right le _ := by
    rw [arguments]
    exact .exhausted (by omega) (fun _ => rfl) fun lt => absurd lt (by omega)
  apply function values stack world := by
    rw [apply]
    exact .exhausted (by decide) (fun _ => rfl) fun lt => absurd lt (by omega)
  block b i stack world := by
    rw [block]
    exact .exhausted (by decide) (fun _ => rfl) fun _ => rfl
  statements s rest outer stack world _ _ _ := by
    rw [statements]
    exact .exhausted (by decide) (fun _ => rfl) fun lt => absurd lt (by omega)
  statement t i stack world _ _ := by
    rw [statement]
    exact .exhausted (by decide) (fun _ => rfl) fun _ => rfl
  loop condition body i stack world _ _ := by
    rw [loop]
    exact .exhausted (by decide) (fun _ => rfl) fun lt => absurd lt (by omega)

theorem simulates (fuel : Nat) : Simulates fuel := by
  induction fuel with
  | zero => exact simulates_zero
  | succ fuel ih =>
    exact {
      expression := fun e _ _ _ => expression_tracks ih e
      arguments := fun _ _ _ _ todo _ _ _ _ _ _ le next => arguments_track ih todo le next
      apply := fun function values _ _ => apply_tracks ih function values
      block := fun b _ _ _ => block_tracks ih b
      statements := fun _ rest _ _ _ kept created running =>
        statements_track ih rest kept created running
      statement := fun t _ _ _ created running => statement_tracks ih t created running
      loop := fun condition body _ _ _ created running =>
        loop_tracks ih condition body created running }

/-! ## Programs and applications -/

/-- The machine does what an evaluation says that may be given any fuel. If the evaluation comes to
a value or a fault, then the machine comes to it in front of the stack, in the same world but for
interrupts and past the same visits; if it never does, then neither does the machine end. -/
structure Follows (m : Machine) (stack : List Frame)
    (x : (fuel : Nat) → Option (Except Fault Int32 × Chronicle)) : Prop where
  value : ∀ fuel value c, x fuel = some (.ok value, c) →
    ∃ n, c = .along m n [] ∧ ∃ world, m.after n = ⟨.deliver value, stack, world⟩
  fault : ∀ fuel fault c, x fuel = some (.error fault, c) →
    ∃ n, c = .along m n [] ∧ ∃ world, m.after n = ⟨.raise fault, stack, world⟩
  running : (∀ fuel, x fuel = none) → ∀ n, (m.after n).outcome? = none

theorem Follows.of_tracks {m : Machine} {stack : List Frame} {x : Nat → Evaluation Int32}
    {w : World}
    (h : ∀ fuel, Tracks (fuel / 2) (x fuel) w m stack fun value m' =>
      ∃ world, m' = ⟨.deliver value, stack, world⟩) :
    Follows m stack fun fuel => x fuel ⟨w, []⟩ := by
  refine ⟨fun fuel value c known => ?_, fun fuel fault c known => ?_, fun never n => ?_⟩
  · have h := h fuel []
    rw [known] at h
    exact h
  · have h := h fuel []
    rw [known] at h
    exact h
  · have h := h (2 * (n + 1)) []
    rw [never] at h
    exact h n (by omega)

/-- The machine ends exactly as the evaluation does with enough fuel, in the same world but for
interrupts and past the same visits. -/
theorem Follows.ends_iff {m : Machine} {x : Nat → Option (Except Fault Int32 × Chronicle)}
    (h : Follows m [] x) (outcome : Except Fault Int32) (c : Chronicle) :
    (∃ budget world, m.run budget = some (outcome, world) ∧
      c = ⟨world.forgetInterrupts, (m.sightings budget).map Sighting.place⟩) ↔
    ∃ fuel, x fuel = some (outcome, c) := by
  have reached (fuel : Nat) (outcome : Except Fault Int32) (c : Chronicle)
      (known : x fuel = some (outcome, c)) :
      ∃ n, c = .along m n [] ∧ (m.after n).outcome? = some outcome := by
    cases outcome with
    | ok value =>
      obtain ⟨n, along, world, there⟩ := h.value fuel value c known
      exact ⟨n, along, by rw [there]; rfl⟩
    | error fault =>
      obtain ⟨n, along, world, there⟩ := h.fault fuel fault c known
      exact ⟨n, along, by rw [there]; rfl⟩
  constructor
  · rintro ⟨budget, world, ran, rfl⟩
    obtain ⟨n, lt, ended, rfl⟩ := run_eq_some_iff.mp ran
    -- An evaluation that no fuel is enough for belongs to a machine that runs for ever.
    by_cases never : ∀ fuel, x fuel = none
    · rw [h.running never n] at ended
      cases ended
    · obtain ⟨fuel, known⟩ := Classical.not_forall.mp never
      obtain ⟨⟨outcome', c'⟩, known⟩ := Option.ne_none_iff_exists'.mp known
      obtain ⟨k, rfl, ended'⟩ := reached fuel outcome' c' known
      have same : m.after n = m.after k ∧
          m.sightings budget = m.sightings k := by
        rcases Nat.le_total n k with le | le
        · rw [after_eq_of_le ended le, sightings_eq_of_le ended le,
            sightings_eq_of_le ended (Nat.le_of_lt lt)]
          exact ⟨rfl, rfl⟩
        · rw [after_eq_of_le ended' le,
            sightings_eq_of_le ended' (Nat.le_trans le (Nat.le_of_lt lt))]
          exact ⟨rfl, rfl⟩
      rw [same.1, ended'] at ended
      cases ended
      rw [same.1, same.2]
      exact ⟨fuel, known⟩
  · rintro ⟨fuel, known⟩
    obtain ⟨n, rfl, ended⟩ := reached fuel outcome c known
    refine ⟨n + 1, (m.after n).world, run_eq_some_iff.mpr ⟨n, Nat.lt_succ_self n, ended, rfl⟩, ?_⟩
    rw [sightings_eq_of_le ended (Nat.le_succ n)]
    rfl

theorem apply_follows (function : Function) (arguments : List Int32) (stack : List Frame)
    (world : World) :
    Follows (Machine.apply function arguments stack world) stack fun fuel =>
      BigStep.apply fuel function arguments ⟨world.forgetInterrupts, []⟩ :=
  .of_tracks fun fuel =>
    (((simulates fuel).apply function arguments stack world).mono _ (by omega)).imp
      fun _ _ ⟨world', there, _⟩ => ⟨world', there⟩

/-- Nothing has returned when a program starts. -/
theorem forgetInterrupts_prelude :
    (World.prelude {}).2.forgetInterrupts = (World.prelude {}).2 := by
  have root : (Scopes.root {}).2.forgetInterrupts = (Scopes.root {}).2 := by
    simp [Scopes.forgetInterrupts, Scopes.root]
  simp [World.prelude, World.forgetInterrupts, Scopes.forgetInterrupts_modify, Scope.addFunction,
    root]

theorem run_follows (program : Program) :
    Follows (ofProgram program) [] (BigStep.run · program) := by
  let world := (World.prelude {}).2
  refine Follows.of_tracks (w := world)
    (x := fun fuel => block fuel program.block 0 >>= fun completion => pure completion.value)
    fun fuel => ?_
  refine .skip rfl rfl rfl ?_
  refine .of_eq ((((simulates fuel).block program.block 0 [.result 0] world).mono
    (fuel / 2) (by omega)).bind (fun _ _ => .fail_frame rfl) ?_) forgetInterrupts_prelude.symm
  rintro completion m ⟨value, world₁, rfl, done⟩
  have interrupt? := completion.interrupt?_of_mark (by decide) rfl done
  refine .skip rfl rfl rfl (.pure rfl ⟨world₁, ?_⟩)
  rw [Machine.step, receive, Scopes.result, interrupt?, completion.getD_returned?]

/-- Interrupts implement returns: a program runs as the semantics without interrupts has it, and so
does every application of a function. Nothing is visited in a scope that is interrupted, or inside
one; and each scope is interrupted at most once, by the steps that `interrupts?` tells of. -/
theorem interrupts_implement_returns (program : Program) :
    (∀ outcome c,
      (∃ budget world, (ofProgram program).run budget = some (outcome, world) ∧
        c = ⟨world.forgetInterrupts, ((ofProgram program).sightings budget).map Sighting.place⟩) ↔
      ∃ fuel, run fuel program = some (outcome, c)) ∧
    (∀ function arguments stack world,
      Follows (Machine.apply function arguments stack world) stack fun fuel =>
        BigStep.apply fuel function arguments ⟨world.forgetInterrupts, []⟩) ∧
    (∀ n node i, ((ofProgram program).after n).visit? = some (node, i) →
      ∀ j ∈ ((ofProgram program).after n).world.scopes.path i,
        ((ofProgram program).after n).world.scopes.isInterrupted j = false) ∧
    (∀ n j, ((ofProgram program).after n).interrupts? ≠ some j →
      (((ofProgram program).after (n + 1)).world.scopes.scope j).interrupt? =
        (((ofProgram program).after n).world.scopes.scope j).interrupt?) ∧
    ∀ n i, ((ofProgram program).interrupted n).count i ≤ 1 := by
  have coherent := coherent_ofProgram program
  refine ⟨(run_follows program).ends_iff, apply_follows, ?_, ?_, ?_⟩
  · exact fun n node i visit => (coherent.after n).uninterrupted_of_visit visit
  · intro n j other
    rw [after_succ_eq_step]
    exact step_interrupt? other
  · exact fun n i => Nat.le_trans (coherent.count_interrupted_le n i) (by split <;> omega)

/-- A body that returns from inside a loop. -/
def loopReturning : Program :=
  ⟨⟨[.loop (.literal 1 1) ⟨[.returns (.literal 7 1) 1], 1⟩ 1], 1⟩, 1⟩

theorem interrupts_implement_returns_of_loop :
    ((ofProgram loopReturning).after 6).visit? =
      some (.statement (.returns (.literal 7 1) 1), 2) ∧
    (∀ j ∈ ((ofProgram loopReturning).after 6).world.scopes.path 2,
      ((ofProgram loopReturning).after 6).world.scopes.isInterrupted j = false) ∧
    ((ofProgram loopReturning).after 8).interrupts? ≠ some 1 ∧
    (((ofProgram loopReturning).after 9).world.scopes.scope 1).interrupt? =
      (((ofProgram loopReturning).after 8).world.scopes.scope 1).interrupt? := by
  obtain ⟨-, -, running, kept, -⟩ := interrupts_implement_returns loopReturning
  have here : ((ofProgram loopReturning).after 6).visit? =
      some (.statement (.returns (.literal 7 1) 1), 2) := by
    rfl
  have other : ((ofProgram loopReturning).after 8).interrupts? ≠ some 1 := by
    decide
  exact ⟨here, running 6 _ 2 here, other, kept 8 1 other⟩

end BigStep

end FunLanguage
