import FunLanguage.Proofs.MirroredRuns
import FunLanguage.Proofs.Output

/-!
# Evaluation at a suspension

What a session evaluates where it is suspended is evaluated there as it would be by itself, one
expression after another, without regard to breakpoints. The run stays suspended where it was, and
goes on in the scopes that the evaluations leave. Of those it sees the values that were assigned and
nothing else: new scopes are out of its sight, and all that there was has kept its bindings and its
interrupts (`Session.evaluates_in_place`).
-/

namespace FunLanguage

/-! ## Expressions one after another -/

namespace Machine

variable {i : ScopeId} {world world' : World}

theorem EndsEach.prepend {es : List Expr} {outcomes : List (Except Fault Int32)}
    (ends : EndsEach i world es outcomes world') (text : String) :
    EndsEach i (world.prepend text) es outcomes (world'.prepend text) := by
  induction ends with
  | nil world => exact .nil _
  | cons first _ ih => exact .cons (first.prepend text) ih

theorem EndsEach.of_prepend {es : List Expr} {outcomes : List (Except Fault Int32)} {text : String}
    (ends : EndsEach i (world.prepend text) es outcomes world') :
    ∃ world'', EndsEach i world es outcomes world'' := by
  induction es generalizing world outcomes with
  | nil =>
    cases ends with
    | nil => exact ⟨world, .nil world⟩
  | cons e es ih =>
    cases ends with
    | cons first rest =>
      obtain ⟨world₁, rfl, first'⟩ := Ends.of_prepend (m := start (.expression e) i world) first
      obtain ⟨world'', rest'⟩ := ih rest
      exact ⟨world'', .cons first' rest'⟩

end Machine

/-! ## Values that are assigned -/

namespace Scopes

/-- The scopes with the values that their variables have in others. -/
def withValuesOf (s s' : Scopes) : Scopes :=
  ⟨s.entries.mapIdx fun i t => { t with values := (s'.scope i).values }⟩

variable {s s' : Scopes} {ρ : Shift}

theorem size_withValuesOf (s s' : Scopes) : (s.withValuesOf s').size = s.size := by
  simp [withValuesOf, size]

theorem scope_withValuesOf {i : ScopeId} (created : i < s.size) :
    (s.withValuesOf s').scope i = { s.scope i with values := (s'.scope i).values } := by
  have inside : i < s.entries.size := created
  simp [withValuesOf, scope, Array.getD_eq_getD_getElem?, inside]

/-- A path of sound scopes holds no number that is moved. -/
theorem Sound.map_shift_ancestors (sound : s.Sound) {i : ScopeId} (old : i < ρ.first) :
    (s.scope i).ancestors.map ρ = (s.scope i).ancestors := by
  conv => rhs; rw [← List.map_id (s.scope i).ancestors]
  refine List.map_congr_left fun j hj => ?_
  exact Shift.apply_of_lt (Nat.lt_trans (sound.lt_of_mem_ancestors hj) old)

theorem Sound.shift_functionOf? (sound : s.Sound) {i : ScopeId} (old : i < ρ.first)
    (name : String) :
    ((s.scope i).functionOf? name).map (Function.shift ρ) = (s.scope i).functionOf? name := by
  cases bound : (s.scope i).functionOf? name with
  | none => rfl
  | some function =>
    cases function with
    | builtin b => rfl
    | closure c =>
      have captured : c.scope = i := sound.captures i name c (mem_of_functionOf? bound)
      rw [Option.map_some, Function.shift, Closure.shift, captured, Shift.apply_of_lt old,
        ← captured]

/-- Scopes that have kept all but their values are the same as those that have been given these
values, though others have been created since. -/
theorem Retains.mirrors (sound : s.Sound) (retains : s.Retains s') (same : s.SameInterrupts s') :
    (s.withValuesOf s').Mirrors ⟨s.size, s'.size - s.size⟩ everywhere everywhere s' := by
  have same_size := size_withValuesOf s s'
  refine .of_created ?_ (Nat.le_of_eq same_size.symm) (fun i created _ => ?_) fun i created _ => ?_
  · rw [same_size]
    exact (Nat.add_sub_of_le retains.size).symm
  · rw [same_size] at created
    have bindings := retains.bindings i created
    rw [Shift.apply_of_lt created, scope_withValuesOf created]
    refine ⟨?_, fun _ => rfl, fun name => ?_⟩
    · rw [bindings.ancestors, sound.map_shift_ancestors created]
    · show (s'.scope i).functionOf? name = ((s.scope i).functionOf? name).map _
      rw [sound.shift_functionOf? created, Scope.functionOf?, bindings.functions, Scope.functionOf?]
  · rw [same_size] at created
    rw [Shift.apply_of_lt created, scope_withValuesOf created, same.interrupt? i created]

end Scopes

/-- Frames go back to old scopes only. -/
theorem Awaits.map_shift {s : Scopes} {ρ : Shift} {part : Part} {i : ScopeId} {stack : List Frame}
    (h : Awaits s part i stack) (sound : s.Sound) (old : i < ρ.first) :
    stack.map (Frame.shift ρ) = stack := by
  induction h with
  | nothing => rfl
  | leftOperand _ ih => rw [List.map_cons, ih old, Frame.shift, Shift.apply_of_lt old]
  | rightOperand _ ih => rw [List.map_cons, ih old, Frame.shift]
  | @argument function name line done todo i stack found _ ih =>
    have known : function.shift ρ = function := by
      cases function with
      | builtin b => rfl
      | closure c =>
        have visible := sound.le_of_mem_path (found c rfl)
        rw [Function.shift, Closure.shift, Shift.apply_of_lt (Nat.lt_of_le_of_lt visible old)]
    rw [List.map_cons, ih old, Frame.shift, Shift.apply_of_lt old, known]
  | declaration _ ih => rw [List.map_cons, ih old, Frame.shift, Shift.apply_of_lt old]
  | assignment _ ih => rw [List.map_cons, ih old, Frame.shift, Shift.apply_of_lt old]
  | returns _ ih => rw [List.map_cons, ih old, Frame.shift, Shift.apply_of_lt old]
  | branch _ ih => rw [List.map_cons, ih old, Frame.shift, Shift.apply_of_lt old]
  | loopTest _ ih => rw [List.map_cons, ih old, Frame.shift, Shift.apply_of_lt old]
  | loopBody _ ih => rw [List.map_cons, ih old, Frame.shift, Shift.apply_of_lt old]
  | sequence _ younger _ _ _ ih =>
    have older := Nat.lt_trans younger old
    rw [List.map_cons, ih older, Frame.shift, Shift.apply_of_lt old, Shift.apply_of_lt older]
  | result younger _ _ _ ih =>
    rw [List.map_cons, ih (Nat.lt_trans younger old), Frame.shift, Shift.apply_of_lt old]
  | outcome => rw [List.map_cons, List.map_nil, Frame.shift, Shift.apply_of_lt old]
  | call _ ih => rw [List.map_cons, ih old, Frame.shift]

/-- A suspended run sees of later scopes no more than the values that were assigned. -/
theorem Suspension.mirrors_withValuesOf {pause : Pause} {world world' : World}
    (coherent : (pause.machine world).Coherent) (retains : world.scopes.Retains world'.scopes)
    (same : world.scopes.SameInterrupts world'.scopes) (text : String) :
    Suspension.Mirrors ⟨world.scopes.size, world'.scopes.size - world.scopes.size⟩
      ⟨pause, ⟨world.scopes.withValuesOf world'.scopes, text⟩⟩ ⟨pause, ⟨world'.scopes, text⟩⟩ := by
  obtain ⟨node, i, stack⟩ := pause
  cases coherent with
  | evaluate sound created running below =>
    refine ⟨?_, rfl, retains.mirrors sound same⟩
    rw [Pause.shift, Shift.apply_of_lt created, below.map_shift sound created]

/-! ## Sessions -/

namespace Session

/-- Evaluates expressions one after another where the session is suspended. Gives the answers, each
with the text written for it, and the session after them. -/
def evaluateEach (budget : Nat) : List Expr → Session → Option (List (Answer × String) × Session)
  | [], s => some ([], s)
  | e :: es, s => do
    let (a, text, s) ← s.evaluate budget e
    let (rest, s) ← evaluateEach budget es s
    some ((a, text) :: rest, s)

section Evaluate

variable {pause : Pause} {world : World} {table : Breakpoints} {budget : Nat}

theorem evaluate_eq_some_iff {e : Expr} {a : Answer} {text : String} {s' : Session} :
    Session.evaluate ⟨.suspended ⟨pause, world⟩, table⟩ budget e = some (a, text, s') ↔
      ∃ outcome world', (Machine.start (.expression e) pause.scope world).run budget =
          some (outcome, world') ∧
        a = .evaluated outcome ∧ text = world'.output ∧
        s' = ⟨.suspended ⟨pause, world'.withoutOutput⟩, table⟩ := by
  simp only [Session.evaluate, Suspension.evaluate, Option.map_map, Option.map_eq_some_iff,
    Prod.exists]
  refine exists_congr fun outcome => exists_congr fun world' => and_congr_right fun _ => ?_
  rw [Function.comp_apply]
  constructor
  · rintro ⟨⟩
    exact ⟨rfl, rfl, rfl⟩
  · rintro ⟨rfl, rfl, rfl⟩
    rfl

/-- The answers are those of plain evaluation, and the run is suspended as before in the world left
by it. -/
theorem endsEach_of_evaluateEach {es : List Expr} {answers : List (Answer × String)} {s' : Session}
    (taken : world.output = "")
    (evaluated : evaluateEach budget es ⟨.suspended ⟨pause, world⟩, table⟩ = some (answers, s')) :
    ∃ outcomes world', Machine.EndsEach pause.scope world es outcomes world' ∧
      answers.map Prod.fst = outcomes.map .evaluated ∧
      String.join (answers.map Prod.snd) = world'.output ∧
      s' = ⟨.suspended ⟨pause, world'.withoutOutput⟩, table⟩ := by
  induction es generalizing world answers s' with
  | nil =>
    cases evaluated
    refine ⟨[], world, .nil world, rfl, taken.symm, ?_⟩
    rw [World.withoutOutput, ← taken]
  | cons e es ih =>
    simp only [evaluateEach, Option.bind_eq_bind, Option.bind_eq_some_iff, Prod.exists] at evaluated
    obtain ⟨a, text, s₁, first, rest, s₂, others, told⟩ := evaluated
    obtain ⟨outcome, world₁, ran, rfl, rfl, rfl⟩ := evaluate_eq_some_iff.mp first
    obtain ⟨outcomes, world₂, ends, same, written, rfl⟩ := ih rfl others
    cases told
    -- The session has handed out the text so far, plain evaluation writes behind it.
    have behind := ends.prepend world₁.output
    rw [World.prepend_withoutOutput] at behind
    refine ⟨outcome :: outcomes, world₂.prepend world₁.output, .cons ⟨budget, ran⟩ behind, ?_, ?_,
      rfl⟩
    · rw [List.map_cons, List.map_cons, same]
    · rw [List.map_cons, String.join_cons, written]
      rfl

/-- What ends by itself is answered. -/
theorem evaluateEach_of_endsEach {es : List Expr} {outcomes : List (Except Fault Int32)}
    {world' : World} (ends : Machine.EndsEach pause.scope world es outcomes world') :
    ∃ enough, ∀ budget ≥ enough,
      (evaluateEach budget es ⟨.suspended ⟨pause, world⟩, table⟩).isSome := by
  induction es generalizing world outcomes world' with
  | nil => exact ⟨0, fun _ _ => rfl⟩
  | cons e es ih =>
    cases ends with
    | @cons _ world₁ _ _ _ outcome outcomes first rest =>
      rw [← world₁.prepend_withoutOutput] at rest
      obtain ⟨world'', rest⟩ := rest.of_prepend
      obtain ⟨budget₁, ran⟩ := first
      obtain ⟨enough, others⟩ := ih rest
      refine ⟨budget₁ + enough, fun budget le => ?_⟩
      have answered : Session.evaluate ⟨.suspended ⟨pause, world⟩, table⟩ budget e =
          some (.evaluated outcome, world₁.output,
            ⟨.suspended ⟨pause, world₁.withoutOutput⟩, table⟩) :=
        evaluate_eq_some_iff.mpr ⟨outcome, world₁, Machine.run_mono ran (by omega), rfl, rfl, rfl⟩
      have later := others budget (by omega)
      obtain ⟨⟨answers, s'⟩, later⟩ := Option.isSome_iff_exists.mp later
      simp only [evaluateEach, answered, Option.bind_eq_bind, Option.bind_some, later,
        Option.isSome_some]

end Evaluate

/-- Evaluation at a suspension is plain evaluation in place. Expressions evaluated there one after
another are answered if plain evaluation of them ends, and then by what it comes to and writes,
whatever breakpoints there are. Whether they fail or not, the run is suspended as before, and goes
on in the scopes that they left. Of those it sees nothing but values: whatever is asked of the
session from then on, its answers are those of a session in which these values were assigned to the
variables that there were, and nothing else had happened. -/
theorem evaluates_in_place {program : Program} {pause : Pause} {world : World}
    {table : Breakpoints} (reached : Reached program ⟨.suspended ⟨pause, world⟩, table⟩)
    (es : List Expr) :
    (∀ outcomes world', Machine.EndsEach pause.scope world es outcomes world' →
      ∃ enough, ∀ budget ≥ enough,
        (evaluateEach budget es ⟨.suspended ⟨pause, world⟩, table⟩).isSome) ∧
    ∀ budget answers s',
      evaluateEach budget es ⟨.suspended ⟨pause, world⟩, table⟩ = some (answers, s') →
      ∃ outcomes world', Machine.EndsEach pause.scope world es outcomes world' ∧
        answers.map Prod.fst = outcomes.map .evaluated ∧
        String.join (answers.map Prod.snd) = world'.output ∧
        s' = ⟨.suspended ⟨pause, world'.withoutOutput⟩, table⟩ ∧
        Pending .resume s' (.running (pause.machine world'.withoutOutput).step) ∧
        ∀ budget requests, s'.answers budget requests =
          Session.answers budget requests
            ⟨.suspended ⟨pause, ⟨world.scopes.withValuesOf world'.scopes, ""⟩⟩, table⟩ := by
  obtain ⟨coherent, taken⟩ := reached.coherent
  refine ⟨fun outcomes world' => evaluateEach_of_endsEach, fun budget answers s' evaluated => ?_⟩
  obtain ⟨outcomes, world', ends, same, written, rfl⟩ := endsEach_of_evaluateEach taken evaluated
  obtain ⟨retains, interrupts⟩ := ends.retains
  have alike : Session.Mirrors ⟨world.scopes.size, world'.scopes.size - world.scopes.size⟩
      ⟨.suspended ⟨pause, ⟨world.scopes.withValuesOf world'.scopes, ""⟩⟩, table⟩
      ⟨.suspended ⟨pause, world'.withoutOutput⟩, table⟩ :=
    ⟨.suspended (Suspension.mirrors_withValuesOf coherent retains interrupts ""), rfl⟩
  exact ⟨outcomes, world', ends, same, written, rfl, .resume, alike.answers⟩

/-- Defines a function that doubles a variable, and prints the variable on the second line. -/
def doubling : Program :=
  ⟨⟨[.declaration "x" (some (.literal 1 1)) 1,
    .definition "double" []
      ⟨[.assignment "x" (.binary .add (.identifier "x" 1) (.identifier "x" 1) 1) 1,
        .expression (.call "println" [.identifier "x" 1] 1),
        .returns (.identifier "x" 1) 1], 1⟩ 1,
    .expression (.call "println" [.identifier "x" 2] 2)], 1⟩, 1⟩

/-- In front of the second line the variable is doubled, and one that is unknown asked for. The run
then prints the doubled value. -/
theorem evaluates_in_place_of_doubling :
    let table := Breakpoints.empty.insert 2 .unconditional
    let es := [Expr.call "double" [] 2, .identifier "y" 2]
    ∃ pause world, Reached doubling ⟨.suspended ⟨pause, world⟩, table⟩ ∧
      ∃ answers s', evaluateEach 50 es ⟨.suspended ⟨pause, world⟩, table⟩ = some (answers, s') ∧
        answers.map Prod.snd = ["2\n", ""] ∧
        (s'.answers 50 [.remove 2, .resume]).map (·.map Prod.snd) = some ["", "2\n"] ∧
        ∃ outcomes world', Machine.EndsEach pause.scope world es outcomes world' ∧
          String.join (answers.map Prod.snd) = world'.output := by
  intro table es
  let pause : Pause := ⟨.expression (.call "println" [.identifier "x" 2] 2), 1,
    [.sequence [] 1 0, .result 0]⟩
  let world := ((Machine.ofProgram doubling).after 9).world
  have reached : Reached doubling ⟨.suspended ⟨pause, world⟩, table⟩ := by
    have halts : (Session.start doubling table).answer 100 .wait = some
        (.standing (.suspended 2 .call), "", ⟨.suspended ⟨pause, world⟩, table⟩) := by
      rfl
    exact .answer (.start table) halts
  have texts : (evaluateEach 50 es ⟨.suspended ⟨pause, world⟩, table⟩).map
      (fun r => r.1.map Prod.snd) = some ["2\n", ""] := by
    decide +kernel
  have resumed : ((evaluateEach 50 es ⟨.suspended ⟨pause, world⟩, table⟩).bind
      fun r => r.2.answers 50 [.remove 2, .resume]).map (·.map Prod.snd) = some ["", "2\n"] := by
    decide +kernel
  obtain ⟨⟨answers, s'⟩, answered, told⟩ := Option.map_eq_some_iff.mp texts
  rw [answered, Option.bind_some] at resumed
  obtain ⟨outcomes, world', ends, -, written, -⟩ :=
    (evaluates_in_place reached es).2 50 answers s' answered
  exact ⟨pause, world, reached, answers, s', answered, told, resumed, outcomes, world', ends,
    written⟩

end Session

end FunLanguage
