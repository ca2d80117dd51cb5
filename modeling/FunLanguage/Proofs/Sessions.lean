import FunLanguage.Proofs.Bindings
import FunLanguage.Proofs.Driving

/-!
# Sessions that a program can come to

A session starts out with a program and a table of breakpoints, and answers requests
(`Session.Reached`). On the way it runs the program, tests conditions and evaluates expressions
where it is suspended. All these keep the run coherent: an expression that has been evaluated in
front of a visit leaves the scopes with their bindings and their interrupts, so what waited for the
visit still waits for it (`Machine.Coherent.evaluated`).

Hence whatever scopes a session has at any moment (`Session.Heap`), they are sound.
-/

namespace FunLanguage

/-! ## Evaluations in front of a visit -/

theorem Awaits.retain {s s' : Scopes} {part : Part} {i : ScopeId} {stack : List Frame}
    (h : Awaits s part i stack) (sound : s.Sound) (created : i < s.size)
    (retains : s.Retains s') (same : s.SameInterrupts s') : Awaits s' part i stack := by
  refine h.mono sound (fun j le => retains.path (Nat.lt_of_le_of_lt le created))
    fun j lt running => ?_
  rw [same.isInterrupted (Nat.lt_trans lt created)]
  exact running

namespace Machine

variable {world world' : World}

/-- What has been written does not matter. -/
theorem Coherent.of_scopes {p : Pause} (h : (p.machine world).Coherent)
    (same : world'.scopes = world.scopes) : (p.machine world').Coherent := by
  cases h with
  | evaluate sound created running below =>
    rw [← same] at sound created running below
    exact .evaluate sound created running below

/-- In the scope of a visit an expression can be evaluated by itself. -/
theorem Coherent.expression {p : Pause} (h : (p.machine world).Coherent) (e : Expr) :
    (start (.expression e) p.scope world).Coherent := by
  cases h with
  | evaluate sound created running below =>
    exact .evaluate sound created running (.nothing below.uninterrupted)

/-- However far the expression has come, the run could go on with the visit, or with a fault. -/
theorem Coherent.evaluated {p : Pause} (h : (p.machine world).Coherent) (e : Expr) (n : Nat) :
    (p.machine ((start (.expression e) p.scope world).after n).world).Coherent ∧
      ∀ fault, Coherent ⟨.raise fault, p.stack,
        ((start (.expression e) p.scope world).after n).world⟩ := by
  have sound' := ((h.expression e).after n).sound
  obtain ⟨retains, same⟩ := (respects_expression e p.scope world n).confined.retains
  cases h with
  | evaluate sound created running below =>
    have created' : p.scope < _ := Nat.lt_of_lt_of_le created retains.size
    have below' := below.retain sound created retains same
    have running' := (same.isInterrupted created).trans running
    exact ⟨.evaluate sound' created' running' below', fun fault => .raise _ sound' created' below'⟩

end Machine

/-! ## Monitored runs -/

/-- The run that has come to the halt. -/
def Halt.monitored : Halt → Monitored
  | suspended s => .suspended s
  | finished outcome world => .finished outcome world

namespace Monitored

def world : Monitored → World
  | running m => m.world
  | testing condition _ => condition.world
  | suspended s => s.world
  | finished _ world => world

/-- The run after a number of steps. -/
def after (table : Breakpoints) : (count : Nat) → Monitored → Monitored
  | 0, r => r
  | count + 1, r => after table count (r.step table)

theorem after_add {table : Breakpoints} (a b : Nat) {r : Monitored} :
    r.after table (a + b) = (r.after table a).after table b := by
  induction a generalizing r with
  | zero => rw [Nat.zero_add, after]
  | succ a ih =>
    rw [Nat.succ_add]
    exact ih

theorem after_succ_eq_step {table : Breakpoints} (n : Nat) {r : Monitored} :
    r.after table (n + 1) = (r.after table n).step table :=
  after_add n 1

/-- A run that has come to a halt stays there. -/
theorem after_monitored {table : Breakpoints} (n : Nat) {halt : Halt} :
    halt.monitored.after table n = halt.monitored := by
  induction n with
  | zero => rfl
  | succ n ih => cases halt <;> exact ih

/-- A machine that is about to make a visit with a breakpoint on its line is put to the test; any
other goes on, or has ended. -/
theorem advance_cases (table : Breakpoints) (m : Machine) :
    (∃ pause world breakpoint, m = Pause.machine pause world ∧ pause.node.isVisited = true ∧
      table.get? pause.node.line = some breakpoint ∧
      advance table m =
        .testing (.start (.expression breakpoint.condition) pause.scope world) pause) ∨
    advance table m = .running m.step ∨
    ∃ outcome, m.outcome? = some outcome ∧ advance table m = .finished outcome m.world := by
  obtain ⟨control, stack, world⟩ := m
  cases control with
  | evaluate node i =>
    cases visited : node.isVisited with
    | false => simp [advance, visited]
    | true =>
      cases found : table.get? node.line with
      | none => simp [advance, visited, found]
      | some breakpoint =>
        exact .inl ⟨⟨node, i, stack⟩, world, breakpoint, rfl, visited, found,
          by simp [advance, visited, found]⟩
  | deliver value => cases stack <;> simp [advance, Machine.outcome?]
  | raise fault => cases stack <;> simp [advance, Machine.outcome?]

theorem exists_after_of_run {table : Breakpoints} {budget : Nat} {r : Monitored} {halt : Halt}
    (ran : r.run table budget = some halt) : ∃ n, r.after table n = halt.monitored := by
  induction budget generalizing r with
  | zero => cases ran
  | succ budget ih =>
    cases r with
    | running m =>
      obtain ⟨n, there⟩ := ih (r := .step table (.running m)) ran
      exact ⟨n + 1, there⟩
    | testing condition pause =>
      obtain ⟨n, there⟩ := ih (r := .step table (.testing condition pause)) ran
      exact ⟨n + 1, there⟩
    | suspended s =>
      cases ran
      exact ⟨0, rfl⟩
    | finished outcome world =>
      cases ran
      exact ⟨0, rfl⟩

theorem run_of_after {table : Breakpoints} {n : Nat} {r : Monitored} {halt : Halt}
    (there : r.after table n = halt.monitored) : ∃ budget, r.run table budget = some halt := by
  induction n generalizing r with
  | zero =>
    obtain rfl : r = halt.monitored := there
    cases halt <;> exact ⟨1, rfl⟩
  | succ n ih =>
    obtain ⟨budget, ran⟩ := ih there
    cases r with
    | running m => exact ⟨budget + 1, ran⟩
    | testing condition pause => exact ⟨budget + 1, ran⟩
    | suspended s => exact ⟨budget, ran⟩
    | finished outcome world => exact ⟨budget, ran⟩

/-- The run of a program can come to this under breakpoints. -/
inductive Coherent : Monitored → Prop
  | running {m : Machine} (coherent : m.Coherent) : Coherent (.running m)
  | testing {pause : Pause} {world : World} (coherent : (pause.machine world).Coherent) (e : Expr)
      (n : Nat) :
      Coherent (.testing ((Machine.start (.expression e) pause.scope world).after n) pause)
  | suspended {s : Suspension} (coherent : (s.pause.machine s.world).Coherent) :
      Coherent (.suspended s)
  | finished {outcome : Except Fault Int32} {world : World} (sound : world.scopes.Sound) :
      Coherent (.finished outcome world)

namespace Coherent

variable {r : Monitored} {table : Breakpoints}

theorem sound (h : r.Coherent) : r.world.scopes.Sound := by
  cases h with
  | running coherent => exact coherent.sound
  | testing coherent e n => exact ((coherent.expression e).after n).sound
  | suspended coherent => exact coherent.sound
  | finished sound => exact sound

theorem settle {pause : Pause} {world : World} (coherent : (pause.machine world).Coherent)
    (failed : ∀ fault, Machine.Coherent ⟨.raise fault, pause.stack, world⟩)
    (outcome : Except Fault Int32) : (settle pause outcome world).Coherent := by
  cases outcome with
  | error fault => exact .running (failed fault)
  | ok value =>
    rw [Monitored.settle]
    split
    · exact .running coherent.step
    · exact .suspended coherent

theorem step (h : r.Coherent) : (r.step table).Coherent := by
  cases h with
  | @running m coherent =>
    rw [Monitored.step]
    obtain ⟨pause, world, breakpoint, rfl, -, -, next⟩ | next | ⟨outcome, -, next⟩ :=
      advance_cases table m
    · rw [next]
      exact .testing coherent breakpoint.condition 0
    · rw [next]
      exact .running coherent.step
    · rw [next]
      exact .finished coherent.sound
  | @testing pause world coherent e n =>
    rw [Monitored.step]
    split
    · obtain ⟨visit, failed⟩ := coherent.evaluated e n
      exact settle visit failed _
    · rw [← Machine.after_succ_eq_step]
      exact .testing coherent e (n + 1)
  | suspended coherent => exact .suspended coherent
  | finished sound => exact .finished sound

theorem after (h : r.Coherent) (n : Nat) : (r.after table n).Coherent := by
  induction n generalizing r with
  | zero => exact h
  | succ n ih => exact ih h.step

theorem run {budget : Nat} {halt : Halt} (h : r.Coherent)
    (ran : r.run table budget = some halt) : halt.monitored.Coherent := by
  obtain ⟨n, there⟩ := exists_after_of_run ran
  exact there ▸ h.after n

end Coherent

end Monitored

/-! ## Sessions -/

/-- A program under breakpoints can come to this stage. What was written has been handed out. -/
def Stage.Coherent : Stage → Prop
  | started m => m.Coherent
  | suspended s => (s.pause.machine s.world).Coherent ∧ s.world.output = ""
  | finished => True
  | dropped => True

namespace Session

/-- What a request can make of the stage of a session. -/
inductive Turn (s : Session) : Stage → Prop
  | same : Turn s s.stage
  | suspended {request : Request} {r : Monitored} {budget : Nat} {suspension : Suspension}
      (pending : Pending request s r)
      (ran : r.run s.breakpoints budget = some (.suspended suspension)) :
      Turn s (.suspended suspension.takeOutput.2)
  | evaluated {suspension suspension' : Suspension} {budget : Nat} {e : Expr}
      {outcome : Except Fault Int32} (here : s.stage = .suspended suspension)
      (ran : suspension.evaluate budget e = some (outcome, suspension')) :
      Turn s (.suspended suspension'.takeOutput.2)
  | finished : Turn s .finished
  | dropped : Turn s .dropped

variable {s s' : Session} {budget : Nat} {request : Request}

theorem turn_of_proceed {r : Monitored} {standing : Standing} {text : String}
    (pending : Pending request s r) (proceeds : s.proceed budget r = some (standing, text, s')) :
    Turn s s'.stage := by
  obtain ⟨halt, ran, settled⟩ := Option.map_eq_some_iff.mp proceeds
  cases halt with
  | suspended suspension =>
    cases settled
    exact .suspended pending ran
  | finished outcome world =>
    cases settled
    exact .finished

theorem turn_of_answer {answer : Answer} {text : String}
    (answered : s.answer budget request = some (answer, text, s')) : Turn s s'.stage := by
  have goes_on {standing : Standing} (proceeds : s.proceed? budget = some (standing, text, s')) :
      Turn s s'.stage := by
    obtain ⟨stage, table⟩ := s
    cases stage with
    | started m => exact turn_of_proceed .wait proceeds
    | suspended suspension => exact turn_of_proceed .resume proceeds
    | finished =>
      cases proceeds
      exact .same
    | dropped =>
      cases proceeds
      exact .same
  rw [Session.answer] at answered
  split at answered
  · cases request with
    | wait =>
      obtain ⟨⟨standing, rest⟩, proceeds, told⟩ := Option.map_eq_some_iff.mp answered
      cases told
      exact goes_on proceeds
    | resume =>
      obtain ⟨⟨standing, rest⟩, proceeds, told⟩ := Option.map_eq_some_iff.mp answered
      cases told
      exact goes_on proceeds
    | evaluate source =>
      rw [carryOut] at answered
      split at answered
      · cases answered
        exact .same
      · next e _ =>
        rw [Session.evaluate] at answered
        split at answered
        · next suspension here =>
          obtain ⟨⟨outcome, suspension'⟩, ran, told⟩ := Option.map_eq_some_iff.mp answered
          cases told
          exact .evaluated here ran
        · cases answered
          exact .same
    | insert line condition? =>
      rw [carryOut] at answered
      split at answered
      · cases answered
        exact .same
      · cases answered
        exact .same
    | remove line =>
      cases answered
      exact .same
    | position =>
      cases answered
      exact .same
    | drop =>
      rw [carryOut, drop] at answered
      split at answered
      · obtain ⟨⟨standing, output, s''⟩, -, told⟩ := Option.map_eq_some_iff.mp answered
        cases told
        exact .dropped
      · cases answered
        exact .dropped
  · cases answered
    exact .same

theorem Pending.coherent {r : Monitored} (pending : Pending request s r) (h : s.stage.Coherent) :
    r.Coherent := by
  cases pending with
  | wait => exact .running h
  | resume => exact .running h.1.step

theorem Turn.coherent {stage : Stage} (turn : Turn s stage) (h : s.stage.Coherent) :
    stage.Coherent := by
  cases turn with
  | same => exact h
  | suspended pending ran =>
    cases (pending.coherent h).run ran with
    | suspended coherent => exact ⟨coherent.of_scopes rfl, rfl⟩
  | @evaluated suspension suspension' budget e outcome here ran =>
    rw [here] at h
    obtain ⟨⟨outcome', world⟩, ran, left⟩ := Option.map_eq_some_iff.mp ran
    obtain ⟨n, -, -, rfl⟩ := Machine.run_eq_some_iff.mp ran
    cases left
    exact ⟨(h.1.evaluated e n).1.of_scopes rfl, rfl⟩
  | finished => trivial
  | dropped => trivial

/-- A session of the program can come to this by answering requests. -/
inductive Reached (program : Program) : Session → Prop
  | start (table : Breakpoints) : Reached program (start program table)
  | answer {s s' : Session} {budget : Nat} {request : Request} {answer : Answer} {text : String}
      (before : Reached program s)
      (answered : s.answer budget request = some (answer, text, s')) : Reached program s'

theorem Reached.coherent {program : Program} (h : Reached program s) : s.stage.Coherent := by
  induction h with
  | start table => exact Machine.coherent_ofProgram program
  | answer _ answered ih => exact (turn_of_answer answered).coherent ih

/-- A session of the program has these scopes at some moment: while it runs or tests a condition, or
while it evaluates an expression where it is suspended. -/
inductive Heap (program : Program) : Scopes → Prop
  | running {s : Session} {request : Request} {r : Monitored} (reached : Reached program s)
      (pending : Pending request s r) (n : Nat) :
      Heap program (r.after s.breakpoints n).world.scopes
  | evaluating {suspension : Suspension} {table : Breakpoints}
      (reached : Reached program ⟨.suspended suspension, table⟩) (e : Expr) (n : Nat) :
      Heap program ((Machine.start (.expression e) suspension.pause.scope suspension.world).after
        n).world.scopes

theorem Heap.sound {program : Program} {scopes : Scopes} (h : Heap program scopes) :
    scopes.Sound := by
  cases h with
  | running reached pending n => exact ((pending.coherent reached.coherent).after n).sound
  | evaluating reached e n => exact ((reached.coherent.1.expression e).after n).sound

end Session

end FunLanguage
