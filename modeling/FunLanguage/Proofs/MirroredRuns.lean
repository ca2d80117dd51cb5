import FunLanguage.Proofs.Mirror
import FunLanguage.Proofs.Sessions

/-!
# Runs that see the same

Machines that are the same but for the numbers of their scopes run in step under breakpoints too:
the same conditions are tested, with the same outcomes, so the runs come to the same halts within
the same budget (`Monitored.Mirrors.run`). Sessions of such runs give the same answers to whatever
they are asked (`Session.Mirrors.answers`).
-/

namespace FunLanguage

/-- All scopes there are. -/
def everywhere (_ : ScopeId) : Prop :=
  True

/-- What is made of related results is related, if there are results. -/
theorem rel_map {α β γ δ : Type} {R : α → β → Prop} {S : γ → δ → Prop} {a : Option α}
    {b : Option β} {f : α → γ} {g : β → δ} (related : Option.Rel R a b)
    (each : ∀ x y, R x y → S (f x) (g y)) : Option.Rel S (a.map f) (b.map g) := by
  cases related with
  | none => exact .none
  | some related => exact .some (each _ _ related)

variable {ρ : Shift}

/-! ## Machines -/

namespace Machine

theorem within_everywhere (m : Machine) : m.Within everywhere everywhere := by
  obtain ⟨control, stack, world⟩ := m
  refine ⟨?_, fun frame _ => ?_, fun _ _ => trivial, fun _ _ => trivial, fun _ _ _ _ => trivial,
    fun _ _ _ _ _ => trivial⟩
  · cases control with
    | evaluate node i => cases node <;> exact True.intro
    | deliver value => exact True.intro
    | raise fault => exact True.intro
  · cases frame with
    | argument function => cases function <;> exact ⟨True.intro, True.intro⟩
    | sequence => exact ⟨True.intro, True.intro⟩
    | _ => exact True.intro

/-- How evaluations have ended that are the same but for the numbers of scopes. -/
def SameEnd (ρ : Shift) (r r' : Except Fault Int32 × World) : Prop :=
  r'.1 = r.1 ∧ r.2.Mirrors ρ everywhere everywhere r'.2

variable {m m' : Machine}

theorem Mirrors.run (same : Mirrors ρ everywhere everywhere m m') (budget : Nat) :
    Option.Rel (SameEnd ρ) (m.run budget) (m'.run budget) := by
  induction budget generalizing m m' with
  | zero => exact .none
  | succ budget ih =>
    rw [Machine.run, Machine.run, same.outcome?]
    cases m.outcome? with
    | some outcome => exact .some ⟨rfl, same.world⟩
    | none => exact ih (same.step m.within_everywhere)

theorem Mirrors.start {world world' : World} (same : world.Mirrors ρ everywhere everywhere world')
    (node : Node) (i : ScopeId) :
    Mirrors ρ everywhere everywhere (start node i world) (start node (ρ i) world') :=
  ⟨rfl, rfl, same⟩

end Machine

/-! ## Suspended runs -/

def Pause.shift (ρ : Shift) (p : Pause) : Pause :=
  ⟨p.node, ρ p.scope, p.stack.map (Frame.shift ρ)⟩

structure Suspension.Mirrors (ρ : Shift) (s s' : Suspension) : Prop where
  pause : s'.pause = s.pause.shift ρ
  world : s.world.Mirrors ρ everywhere everywhere s'.world

theorem Pause.machine_mirrors {world world' : World}
    (same : world.Mirrors ρ everywhere everywhere world') (p : Pause) :
    Machine.Mirrors ρ everywhere everywhere (p.machine world) ((p.shift ρ).machine world') :=
  ⟨rfl, rfl, same⟩

namespace Suspension.Mirrors

variable {s s' : Suspension}

theorem line (same : s.Mirrors ρ s') : s'.line = s.line := by
  rw [Suspension.line, same.pause]
  rfl

theorem kind (same : s.Mirrors ρ s') : s'.kind = s.kind := by
  rw [Suspension.kind, same.pause]
  rfl

theorem takeOutput (same : s.Mirrors ρ s') :
    s'.takeOutput.1 = s.takeOutput.1 ∧ s.takeOutput.2.Mirrors ρ s'.takeOutput.2 :=
  ⟨same.world.output, same.pause, rfl, same.world.scopes⟩

theorem evaluate (same : s.Mirrors ρ s') (budget : Nat) (e : Expr) :
    Option.Rel (fun r r' => r'.1 = r.1 ∧ r.2.Mirrors ρ r'.2) (s.evaluate budget e)
      (s'.evaluate budget e) := by
  have started : Machine.Mirrors ρ everywhere everywhere
      (.start (.expression e) s.pause.scope s.world)
      (.start (.expression e) s'.pause.scope s'.world) := by
    rw [same.pause]
    exact .start same.world _ _
  exact rel_map (started.run budget) fun r r' ended => ⟨ended.1, same.pause, ended.2⟩

end Suspension.Mirrors

/-! ## Monitored runs -/

namespace Monitored

/-- Both runs are about to do the same. -/
inductive Mirrors (ρ : Shift) : Monitored → Monitored → Prop
  | running {m m' : Machine} (same : Machine.Mirrors ρ everywhere everywhere m m') :
      Mirrors ρ (.running m) (.running m')
  | testing {condition condition' : Machine}
      (same : Machine.Mirrors ρ everywhere everywhere condition condition') (pause : Pause) :
      Mirrors ρ (.testing condition pause) (.testing condition' (pause.shift ρ))
  | suspended {s s' : Suspension} (same : s.Mirrors ρ s') : Mirrors ρ (.suspended s) (.suspended s')
  | finished {world world' : World} (outcome : Except Fault Int32)
      (same : world.Mirrors ρ everywhere everywhere world') :
      Mirrors ρ (.finished outcome world) (.finished outcome world')

namespace Mirrors

variable {table : Breakpoints} {r r' : Monitored}

theorem advance {m m' : Machine} (same : Machine.Mirrors ρ everywhere everywhere m m') :
    Mirrors ρ (advance table m) (advance table m') := by
  have next := same.step m.within_everywhere
  obtain ⟨control, stack, world⟩ := m
  obtain ⟨control', stack', world'⟩ := m'
  obtain ⟨rfl, rfl, worlds⟩ := same
  cases control with
  | evaluate node i =>
    simp only [Monitored.advance, Control.shift]
    split
    · next breakpoint _ =>
      exact .testing (.start worlds (.expression breakpoint.condition) i) ⟨node, i, stack⟩
    · exact .running next
  | deliver value =>
    cases stack with
    | nil => exact .finished (.ok value) worlds
    | cons frame stack => exact .running next
  | raise fault =>
    cases stack with
    | nil => exact .finished (.error fault) worlds
    | cons frame stack => exact .running next

theorem settle {world world' : World} (same : world.Mirrors ρ everywhere everywhere world')
    (pause : Pause) (outcome : Except Fault Int32) :
    Mirrors ρ (settle pause outcome world) (settle (pause.shift ρ) outcome world') := by
  cases outcome with
  | error fault => exact .running ⟨rfl, rfl, same⟩
  | ok value =>
    simp only [Monitored.settle]
    split
    · exact .running ((pause.machine_mirrors same).step (pause.machine world).within_everywhere)
    · exact .suspended ⟨rfl, same⟩

theorem step (same : r.Mirrors ρ r') : (r.step table).Mirrors ρ (r'.step table) := by
  cases same with
  | running same => exact advance same
  | @testing condition condition' same pause =>
    simp only [Monitored.step, same.outcome?]
    cases condition.outcome? with
    | some outcome => exact settle same.world pause outcome
    | none => exact .testing (same.step condition.within_everywhere) pause
  | suspended same => exact .suspended same
  | finished outcome same => exact .finished outcome same

/-- The runs come to the same halt, if they come to one within the budget. -/
theorem run (same : r.Mirrors ρ r') (budget : Nat) :
    Option.Rel (fun halt halt' => halt.monitored.Mirrors ρ halt'.monitored)
      (r.run table budget) (r'.run table budget) := by
  induction budget generalizing r r' with
  | zero => exact .none
  | succ budget ih =>
    cases same with
    | running same => exact ih (advance same)
    | testing same pause => exact ih (testing same pause).step
    | suspended same => exact .some (.suspended same)
    | finished outcome same => exact .some (.finished outcome same)

end Mirrors

end Monitored

theorem Suspension.Mirrors.resume {s s' : Suspension} (same : s.Mirrors ρ s') :
    s.resume.Mirrors ρ s'.resume := by
  obtain ⟨pause, world⟩ := s
  obtain ⟨pause', world'⟩ := s'
  obtain ⟨rfl, worlds⟩ := same
  exact .running ((pause.machine_mirrors worlds).step (pause.machine world).within_everywhere)

/-! ## Sessions -/

/-- Both sessions have come as far. -/
inductive Stage.Mirrors (ρ : Shift) : Stage → Stage → Prop
  | started {m m' : Machine} (same : Machine.Mirrors ρ everywhere everywhere m m') :
      Mirrors ρ (.started m) (.started m')
  | suspended {s s' : Suspension} (same : s.Mirrors ρ s') : Mirrors ρ (.suspended s) (.suspended s')
  | finished : Mirrors ρ .finished .finished
  | dropped : Mirrors ρ .dropped .dropped

theorem Stage.Mirrors.allows {stage stage' : Stage} (same : stage.Mirrors ρ stage')
    (request : Request) : stage'.allows request = stage.allows request := by
  cases same <;> cases request <;> rfl

namespace Session

/-- The sessions have come as far, under the same breakpoints. -/
structure Mirrors (ρ : Shift) (s s' : Session) : Prop where
  stage : s.stage.Mirrors ρ s'.stage
  breakpoints : s'.breakpoints = s.breakpoints

/-- Both give the same, if they give anything within the budget, and leave such sessions. -/
def SameReply {α : Type} (ρ : Shift) :
    Option (α × String × Session) → Option (α × String × Session) → Prop :=
  Option.Rel fun r r' => r'.1 = r.1 ∧ r'.2.1 = r.2.1 ∧ r.2.2.Mirrors ρ r'.2.2

namespace Mirrors

variable {s s' : Session}

theorem proceed (same : s.Mirrors ρ s') {r r' : Monitored} (runs : r.Mirrors ρ r')
    (budget : Nat) : SameReply ρ (s.proceed budget r) (s'.proceed budget r') := by
  rw [Session.proceed, Session.proceed, same.breakpoints]
  refine rel_map (runs.run budget) fun halt halt' halts => ?_
  cases halt with
  | suspended suspension =>
    cases halt' with
    | suspended suspension' =>
      cases halts with
      | suspended alike =>
        obtain ⟨written, taken⟩ := alike.takeOutput
        have standing : Standing.suspended suspension'.takeOutput.2.line
            suspension'.takeOutput.2.kind =
            .suspended suspension.takeOutput.2.line suspension.takeOutput.2.kind := by
          rw [taken.line, taken.kind]
        exact ⟨standing, written, .suspended taken, rfl⟩
    | finished => cases halts
  | finished outcome world =>
    cases halt' with
    | suspended => cases halts
    | finished outcome' world' =>
      cases halts with
      | finished _ alike => exact ⟨rfl, alike.output, .finished, rfl⟩

theorem proceed? (same : s.Mirrors ρ s') (budget : Nat) :
    SameReply ρ (s.proceed? budget) (s'.proceed? budget) := by
  obtain ⟨stage, table⟩ := s
  obtain ⟨stage', table'⟩ := s'
  cases same.stage with
  | started machines => exact same.proceed (.running machines) budget
  | suspended alike => exact same.proceed alike.resume budget
  | finished => exact .some ⟨rfl, rfl, same⟩
  | dropped => exact .some ⟨rfl, rfl, same⟩

theorem evaluate (same : s.Mirrors ρ s') (budget : Nat) (e : Expr) :
    SameReply ρ (s.evaluate budget e) (s'.evaluate budget e) := by
  obtain ⟨stage, table⟩ := s
  obtain ⟨stage', table'⟩ := s'
  cases same.stage with
  | started machines => exact .some ⟨rfl, rfl, same⟩
  | suspended alike =>
    refine rel_map (alike.evaluate budget e) fun r r' ended => ?_
    obtain ⟨written, taken⟩ := ended.2.takeOutput
    exact ⟨congrArg Answer.evaluated ended.1, written, .suspended taken, same.breakpoints⟩
  | finished => exact .some ⟨rfl, rfl, same⟩
  | dropped => exact .some ⟨rfl, rfl, same⟩

theorem drop (same : s.Mirrors ρ s') (budget : Nat) :
    SameReply ρ (s.drop budget) (s'.drop budget) := by
  obtain ⟨stage, table⟩ := s
  obtain ⟨stage', table'⟩ := s'
  cases same.stage with
  | started machines =>
    refine rel_map (same.proceed (.running machines) budget) fun r r' alike => ?_
    exact ⟨rfl, alike.2.1, .dropped, alike.2.2.breakpoints⟩
  | suspended => exact .some ⟨rfl, rfl, .dropped, same.breakpoints⟩
  | finished => exact .some ⟨rfl, rfl, .dropped, same.breakpoints⟩
  | dropped => exact .some ⟨rfl, rfl, .dropped, same.breakpoints⟩

theorem position? (same : s.Mirrors ρ s') : s'.position? = s.position? := by
  obtain ⟨stage, table⟩ := s
  obtain ⟨stage', table'⟩ := s'
  cases same.stage with
  | suspended alike => simp only [Session.position?, alike.line, alike.kind]
  | started => rfl
  | finished => rfl
  | dropped => rfl

theorem carryOut (same : s.Mirrors ρ s') (budget : Nat) (request : Request) :
    SameReply ρ (s.carryOut budget request) (s'.carryOut budget request) := by
  cases request with
  | wait =>
    exact rel_map (same.proceed? budget) fun r r' alike =>
      ⟨congrArg Answer.standing alike.1, alike.2⟩
  | resume =>
    exact rel_map (same.proceed? budget) fun r r' alike =>
      ⟨congrArg Answer.standing alike.1, alike.2⟩
  | evaluate source =>
    simp only [Session.carryOut]
    split
    · exact .some ⟨rfl, rfl, same⟩
    · exact same.evaluate budget _
  | insert line condition? =>
    simp only [Session.carryOut, same.breakpoints]
    split
    · exact .some ⟨rfl, rfl, same⟩
    · exact .some ⟨rfl, rfl, same.stage, rfl⟩
  | remove line =>
    simp only [Session.carryOut, same.breakpoints]
    exact .some ⟨rfl, rfl, same.stage, rfl⟩
  | position => exact .some ⟨congrArg Answer.position same.position?, rfl, same⟩
  | drop => exact same.drop budget

theorem answer (same : s.Mirrors ρ s') (budget : Nat) (request : Request) :
    SameReply ρ (s.answer budget request) (s'.answer budget request) := by
  rw [Session.answer, Session.answer, same.stage.allows]
  split
  · exact same.carryOut budget request
  · exact .some ⟨rfl, rfl, same⟩

end Mirrors

/-- The answers to requests made one after another, each with the text written on the way. -/
def answers (budget : Nat) : List Request → Session → Option (List (Answer × String))
  | [], _ => some []
  | q :: requests, s => do
    let (a, text, s) ← s.answer budget q
    let rest ← answers budget requests s
    some ((a, text) :: rest)

/-- Whatever they are asked, sessions that see the same give the same answers. -/
theorem Mirrors.answers {s s' : Session} (same : s.Mirrors ρ s') (budget : Nat)
    (requests : List Request) : s'.answers budget requests = s.answers budget requests := by
  induction requests generalizing s s' with
  | nil => rfl
  | cons q requests ih =>
    have alike := same.answer budget q
    rw [Session.answers, Session.answers]
    revert alike
    generalize s.answer budget q = reply
    generalize s'.answer budget q = reply'
    intro alike
    cases alike with
    | none => rfl
    | @some r r' alike =>
      obtain ⟨a, text, t⟩ := r
      obtain ⟨a', text', t'⟩ := r'
      obtain ⟨rfl, rfl, alike⟩ := alike
      simp only [Option.bind_eq_bind, Option.bind_some, ih alike]

end Session

end FunLanguage
