import FunLanguage.Proofs.Evaluating
import FunLanguage.Proofs.Threads

/-!
# Control is handed over

However the steps of the two threads fall, they follow one session (`Threads.Follows`). Between two
requests the worker waits in front of a node or has ended, and what it has is what the session has;
only that the session has handed out the text that the worker keeps. While a request is carried out
the worker is on its way to the session's answer to it. A step takes the threads further on this
way or to the answer (`Threads.Follows.step`).

The worker and the session see the same run, since nothing that a run does depends on what has been
written before (`Monitored.step_prepend`).
-/

namespace FunLanguage

/-! ## What has been written before -/

namespace Monitored

variable {table : Breakpoints}

/-- The run with some text in front of what has been written. -/
def prepend (text : String) : Monitored → Monitored
  | running m => .running (m.prepend text)
  | testing condition pause => .testing (condition.prepend text) pause
  | suspended s => .suspended ⟨s.pause, s.world.prepend text⟩
  | finished outcome world => .finished outcome (world.prepend text)

theorem advance_prepend (text : String) (m : Machine) :
    advance table (m.prepend text) = (advance table m).prepend text := by
  obtain ⟨control, stack, world⟩ := m
  cases control with
  | evaluate node i =>
    have next := Machine.step_prepend text ⟨.evaluate node i, stack, world⟩
    simp only [advance, Machine.prepend] at next ⊢
    split
    · rfl
    · rw [next]
      rfl
  | deliver value =>
    cases stack with
    | nil => rfl
    | cons frame stack => exact congrArg Monitored.running (Machine.step_prepend text _)
  | raise fault =>
    cases stack with
    | nil => rfl
    | cons frame stack => exact congrArg Monitored.running (Machine.step_prepend text _)

theorem settle_prepend (text : String) (pause : Pause) (outcome : Except Fault Int32)
    (world : World) :
    settle pause outcome (world.prepend text) = (settle pause outcome world).prepend text := by
  cases outcome with
  | error fault => rfl
  | ok value =>
    rw [settle, settle]
    split
    · exact congrArg Monitored.running (Machine.step_prepend text (pause.machine world))
    · rfl

theorem step_prepend (text : String) (r : Monitored) :
    (r.prepend text).step table = (r.step table).prepend text := by
  cases r with
  | running m => exact advance_prepend text m
  | testing condition pause =>
    simp only [prepend, step, Machine.outcome?_prepend, Machine.step_prepend]
    split
    · exact settle_prepend text pause _ condition.world
    · rfl
  | suspended s => rfl
  | finished outcome world => rfl

theorem prepend_eq_finished {text : String} {r : Monitored} {outcome : Except Fault Int32}
    {world : World} (same : r.prepend text = .finished outcome world) :
    ∃ world', r = .finished outcome world' ∧ world = world'.prepend text := by
  cases r with
  | finished outcome' world' =>
    cases same
    exact ⟨world', rfl, rfl⟩
  | running m => cases same
  | testing condition pause => cases same
  | suspended s => cases same

theorem prepend_eq_suspended {text : String} {r : Monitored} {s : Suspension}
    (same : r.prepend text = .suspended s) :
    ∃ world, r = .suspended ⟨s.pause, world⟩ ∧ s.world = world.prepend text := by
  cases r with
  | suspended s' =>
    cases same
    exact ⟨s'.world, rfl, rfl⟩
  | running m => cases same
  | testing condition pause => cases same
  | finished outcome world => cases same

end Monitored

theorem Suspension.resume_prepend (text : String) (pause : Pause) (world : World) :
    Suspension.resume ⟨pause, world.prepend text⟩ =
      (Suspension.resume ⟨pause, world⟩).prepend text :=
  congrArg Monitored.running (Machine.step_prepend text (pause.machine world))

/-! ## The order of messages -/

/-- Who is to send the next message. -/
inductive Floor where
  /-- The worker, when the run comes to a halt. -/
  | run
  /-- The worker, when the evaluation of the expression has ended. -/
  | expression (e : Expr)
  | commands
  | nobody

/-- The messages have been handed over in this order, the latest first. To every demand there is
one event, and it is of the kind that was demanded. -/
inductive Protocol : Floor → List Message → Prop
  | start : Protocol .run []
  | suspended {messages : List Message} (line : Nat) (kind : NodeKind)
      (before : Protocol .run messages) :
      Protocol .commands (.event (.suspended line kind) :: messages)
  | finished {messages : List Message} (outcome : Except Fault Int32)
      (before : Protocol .run messages) : Protocol .nobody (.event (.finished outcome) :: messages)
  | evaluate {messages : List Message} (e : Expr) (before : Protocol .commands messages) :
      Protocol (.expression e) (.demand (.evaluate e) :: messages)
  | evaluated {messages : List Message} {e : Expr} {scope : ScopeId} {world world' : World}
      {outcome : Except Fault Int32} (before : Protocol (.expression e) messages)
      (ends : (Machine.start (.expression e) scope world).Ends outcome world') :
      Protocol .commands (.event (.evaluated outcome) :: messages)
  | resume {messages : List Message} (before : Protocol .commands messages) :
      Protocol .run (.demand .resume :: messages)

/-! ## One session -/

/-- The phase that a session is in for who makes the requests. -/
def Stage.phase? : Stage → Option Phase
  | started _ => some .started
  | suspended _ => some .suspended
  | finished => some .finished
  | dropped => none

theorem Stage.allows_of_permits {stage : Stage} {phase : Phase} {request : Request}
    (here : stage.phase? = some phase) (permitted : phase.permits request = true) :
    stage.allows request = true := by
  cases stage <;> cases here <;> cases request <;> first | rfl | exact permitted

/-- One session of the program answers these requests, with these answers and all that was written
by then; the latest first. -/
inductive Session.Converses (program : Program) : List Exchange → String → Session → Prop
  | start (table : Breakpoints) : Converses program [] "" (start program table)
  | answer {log : List Exchange} {written text : String} {s s' : Session} {phase : Phase}
      {budget : Nat} {request : Request} {answer : Answer}
      (before : Converses program log written s)
      (here : s.stage.phase? = some phase) (permitted : phase.permits request = true)
      (answered : s.answer budget request = some (answer, text, s')) :
      Converses program (⟨request, answer, written ++ text⟩ :: log) (written ++ text) s'

/-! ## What the worker is doing -/

namespace Worker

theorem world_of_take? {demand : Demand} {worker worker' : Worker}
    (takes : worker.take? demand = some worker') : worker'.world = worker.world := by
  cases worker with
  | listening s => cases demand <;> cases takes <;> rfl
  | _ => cases takes

theorem world_of_telling? {event : Event} {worker worker' : Worker}
    (telling : worker.telling? = some (event, worker')) : worker'.world = worker.world := by
  cases worker with
  | running m =>
    cases m with
    | suspended s =>
      cases telling
      rfl
    | _ => cases telling
  | evaluating m pause =>
    obtain ⟨outcome, -, told⟩ := Option.map_eq_some_iff.mp telling
    cases told
    rfl
  | returned outcome world =>
    cases telling
    rfl
  | _ => cases telling

theorem world_abandon (worker : Worker) : worker.abandon.world = worker.world := by
  cases worker with
  | running m => cases m <;> rfl
  | _ => rfl

/-- The worker has the run go on, or is about to. -/
inductive Going (r : Monitored) (table : Breakpoints) (written : String) : Worker → Prop
  | resuming {pause : Pause} {world : World} (same : Suspension.resume ⟨pause, world⟩ = r) :
      Going r table written (.resuming ⟨pause, world.prepend written⟩)
  | running (n : Nat) : Going r table written (.running ((r.after table n).prepend written))
  | returned {n : Nat} {outcome : Except Fault Int32} {world : World}
      (there : r.after table n = .finished outcome world) :
      Going r table written (.returned outcome (world.prepend written))

/-- The worker leaves a run that was told to stop. -/
inductive Leaving : Worker → Prop
  | listening (s : Suspension) : Leaving (.listening s)
  | raising (stack : List Frame) (world : World) :
      Leaving (.running (.running ⟨.raise .stopped, stack, world⟩))
  | finished (world : World) : Leaving (.running (.finished (.error .stopped) world))
  | returned (world : World) : Leaving (.returned (.error .stopped) world)
  | ended (world : World) : Leaving (.ended world)

variable {r : Monitored} {table : Breakpoints} {written : String} {worker worker' : Worker}

theorem work?_running {m : Monitored} (works : (running m).work? table = some worker) :
    worker = .running (m.step table) ∨
      ∃ outcome world, m = .finished outcome world ∧ worker = .returned outcome world := by
  cases m with
  | running m => exact .inl (Option.some.inj works).symm
  | testing condition pause => exact .inl (Option.some.inj works).symm
  | suspended s => cases works
  | finished outcome world => exact .inr ⟨outcome, world, rfl, (Option.some.inj works).symm⟩

theorem Going.work (going : worker.Going r table written)
    (works : worker.work? table = some worker') : worker'.Going r table written := by
  cases going with
  | resuming same =>
    cases works
    rw [Suspension.resume_prepend, same]
    exact .running 0
  | running n =>
    obtain rfl | ⟨outcome, world, now, rfl⟩ := work?_running works
    · rw [Monitored.step_prepend, ← Monitored.after_succ_eq_step]
      exact .running (n + 1)
    · obtain ⟨world, there, rfl⟩ := Monitored.prepend_eq_finished now
      exact .returned there
  | returned => cases works

/-- What the worker tells while the run goes on is the halt that the run has come to. -/
theorem Going.telling {event : Event} (going : worker.Going r table written)
    (telling : worker.telling? = some (event, worker')) :
    ∃ budget halt, r.run table budget = some halt ∧
      match halt with
      | .suspended s => event = .suspended s.line s.kind ∧
          worker' = .listening ⟨s.pause, s.world.prepend written⟩
      | .finished outcome world => event = .finished outcome ∧
          worker' = .ended (world.prepend written) := by
  cases going with
  | resuming => cases telling
  | running n =>
    cases now : (r.after table n).prepend written with
    | suspended s =>
      rw [now] at telling
      cases telling
      obtain ⟨world, there, same⟩ := Monitored.prepend_eq_suspended now
      have halted : r.after table n = Halt.monitored (.suspended ⟨s.pause, world⟩) := there
      obtain ⟨budget, ran⟩ := Monitored.run_of_after halted
      exact ⟨budget, _, ran, rfl, by rw [← same]⟩
    | running m => simp [now, telling?] at telling
    | testing condition pause => simp [now, telling?] at telling
    | finished outcome world => simp [now, telling?] at telling
  | @returned n outcome world there =>
    cases telling
    have halted : r.after table n = Halt.monitored (.finished outcome world) := there
    obtain ⟨budget, ran⟩ := Monitored.run_of_after halted
    exact ⟨budget, _, ran, rfl, rfl⟩

theorem Going.progress (going : worker.Going r table written) :
    (∃ worker', worker.work? table = some worker') ∨ ∃ told, worker.telling? = some told := by
  cases going with
  | resuming => exact .inl ⟨_, rfl⟩
  | running n =>
    cases (r.after table n).prepend written with
    | suspended s => exact .inr ⟨_, rfl⟩
    | running m => exact .inl ⟨_, rfl⟩
    | testing condition pause => exact .inl ⟨_, rfl⟩
    | finished outcome world => exact .inl ⟨_, rfl⟩
  | returned => exact .inr ⟨_, rfl⟩

theorem progress_evaluating (m : Machine) (pause : Pause) :
    (∃ worker', (evaluating m pause).work? table = some worker') ∨
      ∃ told, (evaluating m pause).telling? = some told := by
  cases ended : m.outcome? with
  | none => exact .inl ⟨.evaluating m.step pause, by rw [work?, ended]⟩
  | some outcome =>
    exact .inr ⟨(.evaluated outcome, .listening ⟨pause, m.world⟩), by rw [telling?, ended]; rfl⟩

/-- A worker that has something to tell does nothing else. -/
theorem not_telling_of_works {told : Event × Worker} (works : worker.work? table = some worker')
    (telling : worker.telling? = some told) : False := by
  cases worker with
  | running m =>
    cases m with
    | suspended s => cases works
    | _ => cases telling
  | evaluating m pause =>
    obtain ⟨outcome, ended, -⟩ := Option.map_eq_some_iff.mp telling
    rw [work?, ended] at works
    cases works
  | resuming => cases telling
  | _ => cases works

theorem Going.ne_ended (going : worker.Going r table written) (world : World) :
    worker ≠ .ended world := by
  cases going <;> exact nofun

/-- An upper bound for the steps that the worker still takes once it has to leave the run. -/
def left : Worker → Nat
  | listening s => s.pause.stack.length + 4
  | running (.running m) => m.stack.length + 3
  | running _ => 2
  | resuming _ | evaluating _ _ => 0
  | returned .. => 1
  | ended _ => 0

/-- A fault that is on its way out is all that the worker works at, and nothing is written. -/
theorem Leaving.work (leaving : worker.Leaving) (works : worker.work? table = some worker') :
    worker'.Leaving ∧ worker'.world.output = worker.world.output ∧ worker'.left < worker.left := by
  cases leaving with
  | raising stack world =>
    obtain rfl | ⟨_, _, now, -⟩ := work?_running works
    · cases stack with
      | nil => exact ⟨.finished world, rfl, Nat.lt_succ_self 2⟩
      | cons frame stack =>
        obtain ⟨world', silent, unwound⟩ :=
          Machine.unwind_of_passing (show Fault.Passing .stopped from nofun) frame stack world
        have next : Monitored.step table (.running ⟨.raise .stopped, frame :: stack, world⟩) =
            .running ⟨.raise .stopped, stack, world'⟩ :=
          congrArg Monitored.running unwound
        rw [next]
        exact ⟨.raising stack world', silent, by simp [left]⟩
    · cases now
  | finished world =>
    cases works
    exact ⟨.returned world, rfl, Nat.lt_succ_self 1⟩
  | listening s => cases works
  | returned world => cases works
  | ended world => cases works

/-- A worker that finds nobody at the other end leaves the run, and writes nothing. -/
theorem Leaving.abandon (leaving : worker.Leaving)
    (stuck : (∃ s, worker = .listening s) ∨ ∃ told, worker.telling? = some told) :
    worker.abandon.Leaving ∧ worker.abandon.world.output = worker.world.output ∧
      worker.abandon.left < worker.left := by
  cases leaving with
  | listening s => exact ⟨.raising _ _, rfl, Nat.lt_succ_self _⟩
  | returned world => exact ⟨.ended world, rfl, Nat.lt_succ_self 0⟩
  | raising stack world =>
    rcases stuck with ⟨s, now⟩ | ⟨told, now⟩ <;> cases now
  | finished world =>
    rcases stuck with ⟨s, now⟩ | ⟨told, now⟩ <;> cases now
  | ended world =>
    rcases stuck with ⟨s, now⟩ | ⟨told, now⟩ <;> cases now

theorem Leaving.progress (leaving : worker.Leaving) :
    (∃ worker', worker.work? table = some worker') ∨ (∃ s, worker = .listening s) ∨
      (∃ told, worker.telling? = some told) ∨ ∃ world, worker = .ended world := by
  cases leaving with
  | listening s => exact .inr (.inl ⟨s, rfl⟩)
  | raising stack world => exact .inl ⟨_, rfl⟩
  | finished world => exact .inl ⟨_, rfl⟩
  | returned world => exact .inr (.inr (.inl ⟨_, rfl⟩))
  | ended world => exact .inr (.inr (.inr ⟨world, rfl⟩))

end Worker

/-! ## The threads follow the session -/

/-- The request is carried out by means of the demand. -/
inductive Request.Demands : Request → Demand → Prop
  | evaluate {source : String} {e : Expr} (parsed : Expr.ofSource source = .ok e) :
      Demands (.evaluate source) (.evaluate e)
  | resume : Demands .resume .resume

namespace Threads

/-- Between two requests of a session at this stage, with this text handed out, the worker is doing
this, and the command loop is in this phase. -/
inductive Rests : Stage → String → Worker → Phase → Floor → Prop
  | suspended {pause : Pause} {world : World} {written : String} (taken : world.output = "") :
      Rests (.suspended ⟨pause, world⟩) written (.listening ⟨pause, world.prepend written⟩)
        .suspended .commands
  | finished (world : World) : Rests .finished world.output (.ended world) .finished .nobody

/-- The threads are where the session is that has answered the same requests, or on their way to
its answer to the next. Of all that has been written the worker holds the text, and the session has
handed it out. -/
inductive Follows : Session → String → Threads → Prop
  /-- The command loop is about to wait for the first halt. -/
  | starting {m : Machine} {table : Breakpoints} {written : String} {worker : Worker}
      {messages : List Message} {log : List Exchange}
      (going : worker.Going (.running m) table written) (protocol : Protocol .run messages) :
      Follows ⟨.started m, table⟩ written ⟨worker, .idle, table, .started, none, messages, log⟩
  /-- The command loop waits for the run to come to a halt. -/
  | going {request : Request} {r : Monitored} {s : Session} {written : String} {worker : Worker}
      {phase : Phase} {messages : List Message} {log : List Exchange}
      (pending : Session.Pending request s r) (going : worker.Going r s.breakpoints written)
      (protocol : Protocol .run messages) :
      Follows s written ⟨worker, .waiting request, s.breakpoints, phase, none, messages, log⟩
  | resting {stage : Stage} {table : Breakpoints} {written : String} {worker : Worker}
      {phase : Phase} {floor : Floor} {messages : List Message} {log : List Exchange}
      (rests : Rests stage written worker phase floor) (protocol : Protocol floor messages) :
      Follows ⟨stage, table⟩ written
        ⟨worker, .idle, table, phase, Session.position? ⟨stage, table⟩, messages, log⟩
  | demanding {stage : Stage} {table : Breakpoints} {written : String} {worker : Worker}
      {phase : Phase} {floor : Floor} {messages : List Message} {log : List Exchange}
      {request : Request} {demand : Demand} (demands : request.Demands demand)
      (rests : Rests stage written worker phase floor) (protocol : Protocol floor messages) :
      Follows ⟨stage, table⟩ written
        ⟨worker, .demanding request demand, table, phase, Session.position? ⟨stage, table⟩,
          messages, log⟩
  /-- The command loop waits for the outcome of an expression. -/
  | evaluating {pause : Pause} {world : World} {table : Breakpoints} {written source : String}
      {e : Expr} {messages : List Message} {log : List Exchange}
      (parsed : Expr.ofSource source = .ok e) (n : Nat)
      (protocol : Protocol (.expression e) messages) :
      Follows ⟨.suspended ⟨pause, world⟩, table⟩ written
        ⟨.evaluating (((Machine.start (.expression e) pause.scope world).after n).prepend written)
          pause, .listening (.evaluate source), table, .suspended,
          some (pause.node.line, pause.node.kind), messages, log⟩
  /-- The command loop waits for a run that has finished. -/
  | late {world : World} {table : Breakpoints} {messages : List Message} {log : List Exchange}
      (protocol : Protocol .nobody messages) :
      Follows ⟨.finished, table⟩ world.output
        ⟨.ended world, .waiting .wait, table, .finished, none, messages, log⟩
  | closing {s : Session} {worker : Worker} {phase : Phase} {position? : Option (Nat × NodeKind)}
      {floor : Floor} {messages : List Message} {log : List Exchange}
      (here : s.stage.phase? = some phase) (past : phase ≠ .started) (leaving : worker.Leaving)
      (protocol : Protocol floor messages) :
      Follows s worker.world.output
        ⟨worker, .closing, s.breakpoints, phase, position?, messages, log⟩
  | joining {s : Session} {worker : Worker} {phase : Phase} {position? : Option (Nat × NodeKind)}
      {floor : Floor} {messages : List Message} {log : List Exchange}
      (here : s.stage.phase? = some phase) (past : phase ≠ .started) (leaving : worker.Leaving)
      (protocol : Protocol floor messages) :
      Follows s worker.world.output
        ⟨worker, .joining, s.breakpoints, phase, position?, messages, log⟩
  | gone {world : World} {table : Breakpoints} {phase : Phase}
      {position? : Option (Nat × NodeKind)} {floor : Floor} {messages : List Message}
      {log : List Exchange} (protocol : Protocol floor messages) :
      Follows ⟨.dropped, table⟩ world.output
        ⟨.ended world, .gone, table, phase, position?, messages, log⟩

/-- The threads have answered the request as the session does. -/
inductive Answers (s : Session) (written : String) (log : List Exchange) (request : Request)
    (p : Threads) : Prop
  | intro {phase : Phase} {budget : Nat} {answer : Answer} {text : String} {s' : Session}
      (here : s.stage.phase? = some phase) (permitted : phase.permits request = true)
      (answered : s.answer budget request = some (answer, text, s'))
      (follows : Follows s' (written ++ text) p)
      (logged : p.log = ⟨request, answer, written ++ text⟩ :: log)
      (free : p.loop.request? = none)

/-- The threads are still carrying out the request. -/
structure Carries (s : Session) (written : String) (log : List Exchange) (request : Request)
    (p : Threads) : Prop where
  follows : Follows s written p
  logged : p.log = log
  asked : p.loop.request? = some request

theorem Carries.still {s : Session} {written : String} {log : List Exchange} {request : Request}
    {p : Threads} (h : Carries s written log request p) : Follows s written p ∧ p.log = log :=
  ⟨h.follows, h.logged⟩

section Step

variable {s : Session} {table : Breakpoints} {written : String} {messages : List Message}
  {log : List Exchange} {p : Threads} {request : Request} {worker worker' : Worker} {phase : Phase}

/-- An answer that nothing is written for. -/
theorem Answers.quiet {s' : Session} {answer : Answer} (here : s.stage.phase? = some phase)
    (permitted : phase.permits request = true)
    (answered : s.answer 0 request = some (answer, "", s')) (follows : Follows s' written p)
    (logged : p.log = ⟨request, answer, written⟩ :: log) (free : p.loop.request? = none) :
    Answers s written log request p := by
  refine .intro here permitted answered ?_ ?_ free
  · rw [String.append_empty]
    exact follows
  · rw [String.append_empty]
    exact logged

/-! ### Answers -/

/-- The command loop is told of the halt that the run has come to. -/
theorem answers_of_halt {r : Monitored} {event : Event} (pending : Session.Pending request s r)
    (going : worker.Going r s.breakpoints written) (protocol : Protocol .run messages)
    (telling : worker.telling? = some (event, worker')) :
    Answers s written log request (toldHalt ⟨worker', .waiting request, s.breakpoints, phase, none,
      .event event :: messages, log⟩ request event) := by
  obtain ⟨budget, halt, ran, told⟩ := going.telling telling
  obtain ⟨phase', here, permitted⟩ : ∃ phase', s.stage.phase? = some phase' ∧
      phase'.permits request = true := by
    cases pending with
    | wait => exact ⟨.started, rfl, rfl⟩
    | resume => exact ⟨.suspended, rfl, rfl⟩
  cases halt with
  | suspended halted =>
    obtain ⟨rfl, rfl⟩ := told
    have answered : s.answer budget request =
        some (.standing (.suspended halted.line halted.kind), halted.world.output,
          ⟨.suspended ⟨halted.pause, halted.world.withoutOutput⟩, s.breakpoints⟩) := by
      rw [pending.answer, Session.proceed, ran]
      rfl
    refine .intro here permitted answered ?_ rfl rfl
    rw [World.prepend_eq_withoutOutput]
    exact .resting (.suspended rfl) (.suspended _ _ protocol)
  | finished outcome world =>
    obtain ⟨rfl, rfl⟩ := told
    have answered : s.answer budget request =
        some (.standing (.finished outcome), world.output, ⟨.finished, s.breakpoints⟩) := by
      rw [pending.answer, Session.proceed, ran]
      rfl
    exact .intro here permitted answered
      (.resting (.finished (world.prepend written)) (.finished _ protocol)) rfl rfl

/-- The command loop is told the outcome of the expression. -/
theorem answers_of_outcome {pause : Pause} {world : World} {source : String} {e : Expr}
    {event : Event} (parsed : Expr.ofSource source = .ok e) (n : Nat)
    (protocol : Protocol (.expression e) messages)
    (telling : Worker.telling? (.evaluating
      (((Machine.start (.expression e) pause.scope world).after n).prepend written) pause) =
        some (event, worker)) :
    Answers ⟨.suspended ⟨pause, world⟩, table⟩ written log (.evaluate source)
      (toldOutcome ⟨worker, .listening (.evaluate source), table, .suspended,
        some (pause.node.line, pause.node.kind), .event event :: messages, log⟩ (.evaluate source)
        event) := by
  obtain ⟨outcome, ended, told⟩ := Option.map_eq_some_iff.mp telling
  rw [Machine.outcome?_prepend] at ended
  cases told
  have ends := Machine.ends_iff.mpr ⟨n, ended, rfl⟩
  generalize (Machine.start (.expression e) pause.scope world).after n = m at ends
  have ⟨budget, ran⟩ := ends
  have answered : Session.answer ⟨.suspended ⟨pause, world⟩, table⟩ budget (.evaluate source) =
      some (.evaluated outcome, m.world.output,
        ⟨.suspended ⟨pause, m.world.withoutOutput⟩, table⟩) := by
    simp only [Session.answer, Stage.allows, Session.carryOut, parsed, if_true]
    exact Session.evaluate_eq_some_iff.mpr ⟨outcome, _, ran, rfl, rfl, rfl⟩
  have whole : (m.prepend written).world =
      m.world.withoutOutput.prepend (written ++ m.world.output) :=
    World.prepend_eq_withoutOutput ..
  refine .intro (show Stage.phase? _ = some .suspended from rfl) rfl answered ?_ rfl rfl
  rw [whole]
  exact .resting (.suspended rfl) (.evaluated protocol ends)

/-- Nobody takes the demand, since the run has finished. -/
theorem answers_of_refusal {world : World} {demand : Demand} (demands : request.Demands demand)
    (protocol : Protocol .nobody messages) :
    Answers ⟨.finished, table⟩ world.output log request
      (refused ⟨.ended world, .demanding request demand, table, .finished, none, messages, log⟩
        request demand) := by
  cases demands with
  | @evaluate source e parsed =>
    have answered : Session.answer ⟨.finished, table⟩ 0 (.evaluate source) =
        some (.evaluated (.error .stopped), "", ⟨.finished, table⟩) := by
      simp only [Session.answer, Stage.allows, Session.carryOut, parsed, if_true]
      rfl
    exact .quiet rfl rfl answered (.resting (.finished world) protocol) rfl rfl
  | resume =>
    have answered : Session.answer ⟨.finished, table⟩ 0 .resume =
        some (.standing (.finished (.error .stopped)), "", ⟨.finished, table⟩) := rfl
    exact .quiet rfl rfl answered (.resting (.finished world) protocol) rfl rfl

theorem answers_of_late {world : World} (protocol : Protocol .nobody messages) :
    Answers ⟨.finished, table⟩ world.output log .wait
      (reply ⟨.ended world, .waiting .wait, table, .finished, none, messages, log⟩ .wait
        (.standing (.finished (.error .stopped)))) := by
  have answered : Session.answer ⟨.finished, table⟩ 0 .wait =
      some (.standing (.finished (.error .stopped)), "", ⟨.finished, table⟩) := rfl
  exact .quiet rfl rfl answered (.resting (.finished world) protocol) rfl rfl

theorem answers_of_join {world : World} {position? : Option (Nat × NodeKind)} {floor : Floor}
    (here : s.stage.phase? = some phase) (past : phase ≠ .started)
    (protocol : Protocol floor messages) :
    Answers s world.output log .drop
      { reply ⟨.ended world, .joining, s.breakpoints, phase, position?, messages, log⟩ .drop
          .dropped with loop := .gone } := by
  obtain ⟨stage, table⟩ := s
  have answered : Session.answer ⟨stage, table⟩ 0 .drop =
      some (.dropped, "", ⟨.dropped, table⟩) := by
    cases stage with
    | started =>
      cases here
      exact absurd rfl past
    | suspended => rfl
    | finished => rfl
    | dropped => cases here
  have permitted : phase.permits .drop = true := by
    cases phase with
    | started => exact absurd rfl past
    | _ => rfl
  exact .quiet here permitted answered (.gone protocol) rfl rfl

theorem Rests.phase? {stage : Stage} {floor : Floor}
    (rests : Rests stage written worker phase floor) :
    stage.phase? = some phase ∧ phase ≠ .started := by
  cases rests <;> exact ⟨rfl, nofun⟩

theorem Rests.output {stage : Stage} {floor : Floor}
    (rests : Rests stage written worker phase floor) : worker.world.output = written := by
  cases rests with
  | suspended taken =>
    rw [Worker.world, World.prepend_output, taken, String.append_empty]
  | finished world => rfl

theorem Rests.leaving {stage : Stage} {floor : Floor}
    (rests : Rests stage written worker phase floor) : worker.Leaving := by
  cases rests with
  | suspended => exact .listening _
  | finished world => exact .ended world

/-- Between two requests the command loop answers the next by itself, or sets about it. -/
theorem answers_or_carries_of_call {stage : Stage} {floor : Floor}
    (rests : Rests stage written worker phase floor) (protocol : Protocol floor messages)
    (permitted : phase.permits request = true) :
    Answers ⟨stage, table⟩ written log request
      (call ⟨worker, .idle, table, phase, Session.position? ⟨stage, table⟩, messages, log⟩
        request) ∨
    Carries ⟨stage, table⟩ written log request
      (call ⟨worker, .idle, table, phase, Session.position? ⟨stage, table⟩, messages, log⟩
        request) := by
  obtain ⟨here, past⟩ := rests.phase?
  have answers {answer : Answer} {table' : Breakpoints} {p : Threads}
      (carried : Session.carryOut ⟨stage, table⟩ 0 request = some (answer, "", ⟨stage, table'⟩))
      (follows : Follows ⟨stage, table'⟩ written p)
      (logged : p.log = ⟨request, answer, worker.world.output⟩ :: log)
      (free : p.loop.request? = none) : Answers ⟨stage, table⟩ written log request p := by
    rw [rests.output] at logged
    refine .quiet here permitted ?_ follows logged free
    rw [Session.answer, Stage.allows_of_permits here permitted]
    exact carried
  cases request with
  | wait =>
    cases rests with
    | suspended => cases permitted
    | finished world => exact .inr ⟨.late protocol, rfl, rfl⟩
  | resume => exact .inr ⟨.demanding .resume rests protocol, rfl, rfl⟩
  | evaluate source =>
    rw [call]
    split
    · next e malformed =>
      have carried : Session.carryOut ⟨stage, table⟩ 0 (.evaluate source) =
          some (.malformed e, "", ⟨stage, table⟩) := by
        rw [Session.carryOut, malformed]
      exact .inl (answers carried (.resting rests protocol) rfl rfl)
    · next e parsed => exact .inr ⟨.demanding (.evaluate parsed) rests protocol, rfl, rfl⟩
  | insert line condition? =>
    rw [call]
    split
    · next e malformed =>
      have carried : Session.carryOut ⟨stage, table⟩ 0 (.insert line condition?) =
          some (.malformed e, "", ⟨stage, table⟩) := by
        rw [Session.carryOut, malformed]
      exact .inl (answers carried (.resting rests protocol) rfl rfl)
    · next breakpoint made =>
      have carried : Session.carryOut ⟨stage, table⟩ 0 (.insert line condition?) =
          some (.inserted (table.contains line), "", ⟨stage, table.insert line breakpoint⟩) := by
        rw [Session.carryOut, made]
      exact .inl (answers carried (.resting rests protocol) rfl rfl)
  | remove line => exact .inl (answers rfl (.resting rests protocol) rfl rfl)
  | position => exact .inl (answers rfl (.resting rests protocol) rfl rfl)
  | drop =>
    exact .inr ⟨rests.output ▸ .closing here past rests.leaving protocol, rfl, rfl⟩

/-! ### Steps -/

/-- The worker takes the demand where the run is suspended. -/
theorem carries_of_demand {stage : Stage} {floor : Floor} {demand : Demand}
    (demands : request.Demands demand) (rests : Rests stage written worker phase floor)
    (protocol : Protocol floor messages) (takes : worker.take? demand = some worker') :
    Carries ⟨stage, table⟩ written log request
      (demanded ⟨worker', .demanding request demand, table, phase,
        Session.position? ⟨stage, table⟩, .demand demand :: messages, log⟩ request demand) := by
  cases rests with
  | finished world => cases takes
  | @suspended pause world _ taken =>
    cases demands with
    | evaluate parsed =>
      cases takes
      exact ⟨.evaluating parsed 0 (.evaluate _ protocol), rfl, rfl⟩
    | resume =>
      cases takes
      exact ⟨.going (s := ⟨.suspended ⟨pause, world⟩, table⟩) .resume (.resuming rfl)
        (.resume protocol), rfl, rfl⟩

/-- The worker works at what it works at, whatever the command loop is doing. -/
theorem Follows.of_work (follows : Follows s written p)
    (works : p.worker.work? p.breakpoints = some worker) :
    Follows s written { p with worker } := by
  cases follows with
  | starting going protocol => exact .starting (going.work works) protocol
  | going pending going protocol => exact .going pending (going.work works) protocol
  | evaluating parsed n protocol =>
    rw [Worker.work?] at works
    split at works
    · cases works
    · cases works
      rw [Machine.step_prepend, ← Machine.after_succ_eq_step]
      exact .evaluating parsed (n + 1) protocol
  | closing here past leaving protocol =>
    obtain ⟨leaving', same, -⟩ := leaving.work works
    exact same ▸ .closing here past leaving' protocol
  | joining here past leaving protocol =>
    obtain ⟨leaving', same, -⟩ := leaving.work works
    exact same ▸ .joining here past leaving' protocol
  | resting rests => cases rests <;> cases works
  | demanding _ rests => cases rests <;> cases works
  | late => cases works
  | gone => cases works

/-- Where nobody is at the other end the worker gives up, and only while the session is dropped. -/
theorem Follows.of_abandon (follows : Follows s written p)
    (stuck : (∃ s, p.worker = .listening s) ∧ p.loop.isMute = true ∨
      (∃ told, p.worker.telling? = some told) ∧ p.loop.isDeaf = true) :
    Follows s written { p with worker := p.worker.abandon } := by
  cases follows with
  | closing here past leaving protocol =>
    obtain ⟨leaving', same, -⟩ := leaving.abandon (stuck.imp And.left And.left)
    exact same ▸ .closing here past leaving' protocol
  | joining here past leaving protocol =>
    obtain ⟨leaving', same, -⟩ := leaving.abandon (stuck.imp And.left And.left)
    exact same ▸ .joining here past leaving' protocol
  | gone => obtain ⟨⟨_, ⟨⟩⟩, -⟩ | ⟨⟨_, ⟨⟩⟩, -⟩ := stuck
  | _ => obtain ⟨-, ⟨⟩⟩ | ⟨-, ⟨⟩⟩ := stuck

/-- Steps take the threads where the session is, or to its answer to one more request. -/
theorem Follows.step {p' : Threads} (follows : Follows s written p) (step : Step p p') :
    Follows s written p' ∧ p'.log = p.log ∨ ∃ request, Answers s written p.log request p' := by
  cases step with
  | work works => exact .inl ⟨follows.of_work works, rfl⟩
  | undemanded listening mute =>
    exact .inl ⟨follows.of_abandon (.inl ⟨⟨_, listening⟩, mute⟩), rfl⟩
  | unheard telling deaf => exact .inl ⟨follows.of_abandon (.inr ⟨⟨_, telling⟩, deaf⟩), rfl⟩
  | @call asked idle permitted =>
    cases follows with
    | starting going protocol =>
      cases asked with
      | wait => exact .inl ⟨.going .wait going protocol, rfl⟩
      | _ => cases permitted
    | resting rests protocol =>
      obtain answers | carries := answers_or_carries_of_call rests protocol permitted
      · exact .inr ⟨_, answers⟩
      · exact .inl carries.still
    | _ => contradiction
  | demand demanding takes =>
    cases follows with
    | demanding demands rests protocol =>
      cases demanding
      exact .inl (carries_of_demand demands rests protocol takes).still
    | _ => contradiction
  | refusal demanding deaf =>
    cases follows with
    | demanding demands rests protocol =>
      cases demanding
      cases rests with
      | suspended => cases deaf
      | finished world => exact .inr ⟨_, answers_of_refusal demands protocol⟩
    | _ => contradiction
  | outcome listening telling =>
    cases follows with
    | evaluating parsed n protocol =>
      cases listening
      exact .inr ⟨_, answers_of_outcome parsed n protocol telling⟩
    | _ => contradiction
  | halt waiting telling =>
    cases follows with
    | going pending going protocol =>
      cases waiting
      exact .inr ⟨_, answers_of_halt pending going protocol telling⟩
    | late => cases telling
    | _ => contradiction
  | noOutcome listening ended =>
    cases follows with
    | evaluating => cases ended
    | _ => contradiction
  | noHalt waiting ended =>
    cases follows with
    | late protocol =>
      cases waiting
      exact .inr ⟨_, answers_of_late protocol⟩
    | going _ going => exact absurd ended (going.ne_ended _)
    | _ => contradiction
  | close closing =>
    cases follows with
    | closing here past leaving protocol => exact .inl ⟨.joining here past leaving protocol, rfl⟩
    | _ => contradiction
  | join joining ended =>
    cases follows with
    | joining here past leaving protocol =>
      cases ended
      exact .inr ⟨_, answers_of_join here past protocol⟩
    | _ => contradiction

end Step

end Threads

end FunLanguage
