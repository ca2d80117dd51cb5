import FunLanguage.Proofs.Grammar.RoundTrip
import FunLanguage.Proofs.Handover

/-!
# Conversations with a session on two threads

Since the threads follow one session, they are never both held up (`Threads.Follows.progress`), and
but for a session that is being dropped there is only one step for them to do
(`Threads.Follows.unique`). If the session has an answer to a request, the threads get there
(`Threads.Follows.answers`). So what can be asked and answered on two threads is what can be asked
of one session (`Threads.keep_one_session`).
-/

namespace FunLanguage

namespace Monitored

/-- A run comes to one halt at most. -/
theorem run_unique {table : Breakpoints} {a b : Nat} {r : Monitored} {halt halt' : Halt}
    (h : r.run table a = some halt) (h' : r.run table b = some halt') : halt = halt' := by
  induction a generalizing b r with
  | zero => cases h
  | succ a ih =>
    cases b with
    | zero => cases h'
    | succ b =>
      cases r with
      | running m => exact ih h h'
      | testing condition pause => exact ih h h'
      | suspended s => exact Option.some.inj (h.symm.trans h')
      | finished outcome world => exact Option.some.inj (h.symm.trans h')

end Monitored

namespace Exchange

/-- The answer tells that the run has finished. -/
def Finishes (x : Exchange) : Prop :=
  ∃ outcome, x.answer = .standing (.finished outcome)

/-- The answer tells that there is no run any more to ask anything of. -/
def Late (x : Exchange) : Prop :=
  match x.request with
  | .wait | .resume => x.answer = .standing (.finished (.error .stopped))
  | .evaluate source => ∀ e, Expr.ofSource source = .ok e → x.answer = .evaluated (.error .stopped)
  | .position => x.answer = .position none
  | _ => True

end Exchange

namespace Session

variable {s : Session} {a b : Nat} {request : Request} {x y : Answer × String × Session}

theorem proceed_unique {r : Monitored} {x y : Standing × String × Session}
    (h : s.proceed a r = some x) (h' : s.proceed b r = some y) : x = y := by
  obtain ⟨halt, ran, rfl⟩ := Option.map_eq_some_iff.mp h
  obtain ⟨halt', ran', rfl⟩ := Option.map_eq_some_iff.mp h'
  rw [Monitored.run_unique ran ran']

theorem proceed?_unique {x y : Standing × String × Session} (h : s.proceed? a = some x)
    (h' : s.proceed? b = some y) : x = y := by
  obtain ⟨stage, table⟩ := s
  cases stage with
  | started m => exact proceed_unique h h'
  | suspended suspension => exact proceed_unique h h'
  | finished => exact Option.some.inj (h.symm.trans h')
  | dropped => exact Option.some.inj (h.symm.trans h')

theorem evaluate_unique {e : Expr} (h : s.evaluate a e = some x) (h' : s.evaluate b e = some y) :
    x = y := by
  obtain ⟨stage, table⟩ := s
  cases stage with
  | suspended suspension =>
    obtain ⟨outcome, world, ran, same⟩ := evaluate_eq_some_iff.mp h
    obtain ⟨outcome', world', ran', same'⟩ := evaluate_eq_some_iff.mp h'
    obtain ⟨rfl, rfl⟩ := Machine.Ends.unique ⟨a, ran⟩ ⟨b, ran'⟩
    exact Prod.ext (same.1.trans same'.1.symm)
      (Prod.ext (same.2.1.trans same'.2.1.symm) (same.2.2.trans same'.2.2.symm))
  | started m => exact Option.some.inj (h.symm.trans h')
  | finished => exact Option.some.inj (h.symm.trans h')
  | dropped => exact Option.some.inj (h.symm.trans h')

theorem drop_unique (h : s.drop a = some x) (h' : s.drop b = some y) : x = y := by
  obtain ⟨stage, table⟩ := s
  cases stage with
  | started m =>
    obtain ⟨told, proceeds, rfl⟩ := Option.map_eq_some_iff.mp h
    obtain ⟨told', proceeds', rfl⟩ := Option.map_eq_some_iff.mp h'
    rw [proceed_unique proceeds proceeds']
  | suspended suspension => exact Option.some.inj (h.symm.trans h')
  | finished => exact Option.some.inj (h.symm.trans h')
  | dropped => exact Option.some.inj (h.symm.trans h')

/-- A request has one answer at most. -/
theorem answer_unique (h : s.answer a request = some x) (h' : s.answer b request = some y) :
    x = y := by
  rw [answer] at h h'
  split at h
  · next allowed =>
    rw [if_pos allowed] at h'
    cases request with
    | wait =>
      obtain ⟨told, proceeds, rfl⟩ := Option.map_eq_some_iff.mp h
      obtain ⟨told', proceeds', rfl⟩ := Option.map_eq_some_iff.mp h'
      rw [proceed?_unique proceeds proceeds']
    | resume =>
      obtain ⟨told, proceeds, rfl⟩ := Option.map_eq_some_iff.mp h
      obtain ⟨told', proceeds', rfl⟩ := Option.map_eq_some_iff.mp h'
      rw [proceed?_unique proceeds proceeds']
    | evaluate source =>
      rw [carryOut] at h h'
      split at h
      · next e malformed =>
        rw [malformed] at h'
        exact Option.some.inj (h.symm.trans h')
      · next e parsed =>
        rw [parsed] at h'
        exact evaluate_unique h h'
    | insert line condition? =>
      exact Option.some.inj (h.symm.trans h')
    | remove line => exact Option.some.inj (h.symm.trans h')
    | position => exact Option.some.inj (h.symm.trans h')
    | drop => exact drop_unique h h'
  · next refused =>
    rw [if_neg refused] at h'
    exact Option.some.inj (h.symm.trans h')

/-! ### After the end -/

/-- A session that has finished answers at once, and writes nothing. -/
theorem answer_of_finished {table : Breakpoints} {answer : Answer} {text : String} {s' : Session}
    (answered : Session.answer ⟨.finished, table⟩ a request = some (answer, text, s')) :
    text = "" ∧ (s'.stage = .finished ∨ s'.stage = .dropped) ∧
      Exchange.Late ⟨request, answer, ""⟩ := by
  cases request with
  | wait =>
    cases answered
    exact ⟨rfl, .inl rfl, rfl⟩
  | resume =>
    cases answered
    exact ⟨rfl, .inl rfl, rfl⟩
  | evaluate source =>
    simp only [Session.answer, Stage.allows, carryOut, if_true] at answered
    split at answered
    · next e malformed =>
      cases answered
      refine ⟨rfl, .inl rfl, fun e' parsed => ?_⟩
      cases malformed.symm.trans parsed
    · cases answered
      exact ⟨rfl, .inl rfl, fun _ _ => rfl⟩
  | insert line condition? =>
    simp only [Session.answer, Stage.allows, carryOut, if_true] at answered
    split at answered <;> cases answered <;> exact ⟨rfl, .inl rfl, trivial⟩
  | remove line =>
    cases answered
    exact ⟨rfl, .inl rfl, trivial⟩
  | position =>
    cases answered
    exact ⟨rfl, .inl rfl, rfl⟩
  | drop =>
    cases answered
    exact ⟨rfl, .inr rfl, trivial⟩

theorem stage_of_proceed {r : Monitored} {outcome : Except Fault Int32} {text : String}
    {s' : Session} (proceeds : s.proceed a r = some (.finished outcome, text, s')) :
    s'.stage = .finished := by
  obtain ⟨halt, -, told⟩ := Option.map_eq_some_iff.mp proceeds
  cases halt with
  | suspended => cases told
  | finished =>
    cases told
    rfl

/-- A session that tells that its run has finished has itself finished. -/
theorem stage_of_answer {outcome : Except Fault Int32} {text : String} {s' : Session}
    (alive : s.stage ≠ .dropped)
    (answered : s.answer a request = some (.standing (.finished outcome), text, s')) :
    s'.stage = .finished := by
  have proceeds (goes_on : s.proceed? a = some (.finished outcome, text, s')) :
      s'.stage = .finished := by
    obtain ⟨stage, table⟩ := s
    cases stage with
    | started m => exact stage_of_proceed goes_on
    | suspended suspension => exact stage_of_proceed goes_on
    | finished =>
      cases goes_on
      rfl
    | dropped => exact absurd rfl alive
  rw [Session.answer] at answered
  split at answered
  · cases request with
    | wait =>
      obtain ⟨⟨standing, rest⟩, goes_on, told⟩ := Option.map_eq_some_iff.mp answered
      cases told
      exact proceeds goes_on
    | resume =>
      obtain ⟨⟨standing, rest⟩, goes_on, told⟩ := Option.map_eq_some_iff.mp answered
      cases told
      exact proceeds goes_on
    | evaluate source =>
      rw [carryOut] at answered
      split at answered
      · cases answered
      · rw [Session.evaluate] at answered
        split at answered
        · obtain ⟨⟨_, _⟩, -, told⟩ := Option.map_eq_some_iff.mp answered
          cases told
        · cases answered
    | insert line condition? =>
      rw [carryOut] at answered
      split at answered <;> cases answered
    | remove line => cases answered
    | position => cases answered
    | drop =>
      rw [carryOut, drop] at answered
      split at answered
      · obtain ⟨⟨_, _, _⟩, -, told⟩ := Option.map_eq_some_iff.mp answered
        cases told
      · cases answered
  · cases answered

namespace Converses

variable {program : Program} {log : List Exchange} {written : String}

/-- What was asked and answered before has come of a session, too. -/
theorem suffix {later earlier : List Exchange}
    (converses : Converses program (later ++ earlier) written s) :
    ∃ written' s', Converses program earlier written' s' := by
  induction later generalizing written s with
  | nil => exact ⟨written, s, converses⟩
  | cons x later ih =>
    cases converses with
    | answer before => exact ih before

theorem stage_of_finishes (converses : Converses program log written s)
    (finished : ∃ x ∈ log, x.Finishes) : s.stage = .finished ∨ s.stage = .dropped := by
  induction converses with
  | start =>
    obtain ⟨x, ⟨⟩, -⟩ := finished
  | @answer log written text s s' phase budget request answer before here permitted answered ih =>
    have alive : s.stage ≠ .dropped := by
      intro dropped
      rw [dropped] at here
      cases here
    obtain ⟨x, mem, outcome, told⟩ := finished
    rcases List.mem_cons.mp mem with rfl | mem
    · obtain rfl : answer = .standing (.finished outcome) := told
      exact .inl (stage_of_answer alive answered)
    · obtain ended | dropped := ih ⟨x, mem, outcome, told⟩
      · obtain ⟨stage, table⟩ := s
        obtain rfl : stage = .finished := ended
        exact (answer_of_finished answered).2.1
      · exact absurd dropped alive

/-- Once the run has finished nothing comes of any request, and nothing is written. -/
theorem late_of_finishes {later earlier : List Exchange} {x : Exchange}
    (converses : Converses program (later ++ x :: earlier) written s)
    (finished : ∃ y ∈ earlier, y.Finishes) :
    x.Late ∧ earlier.head?.map (·.output) = some x.output := by
  obtain ⟨written', s', converses⟩ := converses.suffix
  cases converses with
  | @answer _ written text s _ phase budget request answer before here permitted answered =>
    obtain ended | dropped := before.stage_of_finishes finished
    · obtain ⟨stage, table⟩ := s
      obtain rfl : stage = .finished := ended
      obtain ⟨rfl, -, late⟩ := answer_of_finished answered
      refine ⟨late, ?_⟩
      rw [String.append_empty]
      cases before with
      | answer => rfl
    · rw [dropped] at here
      cases here

end Converses

end Session

/-! ## The worker gets on -/

namespace Worker

variable {r : Monitored} {table : Breakpoints} {written : String} {worker : Worker}

/-- The worker gets there by itself. -/
abbrev Works (table : Breakpoints) : Worker → Worker → Prop :=
  Relation.ReflTransGen fun a b => a.work? table = some b

/-- If the run comes to a halt, the worker comes to tell so. -/
theorem comes_running {budget : Nat} {halt : Halt} (ran : r.run table budget = some halt)
    (n : Nat) : ∃ worker' told, Works table (running ((r.after table n).prepend written)) worker' ∧
      worker'.Going r table written ∧ worker'.telling? = some told := by
  obtain ⟨enough, there⟩ := Monitored.exists_after_of_run ran
  have halted : r.after table (n + enough) = halt.monitored := by
    rw [Nat.add_comm, Monitored.after_add, there, Monitored.after_monitored]
  clear there
  induction enough generalizing n with
  | zero =>
    rw [Nat.add_zero] at halted
    cases halt with
    | suspended suspension =>
      have telling : (running ((r.after table n).prepend written)).telling? =
          some (.suspended suspension.line suspension.kind,
            .listening ⟨suspension.pause, suspension.world.prepend written⟩) := by
        rw [halted]
        rfl
      exact ⟨_, _, .refl, .running n, telling⟩
    | finished outcome world =>
      have works : (running ((r.after table n).prepend written)).work? table =
          some (.returned outcome (world.prepend written)) := by
        rw [halted]
        rfl
      exact ⟨_, _, .single works, .returned halted, rfl⟩
  | succ enough ih =>
    have going : (running ((r.after table n).prepend written)).Going r table written := .running n
    obtain ⟨worker', works⟩ | ⟨told, telling⟩ := going.progress
    · obtain rfl | ⟨outcome, world, now, rfl⟩ := work?_running works
      · rw [Monitored.step_prepend, ← Monitored.after_succ_eq_step] at works
        obtain ⟨worker'', told, onward, rest⟩ := ih (n + 1) (by rwa [Nat.succ_add_eq_add_succ])
        exact ⟨worker'', told, .head works onward, rest⟩
      · obtain ⟨world, there, rfl⟩ := Monitored.prepend_eq_finished now
        exact ⟨_, _, .single works, .returned there, rfl⟩
    · exact ⟨_, told, .refl, going, telling⟩

theorem Going.comes {budget : Nat} {halt : Halt} (going : worker.Going r table written)
    (ran : r.run table budget = some halt) : ∃ worker' told, worker.Works table worker' ∧
      worker'.Going r table written ∧ worker'.telling? = some told := by
  cases going with
  | running n => exact comes_running ran n
  | returned there => exact ⟨_, _, .refl, .returned there, rfl⟩
  | @resuming pause world same =>
    obtain ⟨worker', told, works, rest⟩ := comes_running ran 0
    refine ⟨worker', told, .head ?_ works, rest⟩
    rw [work?, Suspension.resume_prepend, same, Monitored.after]

/-- If the expression comes to an end, the worker comes to tell its outcome. -/
theorem works_evaluating {m : Machine} {pause : Pause} {budget : Nat}
    {ended : Except Fault Int32 × World} (ran : m.run budget = some ended) (n : Nat) :
    ∃ k told, Works table (.evaluating ((m.after n).prepend written) pause)
        (.evaluating ((m.after k).prepend written) pause) ∧
      (evaluating ((m.after k).prepend written) pause).telling? = some told := by
  obtain ⟨enough, -, finished, -⟩ := Machine.run_eq_some_iff.mp ran
  replace finished : (m.after (n + enough)).outcome? = some ended.1 := by
    rw [Nat.add_comm, Machine.after_add, Machine.after_of_outcome? finished, finished]
  induction enough generalizing n with
  | zero =>
    have telling : (evaluating ((m.after n).prepend written) pause).telling? =
        some (.evaluated ended.1, .listening ⟨pause, ((m.after n).prepend written).world⟩) := by
      rw [telling?, Machine.outcome?_prepend, show (m.after n).outcome? = _ from finished]
      rfl
    exact ⟨n, _, .refl, telling⟩
  | succ enough ih =>
    cases now : (m.after n).outcome? with
    | some outcome =>
      have telling : (evaluating ((m.after n).prepend written) pause).telling? =
          some (.evaluated outcome, .listening ⟨pause, ((m.after n).prepend written).world⟩) := by
        rw [telling?, Machine.outcome?_prepend, now]
        rfl
      exact ⟨n, _, .refl, telling⟩
    | none =>
      have works : (evaluating ((m.after n).prepend written) pause).work? table =
          some (.evaluating ((m.after (n + 1)).prepend written) pause) := by
        rw [work?, Machine.outcome?_prepend, now, Machine.step_prepend, Machine.after_succ_eq_step]
      obtain ⟨k, told, onward, telling⟩ := ih (n + 1) (by rwa [Nat.succ_add_eq_add_succ])
      exact ⟨k, told, .head works onward, telling⟩

end Worker

namespace Threads

variable {program : Program} {p p' : Threads} {s : Session} {written : String}
  {log : List Exchange} {request : Request}

theorem follows_start (program : Program) (table : Breakpoints) :
    Follows (Session.start program table) "" (start program table) := by
  have unchanged : Monitored.prepend "" (.running (.ofProgram program)) =
      .running (.ofProgram program) := by
    rw [Monitored.prepend, Machine.prepend_empty]
  have going : Worker.Going (.running (.ofProgram program)) table ""
      (.running (Monitored.prepend "" (.running (.ofProgram program)))) := .running 0
  rw [unchanged] at going
  exact .starting going .start

/-- Whatever the threads come to, they follow one session. -/
theorem Reached.follows (h : Reached program p) :
    ∃ written s, Session.Converses program p.log written s ∧ Follows s written p := by
  obtain ⟨table, steps⟩ := h
  induction steps with
  | refl => exact ⟨"", _, .start table, follows_start program table⟩
  | tail _ step ih =>
    obtain ⟨written, s, converses, follows⟩ := ih
    obtain ⟨follows', same⟩ | ⟨request, here, permitted, answered, follows', logged, -⟩ :=
      follows.step step
    · exact ⟨written, s, same ▸ converses, follows'⟩
    · exact ⟨_, _, logged ▸ .answer converses here permitted answered, follows'⟩

/-! ## Progress -/

/-- While a request is carried out somebody can do a step. -/
theorem Follows.progress (follows : Follows s written p) (asked : p.loop.request? = some request) :
    ∃ p', Step p p' := by
  cases follows with
  | starting => cases asked
  | resting => cases asked
  | gone => cases asked
  | going pending going protocol =>
    obtain ⟨worker', works⟩ | ⟨told, telling⟩ := going.progress
    · exact ⟨_, .work works⟩
    · exact ⟨_, .halt rfl telling⟩
  | demanding demands rests =>
    cases rests with
    | suspended =>
      cases demands with
      | evaluate => exact ⟨_, .demand rfl rfl⟩
      | resume => exact ⟨_, .demand rfl rfl⟩
    | finished => exact ⟨_, .refusal rfl rfl⟩
  | evaluating =>
    obtain ⟨worker', works⟩ | ⟨told, telling⟩ := Worker.progress_evaluating _ _
    · exact ⟨_, .work works⟩
    · exact ⟨_, .outcome rfl telling⟩
  | late => exact ⟨_, .noHalt rfl rfl⟩
  | closing => exact ⟨_, .close rfl⟩
  | joining here past leaving =>
    obtain ⟨worker', works⟩ | ⟨s, rfl⟩ | ⟨told, telling⟩ | ⟨world, rfl⟩ := leaving.progress
    · exact ⟨_, .work works⟩
    · exact ⟨_, .undemanded rfl rfl⟩
    · exact ⟨_, .unheard telling rfl⟩
    · exact ⟨_, .join rfl rfl⟩

/-- The worker does nothing by itself unless the command loop waits for it or is about to; or the
session is dropped, and then it writes nothing. -/
theorem Follows.works {worker : Worker} (follows : Follows s written p)
    (works : p.worker.work? p.breakpoints = some worker) :
    p.loop = .idle ∧ p.phase = .started ∨ p.loop.awaits = true ∨
      p.loop.isMute = true ∧ worker.world.output = p.output := by
  cases follows with
  | starting => exact .inl ⟨rfl, rfl⟩
  | going => exact .inr (.inl rfl)
  | evaluating => exact .inr (.inl rfl)
  | late => exact .inr (.inl rfl)
  | closing here past leaving => exact .inr (.inr ⟨rfl, (leaving.work works).2.1⟩)
  | joining here past leaving => exact .inr (.inr ⟨rfl, (leaving.work works).2.1⟩)
  | resting rests => cases rests <;> cases works
  | demanding _ rests => cases rests <;> cases works
  | gone => cases works

/-! ## Events -/

/-- While the command loop waits for a halt it is not told the outcome of an expression. -/
theorem Follows.halt {worker : Worker} {event : Event} (follows : Follows s written p)
    (waiting : p.loop = .waiting request) (telling : p.worker.telling? = some (event, worker))
    (outcome : Except Fault Int32) : event ≠ .evaluated outcome := by
  cases follows with
  | going pending going =>
    obtain ⟨budget, halt, -, told⟩ := going.telling telling
    cases halt with
    | suspended s =>
      obtain ⟨rfl, -⟩ := told
      exact nofun
    | finished outcome world =>
      obtain ⟨rfl, -⟩ := told
      exact nofun
  | late => cases telling
  | _ => contradiction

/-- While the command loop waits for the outcome of an expression it is told nothing else. -/
theorem Follows.outcome {worker : Worker} {event : Event} (follows : Follows s written p)
    (listening : p.loop = .listening request)
    (telling : p.worker.telling? = some (event, worker)) :
    ∃ outcome, event = .evaluated outcome := by
  cases follows with
  | evaluating =>
    obtain ⟨outcome, -, told⟩ := Option.map_eq_some_iff.mp telling
    cases told
    exact ⟨outcome, rfl⟩
  | _ => contradiction

/-- The messages are in order; and what the worker evaluates is what was asked for last. -/
theorem Follows.protocol (follows : Follows s written p) : ∃ floor, Protocol floor p.messages ∧
    ∀ request, p.loop = .listening request → ∃ source e, request = .evaluate source ∧
      Expr.ofSource source = .ok e ∧ floor = .expression e := by
  cases follows with
  | @evaluating _ _ _ _ source e _ _ parsed n protocol =>
    refine ⟨_, protocol, fun request listening => ?_⟩
    cases listening
    exact ⟨source, e, rfl, parsed, rfl⟩
  | starting _ protocol => exact ⟨_, protocol, nofun⟩
  | going _ _ protocol => exact ⟨_, protocol, nofun⟩
  | resting _ protocol => exact ⟨_, protocol, nofun⟩
  | demanding _ _ protocol => exact ⟨_, protocol, nofun⟩
  | late protocol => exact ⟨_, protocol, nofun⟩
  | closing _ _ _ protocol => exact ⟨_, protocol, nofun⟩
  | joining _ _ _ protocol => exact ⟨_, protocol, nofun⟩
  | gone protocol => exact ⟨_, protocol, nofun⟩

/-! ## One step at a time -/

/-- While a request is carried out, and the session not dropped, only one step can be done. -/
theorem Follows.unique {a b : Threads} (follows : Follows s written p)
    (asked : p.loop.request? = some request) (loud : p.loop.isMute = false) (first : Step p a)
    (second : Step p b) : a = b := by
  cases follows with
  | starting => cases asked
  | resting => cases asked
  | gone => cases asked
  | closing => cases loud
  | joining => cases loud
  | going pending going protocol =>
    cases first with
    | work works =>
      cases second with
      | work works' =>
        cases works.symm.trans works'
        rfl
      | halt _ telling => exact (Worker.not_telling_of_works works telling).elim
      | noHalt _ ended => exact absurd ended (going.ne_ended _)
      | _ => contradiction
    | halt waiting telling =>
      cases second with
      | halt waiting' telling' =>
        cases telling.symm.trans telling'
        cases waiting.symm.trans waiting'
        rfl
      | work works => exact (Worker.not_telling_of_works works telling).elim
      | noHalt _ ended => exact absurd ended (going.ne_ended _)
      | _ => contradiction
    | noHalt _ ended => exact absurd ended (going.ne_ended _)
    | _ => contradiction
  | demanding demands rests =>
    cases rests with
    | suspended =>
      cases first with
      | demand demanding takes =>
        cases second with
        | demand demanding' takes' =>
          cases demanding.symm.trans demanding'
          cases takes.symm.trans takes'
          rfl
        | _ => contradiction
      | _ => contradiction
    | finished =>
      cases first with
      | refusal demanding =>
        cases second with
        | refusal demanding' =>
          cases demanding.symm.trans demanding'
          rfl
        | _ => contradiction
      | _ => contradiction
  | evaluating =>
    cases first with
    | work works =>
      cases second with
      | work works' =>
        cases works.symm.trans works'
        rfl
      | outcome _ telling => exact (Worker.not_telling_of_works works telling).elim
      | _ => contradiction
    | outcome listening telling =>
      cases second with
      | outcome listening' telling' =>
        cases telling.symm.trans telling'
        cases listening.symm.trans listening'
        rfl
      | work works => exact (Worker.not_telling_of_works works telling).elim
      | _ => contradiction
    | _ => contradiction
  | late =>
    cases first with
    | noHalt waiting =>
      cases second with
      | noHalt waiting' =>
        cases waiting.symm.trans waiting'
        rfl
      | _ => contradiction
    | _ => contradiction

/-! ## The session is dropped -/

/-- An upper bound for the steps that are still done once the session is being dropped. -/
def left (p : Threads) : Nat :=
  p.worker.left + match p.loop with
    | .closing => 2
    | .joining => 1
    | _ => 0

/-- A step that is done while the session is dropped writes nothing, and brings the end nearer. -/
theorem Follows.step_of_isMute (follows : Follows s written p) (mute : p.loop.isMute = true)
    (step : Step p p') : p'.loop.isMute = true ∧ p'.output = p.output ∧ p'.left < p.left := by
  cases follows with
  | closing here past leaving =>
    cases step with
    | work works =>
      obtain ⟨-, silent, nearer⟩ := leaving.work works
      exact ⟨rfl, silent, Nat.add_lt_add_right nearer 2⟩
    | undemanded listening =>
      obtain ⟨-, silent, nearer⟩ := leaving.abandon (.inl ⟨_, listening⟩)
      exact ⟨rfl, silent, Nat.add_lt_add_right nearer 2⟩
    | close => exact ⟨rfl, rfl, Nat.lt_succ_self _⟩
    | _ => contradiction
  | joining here past leaving =>
    cases step with
    | work works =>
      obtain ⟨-, silent, nearer⟩ := leaving.work works
      exact ⟨rfl, silent, Nat.add_lt_add_right nearer 1⟩
    | undemanded listening =>
      obtain ⟨-, silent, nearer⟩ := leaving.abandon (.inl ⟨_, listening⟩)
      exact ⟨rfl, silent, Nat.add_lt_add_right nearer 1⟩
    | unheard telling =>
      obtain ⟨-, silent, nearer⟩ := leaving.abandon (.inr ⟨_, telling⟩)
      exact ⟨rfl, silent, Nat.add_lt_add_right nearer 1⟩
    | join => exact ⟨rfl, rfl, Nat.lt_succ_self _⟩
    | _ => contradiction
  | gone => cases step <;> contradiction
  | _ => cases mute

theorem Reached.steps (reached : Reached program p) (steps : p.Steps p') : Reached program p' := by
  obtain ⟨table, before⟩ := reached
  exact ⟨table, before.trans steps⟩

/-- Once the session is being dropped nothing is written any more. The steps come to an end, and
both threads with them. -/
theorem Reached.ends_of_isMute (reached : Reached program p) (mute : p.loop.isMute = true) :
    (∀ p', p.Steps p' → p'.output = p.output) ∧
    (¬ ∃ course : Nat → Threads, course 0 = p ∧ ∀ n, Step (course n) (course (n + 1))) ∧
    ∀ p', p.Steps p' → (∀ p'', ¬ Step p' p'') →
      p'.loop = .gone ∧ ∃ world, p'.worker = .ended world := by
  have dropped {p' : Threads} (steps : p.Steps p') :
      p'.loop.isMute = true ∧ p'.output = p.output := by
    induction steps with
    | refl => exact ⟨mute, rfl⟩
    | tail before step ih =>
      obtain ⟨written, s, -, follows⟩ := (reached.steps before).follows
      obtain ⟨mute', silent, -⟩ := follows.step_of_isMute ih.1 step
      exact ⟨mute', silent.trans ih.2⟩
  refine ⟨fun p' steps => (dropped steps).2, ?_, fun p' steps stuck => ?_⟩
  · rintro ⟨course, rfl, onward⟩
    have steps (n : Nat) : (course 0).Steps (course n) := by
      induction n with
      | zero => exact .refl
      | succ n ih => exact ih.tail (onward n)
    have bounded (n : Nat) : (course n).left + n ≤ (course 0).left := by
      induction n with
      | zero => exact Nat.le_refl _
      | succ n ih =>
        obtain ⟨written, s, -, follows⟩ := (reached.steps (steps n)).follows
        have nearer := (follows.step_of_isMute (dropped (steps n)).1 (onward n)).2.2
        omega
    have := bounded ((course 0).left + 1)
    omega
  · obtain ⟨written, s, -, follows⟩ := (reached.steps steps).follows
    have mute' := (dropped steps).1
    cases follows with
    | gone => exact ⟨rfl, _, rfl⟩
    | closing here past leaving protocol =>
      obtain ⟨p'', step⟩ := (Follows.closing here past leaving protocol).progress rfl
      exact absurd step (stuck p'')
    | joining here past leaving protocol =>
      obtain ⟨p'', step⟩ := (Follows.joining here past leaving protocol).progress rfl
      exact absurd step (stuck p'')
    | _ => cases mute'

/-! ## All conversations -/

theorem steps_of_works {worker : Worker} (works : Worker.Works p.breakpoints p.worker worker) :
    p.Steps { p with worker } := by
  induction works with
  | refl => exact .refl
  | tail _ works ih => exact ih.tail (.work works)

section Completion

variable {messages : List Message} {worker : Worker} {phase : Phase} {budget : Nat}

theorem completes_of_going {r : Monitored} (pending : Session.Pending request s r)
    (going : worker.Going r s.breakpoints written) (protocol : Protocol .run messages)
    (answered : (s.answer budget request).isSome) :
    ∃ p', Steps ⟨worker, .waiting request, s.breakpoints, phase, none, messages, log⟩ p' ∧
      Answers s written log request p' := by
  rw [pending.answer, Option.isSome_map, Session.proceed, Option.isSome_map] at answered
  obtain ⟨halt, ran⟩ := Option.isSome_iff_exists.mp answered
  obtain ⟨worker', ⟨event, next⟩, works, going', telling⟩ := going.comes ran
  exact ⟨_, (steps_of_works works).tail (.halt rfl telling),
    answers_of_halt pending going' protocol telling⟩

theorem completes_of_evaluating {pause : Pause} {world : World} {table : Breakpoints}
    {source : String} {e : Expr} (parsed : Expr.ofSource source = .ok e) (n : Nat)
    (protocol : Protocol (.expression e) messages)
    (answered : (Session.answer ⟨.suspended ⟨pause, world⟩, table⟩ budget
      (.evaluate source)).isSome) :
    ∃ p', Steps ⟨.evaluating
        (((Machine.start (.expression e) pause.scope world).after n).prepend written) pause,
      .listening (.evaluate source), table, .suspended, some (pause.node.line, pause.node.kind),
      messages, log⟩ p' ∧
      Answers ⟨.suspended ⟨pause, world⟩, table⟩ written log (.evaluate source) p' := by
  simp only [Session.answer, Stage.allows, Session.carryOut, parsed, if_true] at answered
  obtain ⟨⟨a, text, s'⟩, evaluated⟩ := Option.isSome_iff_exists.mp answered
  obtain ⟨outcome, world', ran, -⟩ := Session.evaluate_eq_some_iff.mp evaluated
  obtain ⟨k, ⟨event, next⟩, works, telling⟩ := Worker.works_evaluating ran n
  exact ⟨_, (steps_of_works works).tail (.outcome rfl telling),
    answers_of_outcome parsed k protocol telling⟩

theorem completes_of_joining {position? : Option (Nat × NodeKind)} {floor : Floor}
    (here : s.stage.phase? = some phase) (past : phase ≠ .started) (leaving : worker.Leaving)
    (protocol : Protocol floor messages) :
    ∃ p', Steps ⟨worker, .joining, s.breakpoints, phase, position?, messages, log⟩ p' ∧
      Answers s worker.world.output log .drop p' := by
  induction near : worker.left using Nat.strongRecOn generalizing worker with
  | ind steps ih =>
    subst near
    obtain ⟨worker', works⟩ | ⟨suspension, rfl⟩ | ⟨told, telling⟩ | ⟨world, rfl⟩ := leaving.progress
    · obtain ⟨leaving', silent, nearer⟩ := leaving.work works
      obtain ⟨p', steps, answers⟩ := ih _ nearer leaving' rfl
      exact ⟨p', .head (.work works) steps, silent ▸ answers⟩
    · obtain ⟨leaving', silent, nearer⟩ := leaving.abandon (.inl ⟨suspension, rfl⟩)
      obtain ⟨p', steps, answers⟩ := ih _ nearer leaving' rfl
      exact ⟨p', .head (.undemanded rfl rfl) steps, silent ▸ answers⟩
    · obtain ⟨leaving', silent, nearer⟩ := leaving.abandon (.inr ⟨told, telling⟩)
      obtain ⟨p', steps, answers⟩ := ih _ nearer leaving' rfl
      exact ⟨p', .head (.unheard telling rfl) steps, silent ▸ answers⟩
    · exact ⟨_, .single (.join rfl rfl), answers_of_join here past protocol⟩

/-- If the session has an answer to the request that is carried out, the threads get there. -/
theorem Follows.completes (follows : Follows s written p)
    (asked : p.loop.request? = some request) (answered : (s.answer budget request).isSome) :
    ∃ p', p.Steps p' ∧ Answers s written p.log request p' := by
  cases follows with
  | starting => cases asked
  | resting => cases asked
  | gone => cases asked
  | going pending going protocol =>
    cases asked
    exact completes_of_going pending going protocol answered
  | evaluating parsed n protocol =>
    cases asked
    exact completes_of_evaluating parsed n protocol answered
  | late protocol =>
    cases asked
    exact ⟨_, .single (.noHalt rfl rfl), answers_of_late protocol⟩
  | closing here past leaving protocol =>
    cases asked
    obtain ⟨p', steps, answers⟩ := completes_of_joining here past leaving protocol
    exact ⟨p', .head (.close rfl) steps, answers⟩
  | joining here past leaving protocol =>
    cases asked
    exact completes_of_joining here past leaving protocol
  | demanding demands rests protocol =>
    cases asked
    cases rests with
    | finished world => exact ⟨_, .single (.refusal rfl rfl), answers_of_refusal demands protocol⟩
    | @suspended pause world _ taken =>
      cases demands with
      | evaluate parsed =>
        obtain ⟨p', steps, answers⟩ :=
          completes_of_evaluating parsed 0 (.evaluate _ protocol) answered
        exact ⟨p', .head (.demand rfl rfl) steps, answers⟩
      | resume =>
        obtain ⟨p', steps, answers⟩ :=
          completes_of_going .resume (.resuming rfl) (.resume protocol) answered
        exact ⟨p', .head (.demand rfl rfl) steps, answers⟩

/-- Any request that the command loop makes is answered if the session has an answer. -/
theorem Follows.answers {answer : Answer} {text : String} {s' : Session}
    (follows : Follows s written p) (free : p.loop.request? = none)
    (here : s.stage.phase? = some phase) (permitted : phase.permits request = true)
    (answered : s.answer budget request = some (answer, text, s')) :
    ∃ p', p.Steps p' ∧ p'.log = ⟨request, answer, written ++ text⟩ :: p.log ∧
      Follows s' (written ++ text) p' ∧ p'.loop.request? = none := by
  have some_answer : (s.answer budget request).isSome := by
    rw [answered]
    rfl
  obtain ⟨p', steps, here', permitted', answered', follows', logged, free'⟩ :
      ∃ p', p.Steps p' ∧ Answers s written p.log request p' := by
    cases follows with
    | starting going protocol =>
      cases here
      cases request with
      | wait =>
        obtain ⟨p', steps, answers⟩ := completes_of_going .wait going protocol some_answer
        exact ⟨p', .head (.call rfl permitted) steps, answers⟩
      | _ => cases permitted
    | resting rests protocol =>
      cases here.symm.trans rests.phase?.1
      obtain answers | carries := answers_or_carries_of_call rests protocol permitted
      · exact ⟨_, .single (.call rfl permitted), answers⟩
      · obtain ⟨p', steps, answers⟩ := carries.follows.completes carries.asked some_answer
        exact ⟨p', .head (.call rfl permitted) steps, carries.logged ▸ answers⟩
    | gone => cases here
    | _ => cases free
  cases Session.answer_unique answered answered'
  exact ⟨p', steps, logged, follows', free'⟩

/-- Whatever one session answers, the two threads can come to answer. -/
theorem exists_reached_of_converses (converses : Session.Converses program log written s) :
    ∃ p, Reached program p ∧ p.log = log ∧ Follows s written p ∧ p.loop.request? = none := by
  induction converses with
  | start table => exact ⟨_, ⟨table, .refl⟩, rfl, follows_start program table, rfl⟩
  | answer _ here permitted answered ih =>
    obtain ⟨p, reached, rfl, follows, free⟩ := ih
    obtain ⟨p', steps, logged, follows', free'⟩ := follows.answers free here permitted answered
    exact ⟨p', reached.steps steps, logged, follows', free'⟩

end Completion

/-! ## Two threads keep one session -/

theorem call_worker (p : Threads) (request : Request) : (p.call request).worker = p.worker := by
  cases request with
  | evaluate source =>
    rw [call]
    split <;> rfl
  | insert line condition? =>
    rw [call]
    split <;> rfl
  | _ => rfl

/-- Only what the worker does by itself writes anything. -/
theorem Step.output_eq (step : Step p p') : p'.output = p.output ∨
    ∃ worker, p.worker.work? p.breakpoints = some worker ∧ p'.output = worker.world.output := by
  cases step with
  | work works => exact .inr ⟨_, works, rfl⟩
  | call => exact .inl (congrArg (·.world.output) (call_worker _ _))
  | @demand request demand worker demanding takes =>
    have same := congrArg World.output (Worker.world_of_take? takes)
    cases demand <;> exact .inl same
  | @refusal request demand => cases demand <;> exact .inl rfl
  | @outcome request event worker listening telling =>
    have same := congrArg World.output (Worker.world_of_telling? telling)
    cases event <;> exact .inl same
  | @halt request event worker waiting telling =>
    have same := congrArg World.output (Worker.world_of_telling? telling)
    cases event <;> exact .inl same
  | noOutcome => exact .inl rfl
  | noHalt => exact .inl rfl
  | undemanded => exact .inl (congrArg World.output (Worker.world_abandon _))
  | unheard => exact .inl (congrArg World.output (Worker.world_abandon _))
  | close => exact .inl rfl
  | join => exact .inl rfl

/-- The threads take turns. -/
structure Orderly (p : Threads) : Prop where
  /-- While a request is carried out, they are not both held up. -/
  progress : ∀ request, p.loop.request? = some request → ∃ p', Step p p'
  /-- Unless the session is being dropped, there is only one step for them to do. -/
  unique : ∀ request, p.loop.request? = some request → p.loop.isMute = false →
    ∀ a b, Step p a → Step p b → a = b
  /-- The worker works only if the command loop waits for it or is about to, or in order to leave a
  run that is dropped. -/
  works : ∀ worker, p.worker.work? p.breakpoints = some worker →
    p.loop = .idle ∧ p.phase = .started ∨ p.loop.awaits = true ∨ p.loop.isMute = true
  /-- While the command loop does anything else nothing is written. -/
  silent : ∀ p', Step p p' → p'.output ≠ p.output →
    p.loop = .idle ∧ p.phase = .started ∨ p.loop.awaits = true
  /-- Each request to evaluate an expression is followed by one event, with the outcome of that
  expression. -/
  protocol : ∃ floor, Protocol floor p.messages ∧
    ∀ request, p.loop = .listening request → ∃ source e, request = .evaluate source ∧
      Expr.ofSource source = .ok e ∧ floor = .expression e
  /-- Whoever waits for a halt is told nothing else. -/
  halt : ∀ request event worker, p.loop = .waiting request →
    p.worker.telling? = some (event, worker) → ∀ outcome, event ≠ .evaluated outcome
  /-- Whoever waits for the outcome of an expression is told nothing else. -/
  outcome : ∀ request event worker, p.loop = .listening request →
    p.worker.telling? = some (event, worker) → ∃ outcome, event = .evaluated outcome
  /-- Once the run has finished nothing comes of any request, and nothing is written. -/
  late : ∀ later x earlier, p.log = later ++ x :: earlier → (∃ y ∈ earlier, y.Finishes) →
    x.Late ∧ earlier.head?.map (·.output) = some x.output
  /-- Once the session is being dropped nothing is written, and both threads come to an end. -/
  dropped : p.loop.isMute = true →
    (∀ p', p.Steps p' → p'.output = p.output) ∧
    (¬ ∃ course : Nat → Threads, course 0 = p ∧ ∀ n, Step (course n) (course (n + 1))) ∧
    ∀ p', p.Steps p' → (∀ p'', ¬ Step p' p'') →
      p'.loop = .gone ∧ ∃ world, p'.worker = .ended world

theorem Reached.orderly (reached : Reached program p) : p.Orderly := by
  obtain ⟨written, s, converses, follows⟩ := reached.follows
  exact {
    progress _ := follows.progress
    unique _ asked loud _ _ := follows.unique asked loud
    works _ works := (follows.works works).imp id (Or.imp id And.left)
    silent p' step writes := by
      obtain same | ⟨worker, works, same⟩ := step.output_eq
      · exact absurd same writes
      · obtain starting | awaits | ⟨-, silent⟩ := follows.works works
        · exact .inl starting
        · exact .inr awaits
        · exact absurd (same.trans silent) writes
    protocol := follows.protocol
    halt _ _ _ := follows.halt
    outcome _ _ _ := follows.outcome
    late _ _ _ logged := (logged ▸ converses).late_of_finishes
    dropped := reached.ends_of_isMute }

/-- Two threads keep one session. Whatever they come to, they take turns; and what is asked and
answered, and written by then, is just what can be asked of one session. -/
theorem keep_one_session (program : Program) :
    (∀ p, Reached program p → p.Orderly) ∧
    ∀ log, (∃ p, Reached program p ∧ p.log = log) ↔
      ∃ written s, Session.Converses program log written s := by
  refine ⟨fun p reached => reached.orderly, fun log => ⟨?_, ?_⟩⟩
  · rintro ⟨p, reached, rfl⟩
    obtain ⟨written, s, converses, -⟩ := reached.follows
    exact ⟨written, s, converses⟩
  · rintro ⟨written, s, converses⟩
    obtain ⟨p, reached, logged, -⟩ := exists_reached_of_converses converses
    exact ⟨p, reached, logged⟩

/-- A program that prints a number. -/
def printing : Program :=
  ⟨⟨[.expression (.call "println" [.literal 7 1] 1)], 1⟩, 1⟩

/-- The run is waited for up to its end. An expression that is to be evaluated then is not. -/
theorem keep_one_session_of_printing : ∃ p x y, Reached printing p ∧ p.log = [x, y] ∧ y.Finishes ∧
    y.output = "7\n" ∧ p.Orderly ∧ x.request = .evaluate "1" ∧
      x.answer = .evaluated (.error .stopped) ∧ x.output = "7\n" := by
  have numeral : Text.ofInt32 1 = "1" := rfl
  have program := Program.ofSource_ofInt32 (by decide : (0 : Int32) ≤ 1)
  have parsed : Expr.ofSource "1" = .ok (.literal 1 1) :=
    Expr.ofSource_of_program (numeral ▸ program) rfl
  have waited : (Session.start printing .empty).answer 50 .wait =
      some (.standing (.finished (.ok 0)), "7\n", ⟨.finished, .empty⟩) := by
    rfl
  have asked : Session.answer ⟨.finished, .empty⟩ 0 (.evaluate "1") =
      some (.evaluated (.error .stopped), "", ⟨.finished, .empty⟩) := by
    simp only [Session.answer, Stage.allows, Session.carryOut, parsed, if_true]
    rfl
  have converses := ((Session.Converses.start .empty).answer rfl rfl waited).answer rfl rfl asked
  obtain ⟨p, reached, logged⟩ := ((keep_one_session printing).2 _).mpr ⟨_, _, converses⟩
  have orderly := (keep_one_session printing).1 p reached
  obtain ⟨late, same⟩ := orderly.late [] _ _ logged ⟨_, List.mem_singleton_self _, _, rfl⟩
  exact ⟨p, _, _, reached, logged, ⟨_, rfl⟩, rfl, orderly, rfl, late _ parsed,
    (Option.some.inj same).symm⟩

end Threads

end FunLanguage
