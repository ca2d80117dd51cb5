import FunLanguage.Proofs.Commands
import FunLanguage.Proofs.Nodes
import FunLanguage.Transcript
import Mathlib.Logic.Relation

/-!
# States of a debugger

A debugger starts out with nothing, and carries out commands, lines of input and whole inputs
(`Debugger.Reached`). All of these come down to commands (`Debugger.Reached.comes`), and what a
command can make of a debugger is told by `Debugger.Turn`: a command that keeps the suspended run
asks of it what can be asked of a session. So the suspended run, with the breakpoints, is a session
of the program that is loaded (`Debugger.Sound`).
-/

namespace FunLanguage

/-! ## Breakpoints that suspend a run -/

namespace Monitored

variable {table : Breakpoints} {r : Monitored}

/-- The run comes to the visit. There is a breakpoint on the line of its node, and the condition of
that has a value other than 0 in the scope of the visit. -/
def StoppedAt (table : Breakpoints) (r : Monitored) (s : Suspension) : Prop :=
  ∃ n world breakpoint value, r.after table n = .running (s.pause.machine world) ∧
    s.pause.node.isVisited = true ∧ table.get? s.line = some breakpoint ∧
    (Machine.start (.expression breakpoint.condition) s.pause.scope world).Ends (.ok value)
        s.world ∧
    value ≠ 0

/-- Whatever is being tested is the condition of a breakpoint, at a visit that the run has come to;
and the run is suspended where such a condition holds. -/
def Justified (table : Breakpoints) (r : Monitored) : Monitored → Prop
  | testing condition pause => ∃ n k world breakpoint,
      r.after table n = .running (pause.machine world) ∧ pause.node.isVisited = true ∧
      table.get? pause.node.line = some breakpoint ∧
      condition = (Machine.start (.expression breakpoint.condition) pause.scope world).after k
  | suspended s => StoppedAt table r s
  | _ => True

theorem justified_after {m : Machine} (n : Nat) :
    Justified table (.running m) ((running m).after table n) := by
  induction n with
  | zero => trivial
  | succ n ih =>
    rw [after_succ_eq_step]
    cases now : (running m).after table n with
    | running m' =>
      rw [Monitored.step]
      obtain ⟨pause, world, breakpoint, rfl, visited, found, next⟩ | next | ⟨outcome, -, next⟩ :=
        advance_cases table m'
      · rw [next]
        exact ⟨n, 0, world, breakpoint, now, visited, found, rfl⟩
      · rw [next]
        trivial
      · rw [next]
        trivial
    | testing condition pause =>
      rw [now] at ih
      obtain ⟨n', k, world, breakpoint, there, visited, found, rfl⟩ := ih
      rw [Monitored.step]
      split
      · next outcome ended =>
        cases outcome with
        | error fault => trivial
        | ok value =>
          rw [settle]
          split
          · trivial
          · next nonzero =>
            exact ⟨n', world, breakpoint, value, there, visited, found,
              Machine.ends_iff.mpr ⟨k, ended, rfl⟩, nonzero⟩
      · exact ⟨n', k + 1, world, breakpoint, there, visited, found,
          (Machine.after_succ_eq_step ..).symm⟩
    | suspended s =>
      rw [now] at ih
      exact ih
    | finished outcome world => trivial

/-- Only the condition of a breakpoint suspends a run that is under way. -/
theorem stoppedAt_of_run {m : Machine} {budget : Nat} {s : Suspension}
    (ran : (running m).run table budget = some (.suspended s)) :
    StoppedAt table (.running m) s := by
  obtain ⟨n, there⟩ := exists_after_of_run ran
  have justified : Justified table (.running m) (after table n (.running m)) := justified_after n
  rw [there] at justified
  exact justified

end Monitored

/-! ## Commands, lines and inputs -/

/-- The breakpoint is the unconditional one, or its description is the text of its condition. -/
def Breakpoint.Described (b : Breakpoint) : Prop :=
  b = .unconditional ∨ Expr.ofSource b.description = .ok b.condition

theorem Breakpoint.described_of_ofText? {condition? : Option String} {b : Breakpoint}
    (made : Breakpoint.ofText? condition? = .ok b) : b.Described := by
  cases condition? with
  | none =>
    cases made
    exact .inl rfl
  | some text =>
    rw [ofText?, ofText] at made
    cases parsed : Expr.ofSource text with
    | error e =>
      rw [parsed] at made
      cases made
    | ok e =>
      rw [parsed] at made
      cases made
      exact .inr parsed

namespace Debugger

/-- What a debugger can come to, whatever its host gives it at each moment. -/
inductive Reached : Debugger → Prop
  | new : Reached {}
  | command {d : Debugger} {budget : Nat} {host : Host} {command : Command} {reply : Reply}
      (before : Reached d) (executed : d.execute budget host command = some reply) :
      Reached reply.debugger
  | line {d d' : Debugger} {budget : Nat} {host : Host} {line text : String} (before : Reached d)
      (executed : d.executeLine budget host line = some (d', text)) : Reached d'
  | input {d d' : Debugger} {budget : Nat} {host : Host} {input : List UInt8} {text : String}
      (before : Reached d) (executed : d.transcript budget host input = some (d', text)) :
      Reached d'

/-- A command makes the other debugger of this one. -/
def Step (d d' : Debugger) : Prop :=
  ∃ budget host command reply, d.execute budget host command = some reply ∧ reply.debugger = d'

/-- Commands make the other debugger of this one. -/
abbrev Comes : Debugger → Debugger → Prop :=
  Relation.ReflTransGen Step

variable {d d' : Debugger} {budget : Nat} {host : Host} {command : Command} {reply : Reply}

theorem comes_of_executeLine {line text : String}
    (executed : d.executeLine budget host line = some (d', text)) : d.Comes d' := by
  rw [executeLine] at executed
  split at executed
  · cases executed
    exact .refl
  · cases executed
    exact .refl
  · next command extra _ =>
    obtain ⟨reply, ran, told⟩ := Option.map_eq_some_iff.mp executed
    refine .single ⟨budget, host, command, reply, ran, ?_⟩
    cases failed : reply.error? <;> rw [failed] at told <;> exact congrArg Prod.fst told
  · cases executed
    exact .refl

theorem comes_of_respondEach {lines : List String} {text : String}
    (executed : d.respondEach budget host lines = some (d', text)) : d.Comes d' := by
  induction lines generalizing d text with
  | nil =>
    cases executed
    exact .refl
  | cons line lines ih =>
    simp only [respondEach, respond, Option.bind_eq_bind, Option.bind_eq_some_iff,
      Option.map_eq_some_iff, Prod.exists] at executed
    obtain ⟨next, shown, ⟨_, written, first, responded⟩, last, rest, others, told⟩ := executed
    cases responded
    cases told
    exact (comes_of_executeLine first).trans (ih others)

theorem comes_of_converse {lines : List String} {text : String}
    (executed : d.converse budget host lines = some (d', text)) : d.Comes d' := by
  obtain ⟨⟨last, shown⟩, responded, told⟩ := Option.map_eq_some_iff.mp executed
  cases told
  exact comes_of_respondEach responded

theorem comes_of_transcript {input : List UInt8} {text : String}
    (executed : d.transcript budget host input = some (d', text)) : d.Comes d' := by
  obtain ⟨⟨last, written⟩, conversed, told⟩ := Option.map_eq_some_iff.mp executed
  cases told
  exact (comes_of_converse conversed).tail
    ⟨budget, host, .stop, { debugger := last.stop }, rfl, rfl⟩

theorem Reached.comes (h : Reached d) : Comes {} d := by
  induction h with
  | new => exact .refl
  | command _ executed ih => exact ih.tail ⟨_, _, _, _, executed, rfl⟩
  | line _ executed ih => exact ih.trans (comes_of_executeLine executed)
  | input _ executed ih => exact ih.trans (comes_of_transcript executed)

theorem reached_of_comes (h : Comes {} d) : Reached d := by
  induction h with
  | refl => exact .new
  | tail _ step ih =>
    obtain ⟨budget, host, command, reply, executed, rfl⟩ := step
    exact .command ih executed

/-! ## What a command makes of a debugger -/

/-- What the command can make of the debugger. -/
inductive Turn (d : Debugger) (host : Host) (command : Command) : Debugger → Prop
  | same (quiet : ∀ r, ¬ d.Begins host command r) : Turn d host command d
  | loaded (program : Program) : Turn d host command { program? := some program }
  | inserted {condition? : Option String} {breakpoint : Breakpoint} (line : Nat)
      (made : Breakpoint.ofText? condition? = .ok breakpoint)
      (quiet : ∀ r, ¬ d.Begins host command r) :
      Turn d host command { d with breakpoints := d.breakpoints.insert line breakpoint }
  | removed (line : Nat) (quiet : ∀ r, ¬ d.Begins host command r) :
      Turn d host command { d with breakpoints := d.breakpoints.remove line }
  | evaluated {text : String} {e : Expr} {s s' : Suspension} {budget : Nat}
      {outcome : Except Fault Int32} (here : d.suspension? = some s)
      (parsed : Expr.ofSource text = .ok e) (ran : s.evaluate budget e = some (outcome, s'))
      (quiet : ∀ r, ¬ d.Begins host command r) :
      Turn d host command { d with suspension? := some s'.takeOutput.2 }
  | suspended {r : Monitored} {s : Suspension} {budget : Nat} (begins : d.Begins host command r)
      (ran : r.run d.breakpoints budget = some (.suspended s)) :
      Turn d host command { d with suspension? := some s.takeOutput.2 }
  | stopped : Turn d host command d.stop

/-- It makes no difference whether there was a suspended run before. -/
theorem turn_of_proceed {r : Monitored} {d₁ : Debugger} (begins : d.Begins host command r)
    (same : d₁.stop = d.stop) (executed : d₁.proceed budget r = some reply) :
    d.Turn host command reply.debugger := by
  obtain ⟨program?, breakpoints, suspension?⟩ := d
  obtain ⟨program?', breakpoints', suspension?'⟩ := d₁
  cases same
  obtain ⟨halt, ran, told⟩ := Option.map_eq_some_iff.mp executed
  cases halt with
  | suspended s =>
    cases told
    exact .suspended begins ran
  | finished outcome world =>
    cases outcome <;> cases told <;> exact .stopped

theorem not_begins (quiet : command ≠ .run ∧ command ≠ .resume) (r : Monitored) :
    ¬ d.Begins host command r := by
  intro begins
  cases begins with
  | run => exact quiet.1 rfl
  | resume => exact quiet.2 rfl

theorem turn_of_execute (executed : d.execute budget host command = some reply) :
    d.Turn host command reply.debugger := by
  cases command with
  | load path =>
    cases executed
    rw [load]
    split
    · exact .same (not_begins (by simp))
    · exact .same (not_begins (by simp))
    · split
      · exact .same (not_begins (by simp))
      · next program _ => exact .loaded program
  | breakpoint line =>
    cases executed
    have made : Breakpoint.ofText? none = .ok .unconditional := rfl
    exact .inserted line made (not_begins (by simp))
  | condition line text =>
    rw [execute] at executed
    split at executed
    · cases executed
      exact .same (not_begins (by simp))
    · split at executed
      · cases executed
        exact .same (not_begins (by simp))
      · next breakpoint made =>
        cases executed
        have made : Breakpoint.ofText? (some text) = .ok breakpoint := made
        exact .inserted line made (not_begins (by simp))
  | list =>
    cases executed
    exact .same (not_begins (by simp))
  | remove line =>
    cases executed
    exact .removed line (not_begins (by simp))
  | run =>
    rw [execute] at executed
    split at executed
    · next missing =>
      cases executed
      refine .same fun r begins => ?_
      cases begins with
      | run loaded => cases missing.symm.trans loaded
    · next program loaded =>
      rw [start] at executed
      split at executed
      · cases executed
        exact .stopped
      · next started => exact turn_of_proceed (.run loaded started) rfl executed
  | evaluate text =>
    rw [execute, evaluate] at executed
    split at executed
    · cases executed
      exact .same (not_begins (by simp))
    · next s here =>
      split at executed
      · cases executed
        exact .same (not_begins (by simp))
      · next e parsed =>
        obtain ⟨⟨outcome, s'⟩, ran, told⟩ := Option.map_eq_some_iff.mp executed
        cases outcome <;> cases told <;> exact .evaluated here parsed ran (not_begins (by simp))
  | stop =>
    cases executed
    exact .stopped
  | resume =>
    rw [execute] at executed
    split at executed
    · next idle =>
      cases executed
      refine .same fun r begins => ?_
      cases begins with
      | resume suspended => cases idle.symm.trans suspended
    · next s suspended => exact turn_of_proceed (.resume suspended) rfl executed

/-! ## The suspended run is a session of the program -/

/-- The suspended run, with the breakpoints, is a session of the program that is loaded; and the
breakpoints are what they are described as. -/
structure Sound (d : Debugger) : Prop where
  session : ∀ s, d.suspension? = some s → ∃ program, d.program? = some program ∧
    Session.Reached program ⟨.suspended s, d.breakpoints⟩
  described : ∀ entry ∈ d.breakpoints.entries, entry.2.Described

theorem sound_of_loaded (program? : Option Program) : Sound { program? } :=
  ⟨nofun, nofun⟩

theorem Turn.sound (turn : d.Turn host command d') (h : d.Sound) : d'.Sound := by
  cases turn with
  | same => exact h
  | loaded program => exact sound_of_loaded program
  | @inserted condition? breakpoint line made =>
    refine ⟨fun s here => ?_, fun entry mem => ?_⟩
    · obtain ⟨program, loaded, session⟩ := h.session s here
      have answered : Session.answer ⟨.suspended s, d.breakpoints⟩ 0 (.insert line condition?) =
          some (.inserted (d.breakpoints.contains line), "",
            ⟨.suspended s, d.breakpoints.insert line breakpoint⟩) := by
        simp only [Session.answer, Stage.allows, Session.carryOut, made, if_true]
      exact ⟨program, loaded, session.answer answered⟩
    · rcases Breakpoints.mem_of_mem_put mem with rfl | mem
      · exact Breakpoint.described_of_ofText? made
      · exact h.described entry mem
  | removed line =>
    refine ⟨fun s here => ?_, fun entry mem => h.described entry (List.mem_filter.mp mem).1⟩
    obtain ⟨program, loaded, session⟩ := h.session s here
    have answered : Session.answer ⟨.suspended s, d.breakpoints⟩ 0 (.remove line) =
        some (.removed (d.breakpoints.contains line), "",
          ⟨.suspended s, d.breakpoints.remove line⟩) := rfl
    exact ⟨program, loaded, session.answer answered⟩
  | @evaluated text e s s' budget outcome here parsed ran =>
    refine ⟨fun s₁ same => ?_, h.described⟩
    cases same
    obtain ⟨program, loaded, session⟩ := h.session s here
    have answered : Session.answer ⟨.suspended s, d.breakpoints⟩ budget (.evaluate text) =
        some (.evaluated outcome, s'.takeOutput.1,
          ⟨.suspended s'.takeOutput.2, d.breakpoints⟩) := by
      simp only [Session.answer, Stage.allows, Session.carryOut, Session.evaluate, parsed, ran,
        if_true, Option.map_some]
    exact ⟨program, loaded, session.answer answered⟩
  | @suspended r s budget begins ran =>
    refine ⟨fun s₁ same => ?_, h.described⟩
    cases same
    have proceeds (before : Session) (table : before.breakpoints = d.breakpoints) :
        before.proceed budget r = some (.suspended s.line s.kind, s.takeOutput.1,
          ⟨.suspended s.takeOutput.2, d.breakpoints⟩) := by
      obtain ⟨stage, breakpoints⟩ := before
      cases table
      rw [Session.proceed, ran]
      rfl
    cases begins with
    | @run program loaded =>
      have answered : (Session.start program d.breakpoints).answer budget .wait =
          some (.standing (.suspended s.line s.kind), s.takeOutput.1,
            ⟨.suspended s.takeOutput.2, d.breakpoints⟩) := by
        rw [Session.start, Session.Pending.wait.answer, proceeds _ rfl]
        rfl
      exact ⟨program, loaded, (Session.Reached.start d.breakpoints).answer answered⟩
    | @resume s₀ here =>
      obtain ⟨program, loaded, session⟩ := h.session s₀ here
      have answered : Session.answer ⟨.suspended s₀, d.breakpoints⟩ budget .resume =
          some (.standing (.suspended s.line s.kind), s.takeOutput.1,
            ⟨.suspended s.takeOutput.2, d.breakpoints⟩) := by
        rw [Session.Pending.resume.answer, proceeds _ rfl]
        rfl
      exact ⟨program, loaded, session.answer answered⟩
  | stopped => exact ⟨fun _ same => absurd same (by simp [stop]), h.described⟩

theorem Reached.sound (h : Reached d) : d.Sound := by
  have comes := h.comes
  clear h
  induction comes with
  | refl => exact sound_of_loaded none
  | tail _ step ih =>
    obtain ⟨budget, host, command, reply, executed, rfl⟩ := step
    exact (turn_of_execute executed).sound ih

/-! ## How a run came to be suspended -/

/-- A command that lets no run go makes the other debugger of this one, and the run is suspended
there as before. -/
def Waits (pause : Pause) (d d' : Debugger) : Prop :=
  ∃ budget host command reply, d.execute budget host command = some reply ∧ reply.debugger = d' ∧
    (∀ r, ¬ d.Begins host command r) ∧ ∃ s, d'.suspension? = some s ∧ s.pause = pause

/-- Some command let a run go. The run was suspended in front of the node by a breakpoint that the
table held by then; and since then the run has not been let go on. -/
def StoppedBefore (d : Debugger) (pause : Pause) : Prop :=
  ∃ d₀ budget host command reply r s, Reached d₀ ∧
    d₀.execute budget host command = some reply ∧ d₀.Begins host command r ∧
    Monitored.StoppedAt d₀.breakpoints r s ∧ s.pause = pause ∧
    reply.debugger.suspension? = some s.takeOutput.2 ∧
    Relation.ReflTransGen (Waits pause) reply.debugger d

theorem Begins.stoppedAt {r : Monitored} {s : Suspension} (begins : d.Begins host command r)
    (ran : r.run d.breakpoints budget = some (.suspended s)) :
    Monitored.StoppedAt d.breakpoints r s := by
  cases begins with
  | run => exact Monitored.stoppedAt_of_run ran
  | resume => exact Monitored.stoppedAt_of_run ran

theorem stoppedBefore_of_comes (comes : Comes {} d) :
    ∀ s, d.suspension? = some s → d.StoppedBefore s.pause := by
  induction comes with
  | refl => exact nofun
  | @tail d d' comes step ih =>
    obtain ⟨budget, host, command, reply, executed, rfl⟩ := step
    intro s here
    -- A command that lets no run go adds to what has happened since the run was suspended.
    have waits {s₀ : Suspension} (before : d.suspension? = some s₀) (same : s.pause = s₀.pause)
        (quiet : ∀ r, ¬ d.Begins host command r) : reply.debugger.StoppedBefore s.pause := by
      obtain ⟨d₀, b, rd, c, rep, r, s₁, reached, launched, begins, stopped, there, kept, since⟩ :=
        ih s₀ before
      exact ⟨d₀, b, rd, c, rep, r, s₁, reached, launched, begins, stopped, there.trans same.symm,
        kept, same ▸ since.tail ⟨budget, host, command, reply, executed, rfl, quiet, s, here, same⟩⟩
    have turn := turn_of_execute executed
    generalize became : reply.debugger = d' at turn here
    cases turn with
    | same quiet => exact became ▸ waits here rfl quiet
    | loaded program => cases here
    | inserted line made quiet => exact became ▸ waits here rfl quiet
    | removed line quiet => exact became ▸ waits here rfl quiet
    | @evaluated text e s₀ s' budget' outcome before parsed ran quiet =>
      cases here
      obtain ⟨⟨outcome', world⟩, -, left⟩ := Option.map_eq_some_iff.mp ran
      cases left
      exact became ▸ waits before rfl quiet
    | @suspended r s₀ budget' begins ran =>
      cases here
      exact ⟨d, budget, host, command, reply, r, s₀, reached_of_comes comes, executed, begins,
        begins.stoppedAt ran, rfl, by rw [became], became ▸ .refl⟩
    | stopped => cases here

/-! ## The invariant -/

/-- The debugger has suspended a run of the program. -/
structure HasSuspended (d : Debugger) (program : Program) (s : Suspension) : Prop where
  loaded : d.program? = some program
  /-- A session of the program, under the breakpoints that there are now, is suspended there. -/
  session : Session.Reached program ⟨.suspended s, d.breakpoints⟩
  node : (Node.program program).Has s.pause.node
  kind : s.kind ≠ .program ∧ s.kind ≠ .literal
  prompt : d.prompt = "line=" ++ toString s.line ++ ",elementType=" ++ s.kind.name ++ ">"
  stoppedBefore : d.StoppedBefore s.pause
  /-- If the run is abandoned, it ends without another word. -/
  abandoned : ∃ world, world.output = "" ∧
    Machine.Ends ⟨.raise .stopped, s.pause.stack, s.world⟩ (.error .stopped) world

theorem StoppedBefore.isVisited {pause : Pause} (h : d.StoppedBefore pause) :
    pause.node.isVisited = true := by
  obtain ⟨_, _, _, _, _, _, s, -, -, -, stopped, rfl, -⟩ := h
  obtain ⟨_, _, _, _, -, visited, -⟩ := stopped
  exact visited

theorem Reached.hasSuspended {s : Suspension} (h : Reached d) (here : d.suspension? = some s) :
    ∃ program, d.HasSuspended program s := by
  obtain ⟨program, loaded, session⟩ := h.sound.session s here
  have stoppedBefore := stoppedBefore_of_comes h.comes s here
  have inside : (s.pause.machine s.world).Over (Node.program program).Has := session.staysOver
  obtain ⟨world, silent, unwound⟩ :=
    Machine.after_raise (show Fault.Passing .stopped from nofun) s.pause.stack s.world
      s.pause.stack.length
  rw [List.drop_length] at unwound
  refine ⟨program, loaded, session, inside.control _ _ rfl,
    Node.kind_of_isVisited stoppedBefore.isVisited, by rw [prompt, here], stoppedBefore, world,
    silent.trans session.coherent.2,
    Machine.ends_iff.mpr ⟨_, by rw [unwound]; rfl, by rw [unwound]⟩⟩

/-- Only a debugger without a suspended run has a bare prompt. -/
theorem isSuspended_iff_prompt : d.isSuspended = true ↔ d.prompt ≠ ">" := by
  rw [isSuspended, prompt]
  cases d.suspension? with
  | none => simp
  | some s => simp [← String.toList_inj]

/-- Whatever a debugger has been told, a run that is suspended is one of the program that is loaded.
It waits in front of a node of the program, which the prompt shows, and it has come to wait there
because of a breakpoint whose condition held. The breakpoints are what they are described as. To
stop, to load another program and to come to the end of the input leave no run suspended, and what
is written does not depend on the run that is abandoned. -/
theorem invariant_of_reached (h : Reached d) :
    (∀ s, d.suspension? = some s → ∃ program, d.HasSuspended program s) ∧
    (d.isSuspended = true ↔ d.prompt ≠ ">") ∧
    (∀ entry ∈ d.breakpoints.entries, entry.2.Described) ∧
    ∀ budget host,
      d.execute budget host .stop = some { debugger := d.stop } ∧ d.stop.isSuspended = false ∧
      (∀ path reply, d.execute budget host (.load path) = some reply → reply.error? = none →
        reply.debugger.isSuspended = false ∧ reply.output = Notice.loaded.text) ∧
      (d.program? ≠ none → d.execute budget host .run = d.stop.execute budget host .run) ∧
      ∀ input last text, d.transcript budget host input = some (last, text) →
        last.isSuspended = false ∧ ∃ d', Reached d' ∧ last = d'.stop ∧
          d.converse budget host (Text.linesOfBytes input) = some (d', text) := by
  refine ⟨fun s here => h.hasSuspended here, isSuspended_iff_prompt, h.sound.described,
    fun budget host => ⟨rfl, rfl, fun path reply executed fine => ?_, fun loaded => ?_,
      fun input last text executed => ?_⟩⟩
  · cases executed
    rw [load] at fine ⊢
    split at fine
    · cases fine
    · cases fine
    · split at fine
      · cases fine
      · exact ⟨rfl, rfl⟩
  · obtain ⟨program, loaded⟩ := Option.ne_none_iff_exists'.mp loaded
    have loaded' : d.stop.program? = some program := loaded
    rw [execute, execute, loaded, loaded']
    rfl
  · obtain ⟨⟨d', written⟩, conversed, told⟩ := Option.map_eq_some_iff.mp executed
    cases told
    exact ⟨rfl, d', reached_of_comes (h.comes.trans (comes_of_converse conversed)), rfl, conversed⟩

/-- A program is loaded, gets a breakpoint on its only line, and is suspended there. -/
theorem invariant_of_reached_suspended : ∃ d s program, Reached d ∧ d.suspension? = some s ∧
    d.HasSuspended program s ∧ d.prompt = "line=1,elementType=Block>" := by
  let host : Host := { read := fun _ => .ok "x" }
  have name : IsName "x" := ⟨⟨'x', [], rfl, by decide, by simp⟩, rfl⟩
  have parsed : Program.ofSource "x" = .ok ⟨⟨[.expression (.identifier "x" 1)], 1⟩, 1⟩ :=
    name.ofSource
  let program : Program := ⟨⟨[.expression (.identifier "x" 1)], 1⟩, 1⟩
  let stopping : Debugger :=
    { program? := some program, breakpoints := Breakpoints.empty.insert 1 .unconditional }
  have loaded : execute {} 0 host (.load "x") =
      some { debugger := { program? := some program }, output := Notice.loaded.text } := by
    simp only [execute, load, host, parsed, program]
  have inserted : execute { program? := some program } 0 host (.breakpoint 1) =
      some { debugger := stopping } := rfl
  have ran : (stopping.execute 50 host .run).map (·.debugger.prompt) =
      some "line=1,elementType=Block>" := by
    decide +kernel
  obtain ⟨reply, executed, prompt⟩ := Option.map_eq_some_iff.mp ran
  have reached : Reached reply.debugger :=
    .command (.command (.command .new loaded) inserted) executed
  have suspended : reply.debugger.isSuspended = true :=
    (invariant_of_reached reached).2.1.mpr (by rw [prompt]; decide)
  obtain ⟨s, here⟩ := Option.isSome_iff_exists.mp suspended
  obtain ⟨program, has⟩ := (invariant_of_reached reached).1 s here
  exact ⟨reply.debugger, s, program, reached, here, has, prompt⟩

end Debugger

end FunLanguage
