import FunLanguage.Debugger
import FunLanguage.Proofs.Evaluating
import FunLanguage.Proofs.Faults
import FunLanguage.Proofs.Grammar.RoundTrip

/-!
# Commands that fail

A command can fail in four ways (`Debugger.Fails`). It may be refused because of what it asks for or
when it asks for it (`Debugger.Refused`); then nothing changes and nothing is written. An expression
may fail where the run is suspended; then the run stays suspended there, in the world that the
evaluation has left. A run that the command lets go may end in a fault, or the system may start no
thread for it; then there is no run any more. In no case does the program change, nor do the
breakpoints (`Debugger.failure_keeps_state`).
-/

namespace FunLanguage

theorem Breakpoint.ofText_eq_error_iff {text : String} {e : SyntaxError} :
    Breakpoint.ofText text = .error e ↔ Expr.ofSource text = .error e := by
  rw [Breakpoint.ofText]
  cases Expr.ofSource text with
  | error e' =>
    constructor
    · rintro ⟨⟩
      rfl
    · rintro ⟨⟩
      rfl
  | ok condition => exact ⟨nofun, nofun⟩

namespace Debugger

/-! ## Ways to fail -/

/-- The command cannot be carried out, with this error. -/
inductive Refused (d : Debugger) (host : Host) : Command → CommandError → Prop
  | notFound {path : String} (missing : host.read path = .error .notFound) :
      Refused d host (.load path) .fileNotFound
  | unreadable {path : String} {failure : ReadFailure} (unread : host.read path = .error failure)
      (present : failure ≠ .notFound) : Refused d host (.load path) (.unreadable path failure)
  | malformedProgram {path source : String} {e : SyntaxError} (found : host.read path = .ok source)
      (malformed : Program.ofSource source = .error e) :
      Refused d host (.load path) (.fault (.malformed e))
  | emptyCondition {line : Nat} {text : String} (empty : text.isEmpty = true) :
      Refused d host (.condition line text) .emptyCondition
  | malformedCondition {line : Nat} {text : String} {e : SyntaxError}
      (nonempty : text.isEmpty = false) (malformed : Expr.ofSource text = .error e) :
      Refused d host (.condition line text) (.fault (.malformed e))
  | notRunning {text : String} (idle : d.suspension? = none) :
      Refused d host (.evaluate text) .notRunning
  | malformedExpression {text : String} {s : Suspension} {e : SyntaxError}
      (suspended : d.suspension? = some s) (malformed : Expr.ofSource text = .error e) :
      Refused d host (.evaluate text) (.fault (.malformed e))
  | nothingToContinue (idle : d.suspension? = none) : Refused d host .resume .nothingToContinue
  | noProgram (missing : d.program? = none) : Refused d host .run .noProgram

/-- The command lets this run go. -/
inductive Begins (d : Debugger) (host : Host) : Command → Monitored → Prop
  | run {program : Program} (loaded : d.program? = some program)
      (started : host.refusal? = none) : Begins d host .run (.running (.ofProgram program))
  | resume {s : Suspension} (suspended : d.suspension? = some s) : Begins d host .resume s.resume

/-- The command fails with this error and this reply. -/
inductive Fails (d : Debugger) (budget : Nat) (host : Host) :
    Command → CommandError → Reply → Prop
  | refused {command : Command} {error : CommandError} (cause : d.Refused host command error) :
      Fails d budget host command error (d.refuse error)
  /-- The run before has been abandoned by the time that no other can be started. -/
  | notStarted {program : Program} {reason : String} (loaded : d.program? = some program)
      (refused : host.refusal? = some reason) :
      Fails d budget host .run (.notStarted reason) (d.stop.refuse (.notStarted reason))
  /-- The run stays suspended where it was, in the world that the evaluation has left. -/
  | evaluating {text : String} {s : Suspension} {e : Expr} {fault : Fault} {world : World}
      (suspended : d.suspension? = some s) (parsed : Expr.ofSource text = .ok e)
      (ran : (Machine.start (.expression e) s.pause.scope s.world).run budget =
        some (.error fault, world)) (own : fault.OfEvaluation) :
      Fails d budget host (.evaluate text) (.fault fault)
        { debugger := { d with suspension? := some ⟨s.pause, world.withoutOutput⟩ }
          output := world.output
          error? := some (.fault fault) }
  /-- The run that the command has let go ends in a fault. -/
  | running {command : Command} {r : Monitored} {fault : Fault} {world : World}
      (begins : d.Begins host command r)
      (ran : r.run d.breakpoints budget = some (.finished (.error fault) world))
      (own : fault.OfEvaluation) :
      Fails d budget host command (.fault fault)
        { debugger := d.stop, output := world.output, error? := some (.fault fault) }

variable {d : Debugger} {budget : Nat} {host : Host} {command : Command} {error : CommandError}
  {reply : Reply}

/-- A refused command changes nothing and writes nothing. -/
theorem Refused.execute (refused : d.Refused host command error) (budget : Nat) :
    d.execute budget host command = some (d.refuse error) := by
  cases refused with
  | notFound missing => simp [Debugger.execute, load, missing]
  | @unreadable path failure unread present =>
    cases failure with
    | notFound => exact absurd rfl present
    | _ => simp [Debugger.execute, load, unread]
  | malformedProgram found malformed => simp [Debugger.execute, load, found, malformed]
  | emptyCondition empty => simp [Debugger.execute, empty]
  | malformedCondition nonempty malformed =>
    simp [Debugger.execute, nonempty, Breakpoint.ofText_eq_error_iff.mpr malformed]
  | notRunning idle => simp [Debugger.execute, evaluate, idle]
  | malformedExpression suspended malformed =>
    simp [Debugger.execute, evaluate, suspended, malformed]
  | nothingToContinue idle => simp [Debugger.execute, idle]
  | noProgram missing => simp [Debugger.execute, missing]

/-! ## What becomes of a command -/

theorem Begins.plain {r : Monitored} (begins : d.Begins host command r) : r.Plain := by
  cases begins with
  | run => exact Machine.Plain.evaluate _
  | resume => exact (Machine.Plain.evaluate _).step

/-- A run that is let go makes a command fail only if it ends in a fault. -/
theorem fails_of_proceed {d' : Debugger} {r : Monitored} (begins : d.Begins host command r)
    (breakpoints : d'.breakpoints = d.breakpoints) (stops : d'.stop = d.stop)
    (executed : d'.proceed budget r = some reply) (failed : reply.error? = some error) :
    d.Fails budget host command error reply := by
  rw [proceed, breakpoints] at executed
  obtain ⟨halt, ran, told⟩ := Option.map_eq_some_iff.mp executed
  cases halt with
  | suspended s =>
    cases told
    cases failed
  | finished outcome world =>
    cases outcome with
    | ok value =>
      cases told
      cases failed
    | error fault =>
      cases told
      cases failed
      rw [stops]
      exact .running begins ran (begins.plain.run ran)

theorem fails_of_load {path : String} (failed : (d.load host path).error? = some error) :
    d.Fails budget host (.load path) error (d.load host path) := by
  unfold load at failed ⊢
  split at failed
  · next missing =>
    cases failed
    exact .refused (.notFound missing)
  · next failure present unread =>
    cases failed
    exact .refused (.unreadable unread present)
  · next source found =>
    split at failed
    · next e malformed =>
      cases failed
      exact .refused (.malformedProgram found malformed)
    · cases failed

theorem fails_of_evaluate {text : String} (executed : d.evaluate budget text = some reply)
    (failed : reply.error? = some error) : d.Fails budget host (.evaluate text) error reply := by
  unfold evaluate at executed
  split at executed
  · next idle =>
    cases executed
    cases failed
    exact .refused (.notRunning idle)
  · next s suspended =>
    split at executed
    · next e malformed =>
      cases executed
      cases failed
      exact .refused (.malformedExpression suspended malformed)
    · next e parsed =>
      obtain ⟨⟨outcome, s'⟩, evaluated, told⟩ := Option.map_eq_some_iff.mp executed
      obtain ⟨⟨outcome', world⟩, ran, left⟩ := Option.map_eq_some_iff.mp evaluated
      cases left
      cases outcome with
      | ok value =>
        cases told
        cases failed
      | error fault =>
        cases told
        cases failed
        exact .evaluating (s := s) suspended parsed ran ((Machine.Plain.evaluate _).run ran)

theorem fails_of_execute (executed : d.execute budget host command = some reply)
    (failed : reply.error? = some error) : d.Fails budget host command error reply := by
  cases command with
  | load path =>
    cases executed
    exact fails_of_load failed
  | breakpoint line =>
    cases executed
    cases failed
  | condition line text =>
    rw [Debugger.execute] at executed
    split at executed
    · next empty =>
      cases executed
      cases failed
      exact .refused (.emptyCondition empty)
    · next nonempty =>
      split at executed
      · next e malformed =>
        cases executed
        cases failed
        exact .refused (.malformedCondition (by simpa using nonempty)
          (Breakpoint.ofText_eq_error_iff.mp malformed))
      · cases executed
        cases failed
  | list =>
    cases executed
    cases failed
  | remove line =>
    cases executed
    cases failed
  | run =>
    rw [Debugger.execute] at executed
    split at executed
    · next missing =>
      cases executed
      cases failed
      exact .refused (.noProgram missing)
    · next program loaded =>
      rw [start] at executed
      split at executed
      · next reason refused =>
        cases executed
        cases failed
        exact .notStarted loaded refused
      · next started => exact fails_of_proceed (.run loaded started) rfl rfl executed failed
  | evaluate text => exact fails_of_evaluate executed failed
  | stop =>
    cases executed
    cases failed
  | resume =>
    rw [Debugger.execute] at executed
    split at executed
    · next idle =>
      cases executed
      cases failed
      exact .refused (.nothingToContinue idle)
    · next s suspended => exact fails_of_proceed (.resume suspended) rfl rfl executed failed

namespace Fails

variable (fails : d.Fails budget host command error reply)

include fails

theorem keeps : reply.debugger.program? = d.program? ∧
    reply.debugger.breakpoints = d.breakpoints := by
  cases fails with
  | refused => exact ⟨rfl, rfl⟩
  | notStarted => exact ⟨rfl, rfl⟩
  | evaluating => exact ⟨rfl, rfl⟩
  | running => exact ⟨rfl, rfl⟩

/-- A suspended run is gone only if the one that was let go has ended in a fault, or none could be
started in its place. -/
theorem of_isSuspended (suspended : d.isSuspended = true)
    (gone : reply.debugger.isSuspended = false) :
    (∃ r fault world, d.Begins host command r ∧
      r.run d.breakpoints budget = some (.finished (.error fault) world) ∧
      error = .fault fault) ∨
    (command = .run ∧ ∃ reason, host.refusal? = some reason ∧ error = .notStarted reason) := by
  cases fails with
  | refused =>
    rw [refuse, suspended] at gone
    cases gone
  | notStarted _ refused => exact .inr ⟨rfl, _, refused, rfl⟩
  | evaluating => cases gone
  | running begins ran => exact .inl ⟨_, _, _, begins, ran, rfl⟩

/-- Whatever comes of an `evaluate` that fails, the run waits where it did. -/
theorem pause_of_evaluate {text : String} (asked : command = .evaluate text) :
    reply.debugger.suspension?.map (·.pause) = d.suspension?.map (·.pause) ∧
      reply.debugger.prompt = d.prompt := by
  cases fails with
  | refused => exact ⟨rfl, rfl⟩
  | notStarted => cases asked
  | evaluating suspended =>
    rw [prompt, prompt, suspended]
    exact ⟨rfl, rfl⟩
  | running begins =>
    subst asked
    cases begins

end Fails

/-- A command that fails leaves the program and the breakpoints as they were. It fails in one of
four ways. If it is refused, it changes nothing and writes nothing, whatever the budget. If it is
the evaluation of an expression that fails, the run stays suspended where it was. Only if it lets a
run go that ends in a fault, or is to start a run and gets no thread for it, is a suspended run
gone. -/
theorem failure_keeps_state (d : Debugger) (budget : Nat) (host : Host) (command : Command)
    (error : CommandError) :
    (d.Refused host command error → d.execute budget host command = some (d.refuse error)) ∧
    ∀ reply, d.execute budget host command = some reply → reply.error? = some error →
      d.Fails budget host command error reply ∧
      reply.debugger.program? = d.program? ∧ reply.debugger.breakpoints = d.breakpoints ∧
      (∀ text, command = .evaluate text →
        reply.debugger.suspension?.map (·.pause) = d.suspension?.map (·.pause) ∧
        reply.debugger.prompt = d.prompt) ∧
      (d.isSuspended = true → reply.debugger.isSuspended = false →
        (∃ r fault world, d.Begins host command r ∧
          r.run d.breakpoints budget = some (.finished (.error fault) world) ∧
          error = .fault fault) ∨
        (command = .run ∧ ∃ reason, host.refusal? = some reason ∧
          error = .notStarted reason)) := by
  refine ⟨fun refused => refused.execute budget, fun reply executed failed => ?_⟩
  have fails := fails_of_execute executed failed
  exact ⟨fails, fails.keeps.1, fails.keeps.2, fun text => fails.pause_of_evaluate,
    fails.of_isSuspended⟩

/-- A program that asks for a variable that is unknown. -/
def asking : Program :=
  ⟨⟨[.expression (.identifier "x" 1)], 1⟩, 1⟩

/-- The program is suspended where it asks. A file that does not exist is not loaded; another
variable that is unknown leaves the run where it is; and the run goes on only to fail. -/
theorem failure_keeps_state_of_asking :
    let host : Host := { read := fun _ => .error .notFound }
    ∃ d : Debugger, d.program? = some asking ∧ d.isSuspended = true ∧
      d.Refused host (.load "asking") .fileNotFound ∧
      d.execute 50 host (.load "asking") = some (d.refuse .fileNotFound) ∧
      (∃ reply, d.execute 50 host (.evaluate "y") = some reply ∧
        reply.error? = some (.fault (.unknownIdentifier "y" 1)) ∧
        reply.debugger.prompt = d.prompt) ∧
      ∃ reply, d.execute 50 host .resume = some reply ∧
        reply.error? = some (.fault (.unknownIdentifier "x" 1)) ∧
        reply.debugger.program? = some asking ∧
        ∃ r, d.Begins host .resume r := by
  intro host
  let d : Debugger :=
    { program? := some asking
      suspension? := some ⟨⟨.expression (.identifier "x" 1), 1, [.sequence [] 1 0, .result 0]⟩,
        ((Machine.ofProgram asking).after 3).world⟩ }
  have missing : d.Refused host (.load "asking") .fileNotFound := .notFound rfl
  have asked : (d.execute 50 host (.evaluate "y")).map (·.error?) =
      some (some (.fault (.unknownIdentifier "y" 1))) := by
    have name : IsName "y" := ⟨⟨'y', [], rfl, by decide, by simp⟩, rfl⟩
    have parsed : Expr.ofSource "y" = .ok (.identifier "y" 1) :=
      Expr.ofSource_of_program name.ofSource rfl
    simp only [Debugger.execute, evaluate, parsed]
    decide +kernel
  have resumed : (d.execute 50 host .resume).map (fun r => (r.error?, r.debugger.isSuspended)) =
      some (some (.fault (.unknownIdentifier "x" 1)), false) := by
    decide +kernel
  obtain ⟨first, answered, failed⟩ := Option.map_eq_some_iff.mp asked
  obtain ⟨second, ended, gone⟩ := Option.map_eq_some_iff.mp resumed
  obtain ⟨failed', gone⟩ := Prod.mk.inj gone
  obtain ⟨-, -, -, kept, -⟩ :=
    (failure_keeps_state d 50 host (.evaluate "y") _).2 first answered failed
  obtain ⟨-, same, -, -, only⟩ := (failure_keeps_state d 50 host .resume _).2 second ended failed'
  obtain ⟨r, fault, world, begins, -⟩ | ⟨wrong, -⟩ := only rfl gone
  swap
  · cases wrong
  exact ⟨d, rfl, rfl, missing, (failure_keeps_state d 50 host _ _).1 missing,
    ⟨first, answered, failed, (kept "y" rfl).2⟩, second, ended, failed', same, r, begins⟩

/-- A function that sets a variable before it asks for one that is unknown, and a second line where
the variable is there. -/
def overwriting : Program :=
  ⟨⟨[.definition "f" []
      ⟨[.assignment "x" (.literal 1 1) 1, .expression (.identifier "y" 1)], 1⟩ 1,
    .declaration "x" none 1, .expression (.identifier "x" 2)], 1⟩, 1⟩

theorem ofSource_overwriting :
    Program.ofSource "fun f()\x7bx=1 y\x7dvar x\nx" = .ok overwriting := by
  let ts : List Token :=
    [⟨.funWord, "fun", ⟨0, 3⟩, 1⟩, ⟨.identifier, "f", ⟨4, 5⟩, 1⟩, ⟨.leftParen, "(", ⟨5, 6⟩, 1⟩,
      ⟨.rightParen, ")", ⟨6, 7⟩, 1⟩, ⟨.leftBrace, "\x7b", ⟨7, 8⟩, 1⟩, ⟨.identifier, "x", ⟨8, 9⟩, 1⟩,
      ⟨.equal, "=", ⟨9, 10⟩, 1⟩, ⟨.integer, "1", ⟨10, 11⟩, 1⟩, ⟨.identifier, "y", ⟨12, 13⟩, 1⟩,
      ⟨.rightBrace, "\x7d", ⟨13, 14⟩, 1⟩, ⟨.varWord, "var", ⟨14, 17⟩, 1⟩,
      ⟨.identifier, "x", ⟨18, 19⟩, 1⟩, ⟨.identifier, "x", ⟨20, 21⟩, 2⟩]
  have scanned : Token.scan "fun f()\x7bx=1 y\x7dvar x\nx" =
      .ok (ts ++ [Token.endAt ⟨21, 2⟩]) := by
    decide +kernel
  have sets : Grammar.Statement (ts.drop 5) (.assignment "x" (.literal 1 1) 1)
      ([] ++ ts.drop 8) :=
    .assignment rfl rfl (Grammar.Operand.level (.literal rfl (by decide)) _)
  have asks : Grammar.Statement (ts.drop 8) (.expression (.identifier "y" 1)) ([] ++ ts.drop 9) :=
    .expression (Grammar.Operand.level (.identifier rfl (by simp [Grammar.Starts])) _)
  have defines : Grammar.Statement ts
      (.definition "f" []
        ⟨[.assignment "x" (.literal 1 1) 1, .expression (.identifier "y" 1)], 1⟩ 1)
      ([] ++ ts.drop 10) :=
    .definition rfl rfl (.parentheses rfl .none rfl)
      (.braces rfl (.some sets (by simp) (.some asks (by simp) .none)) rfl)
  have declares : Grammar.Statement (ts.drop 10) (.declaration "x" none 1) ([] ++ ts.drop 12) :=
    .declaration rfl rfl
  have shows : Grammar.Statement (ts.drop 12) (.expression (.identifier "x" 2)) ([] ++ []) :=
    .expression (Grammar.Operand.level (.identifier rfl (by simp [Grammar.Starts])) _)
  obtain ⟨line, read, rfl⟩ := Program.ofSource_of_scan scanned (by decide)
    (.some defines (by simp) (.some declares (by simp) (.some shows (by simp) .none)))
  exact read

theorem ofSource_f_call : Expr.ofSource "f()" = .ok (.call "f" [] 1) := by
  let ts : List Token :=
    [⟨.identifier, "f", ⟨0, 1⟩, 1⟩, ⟨.leftParen, "(", ⟨1, 2⟩, 1⟩, ⟨.rightParen, ")", ⟨2, 3⟩, 1⟩]
  have scanned : Token.scan "f()" = .ok (ts ++ [Token.endAt ⟨3, 1⟩]) := by decide +kernel
  have calls : Grammar.Statement ts (.expression (.call "f" [] 1)) ([] ++ []) :=
    .expression (Grammar.Operand.level (.call rfl rfl .none rfl) _)
  obtain ⟨line, read, -⟩ :=
    Program.ofSource_of_scan scanned (by decide) (.some calls (by simp) .none)
  exact Expr.ofSource_of_program read rfl

/-- A program is loaded and suspended on its second line. The evaluation of a call fails there, but
what the call has set before stays set. A run that no thread can be started for fails as well, and
the suspended run is gone although no program has ended in a fault. -/
theorem failure_changes_state :
    let host : Host := { read := fun _ => .ok "fun f()\x7bx=1 y\x7dvar x\nx" }
    let reason := "Resource temporarily unavailable (os error 11)"
    let stopping : Debugger :=
      { program? := some overwriting, breakpoints := Breakpoints.empty.insert 2 .unconditional }
    execute {} 50 host (.load "p.fun") =
        some { debugger := { program? := some overwriting }, output := Notice.loaded.text } ∧
      execute { program? := some overwriting } 50 host (.breakpoint 2) =
        some { debugger := stopping } ∧
      ∃ d failed, (stopping.execute 50 host .run).map (·.debugger) = some d ∧
        d.prompt = "line=2,elementType=Identifier>" ∧
        (d.execute 50 host (.evaluate "x")).map (·.output) = some "=0\n" ∧
        d.execute 50 host (.evaluate "f()") = some failed ∧
        failed.error? = some (.fault (.unknownIdentifier "y" 1)) ∧
        (failed.debugger.execute 50 host (.evaluate "x")).map (·.output) = some "=1\n" ∧
        ∃ refused, d.execute 50 { host with refusal? := some reason } .run = some refused ∧
          refused.error? = some (.notStarted reason) ∧ refused.debugger.isSuspended = false := by
  intro host reason stopping
  have name : IsName "x" := ⟨⟨'x', [], rfl, by decide, by simp⟩, rfl⟩
  have asked : Expr.ofSource "x" = .ok (.identifier "x" 1) :=
    Expr.ofSource_of_program name.ofSource rfl
  have loads : execute {} 50 host (.load "p.fun") =
      some { debugger := { program? := some overwriting }, output := Notice.loaded.text } := by
    simp only [execute, load, host, ofSource_overwriting]
  let d : Debugger := ((stopping.execute 50 host .run).map (·.debugger)).getD {}
  have ran : ((stopping.execute 50 host .run).map (·.debugger)).isSome = true := by decide +kernel
  have failing : ((d.execute 50 host (.evaluate "f()")).map (·.error?)) =
      some (some (.fault (.unknownIdentifier "y" 1))) := by
    simp only [execute, evaluate, ofSource_f_call]
    decide +kernel
  have before : (d.execute 50 host (.evaluate "x")).map (·.output) = some "=0\n" := by
    simp only [execute, evaluate, asked]
    decide +kernel
  have behind : ((d.execute 50 host (.evaluate "f()")).bind fun failed =>
      (failed.debugger.execute 50 host (.evaluate "x")).map (·.output)) = some "=1\n" := by
    simp only [execute, evaluate, ofSource_f_call, asked]
    decide +kernel
  obtain ⟨failed, executed, fault⟩ := Option.map_eq_some_iff.mp failing
  rw [executed] at behind
  have suspended : (stopping.execute 50 host .run).map (·.debugger) = some d :=
    (Option.getD_of_ne_none (Option.isSome_iff_ne_none.mp ran) {}).symm
  exact ⟨loads, rfl, d, failed, suspended, by decide +kernel, before, executed, fault, behind, _,
    rfl, rfl, rfl⟩

end Debugger

end FunLanguage
