import FunLanguage.Suspension

/-!
# Sessions

A session is one run of a program under a table of breakpoints, driven by requests. It starts out
running by itself up to its first halt, which has to be waited for. Only requests that the stage of
the session allows are carried out; the others would find nobody to answer them, or meet the run
while it is under way, and are skipped. A run that has finished answers whatever is asked of it with
the fault that evaluation was stopped.
-/

namespace FunLanguage

/-- How far a session has come. -/
inductive Stage where
  | started (machine : Machine)
  | suspended (suspension : Suspension)
  | finished
  | dropped

/-- A run of a program, and the breakpoints it is under. -/
structure Session where
  stage : Stage
  breakpoints : Breakpoints

/-- What can be asked of a session. -/
inductive Request where
  | wait
  | resume
  | evaluate (source : String)
  | insert (line : Nat) (condition? : Option String)
  | remove (line : Nat)
  | position
  | drop

/-- Where a run stands when it comes to a halt. -/
inductive Standing where
  | suspended (line : Nat) (kind : NodeKind)
  | finished (outcome : Except Fault Int32)

/-- The answer to a request. -/
inductive Answer where
  | skipped
  /-- The text that came with the request is malformed. -/
  | malformed (error : SyntaxError)
  | standing (standing : Standing)
  | evaluated (outcome : Except Fault Int32)
  /-- A breakpoint was put on a line; whether in place of another. -/
  | inserted (replaced : Bool)
  /-- Whether a breakpoint was taken off a line. -/
  | removed (removed : Bool)
  | position (position? : Option (Nat × NodeKind))
  | dropped

/-- Whether the stage allows the request. -/
def Stage.allows : Stage → Request → Bool
  | started _, .wait => true
  | started _, .position => true
  | started _, .drop => true
  | started _, _ => false
  | suspended _, .wait => false
  | suspended _, _ => true
  | finished, _ => true
  | dropped, _ => false

namespace Session

/-- A session that is about to run a program. -/
def start (program : Program) (breakpoints : Breakpoints) : Session :=
  ⟨.started (.ofProgram program), breakpoints⟩

/-- The line and the kind of the node that the run is suspended at. -/
def position? (s : Session) : Option (Nat × NodeKind) :=
  match s.stage with
  | .suspended suspension => some (suspension.line, suspension.kind)
  | _ => none

/-- Lets the run go on to its next halt. Gives where it stands by then, the text written on the way,
and the session. -/
def proceed (s : Session) (budget : Nat) (run : Monitored) :
    Option (Standing × String × Session) :=
  (run.run s.breakpoints budget).map fun
    | .suspended suspension =>
      let (output, suspension) := suspension.takeOutput
      (.suspended suspension.line suspension.kind, output,
        { s with stage := .suspended suspension })
    | .finished outcome world => (.finished outcome, world.output, { s with stage := .finished })

/-- Evaluates an expression where the run is suspended. -/
def evaluate (s : Session) (budget : Nat) (e : Expr) : Option (Answer × String × Session) :=
  match s.stage with
  | .suspended suspension =>
    (suspension.evaluate budget e).map fun (outcome, suspension) =>
      let (output, suspension) := suspension.takeOutput
      (.evaluated outcome, output, { s with stage := .suspended suspension })
  | _ => some (.evaluated (.error .stopped), "", s)

/-- Lets the run go on, from its beginning or from where it is suspended. -/
def proceed? (s : Session) (budget : Nat) : Option (Standing × String × Session) :=
  match s.stage with
  | .started machine => s.proceed budget (.running machine)
  | .suspended suspension => s.proceed budget suspension.resume
  | _ => some (.finished (.error .stopped), "", s)

/-- Ends the session. A run that nobody has waited for yet goes on to its first halt before
it ends. -/
def drop (s : Session) (budget : Nat) : Option (Answer × String × Session) :=
  match s.stage with
  | .started machine =>
    (s.proceed budget (.running machine)).map fun (_, output, s) =>
      (.dropped, output, { s with stage := .dropped })
  | _ => some (.dropped, "", { s with stage := .dropped })

/-- Answers a request that the stage allows. -/
def carryOut (s : Session) (budget : Nat) (request : Request) :
    Option (Answer × String × Session) :=
  match request with
  | .wait | .resume =>
    (s.proceed? budget).map fun (standing, rest) => (.standing standing, rest)
  | .evaluate source =>
    match Expr.ofSource source with
    | .error e => some (.malformed e, "", s)
    | .ok e => s.evaluate budget e
  | .insert line condition? =>
    match Breakpoint.ofText? condition? with
    | .error e => some (.malformed e, "", s)
    | .ok breakpoint =>
      some (.inserted (s.breakpoints.contains line), "",
        { s with breakpoints := s.breakpoints.insert line breakpoint })
  | .remove line =>
    some (.removed (s.breakpoints.contains line), "",
      { s with breakpoints := s.breakpoints.remove line })
  | .position => some (.position s.position?, "", s)
  | .drop => s.drop budget

/-- Answers a request, evaluating for at most `budget` steps. Gives the text written on the way, and
the session after it. -/
def answer (s : Session) (budget : Nat) (request : Request) : Option (Answer × String × Session) :=
  if s.stage.allows request then s.carryOut budget request else some (.skipped, "", s)

end Session

end FunLanguage
