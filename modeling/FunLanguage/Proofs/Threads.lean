import FunLanguage.Proofs.Output
import FunLanguage.Proofs.Sessions
import Mathlib.Logic.Relation

/-!
# A session on two threads

A worker runs the program, and a command loop makes the requests. They share the table of
breakpoints and the output, and meet to hand over messages: the command loop demands something of
the worker, or the worker tells an event. Neither is kept anywhere, so who comes first to hand over
a message waits for the other (`Threads.Step`). Where the other end is gone, nothing is handed
over: the worker then abandons its run, and the command loop takes evaluation for stopped.

The command loop waits for the first halt before anything else. From then on it makes any requests
up to the end of the session, except that it does not wait for a run that is suspended
(`Phase.permits`).
-/

namespace FunLanguage

/-- The run that is told at its suspension to stop. -/
def Suspension.abandoned (s : Suspension) : Monitored :=
  .running ⟨.raise .stopped, s.pause.stack, s.world⟩

/-! ## The worker -/

/-- What the command loop demands of the worker. -/
inductive Demand where
  | evaluate (e : Expr)
  | resume

/-- What the worker has to tell. -/
inductive Event where
  | suspended (line : Nat) (kind : NodeKind)
  | evaluated (outcome : Except Fault Int32)
  | finished (outcome : Except Fault Int32)

/-- What is handed over. -/
inductive Message where
  | demand (demand : Demand)
  | event (event : Event)

/-- What the worker is doing. -/
inductive Worker where
  /-- The run is under way. Where it has come to a halt the worker is about to tell so, or to leave
  the run. -/
  | running (run : Monitored)
  /-- It waits for a demand. -/
  | listening (suspension : Suspension)
  /-- It is about to let the run go on. -/
  | resuming (suspension : Suspension)
  /-- It evaluates an expression where the run is suspended. Once that has ended it is about to tell
  the outcome. -/
  | evaluating (machine : Machine) (pause : Pause)
  /-- It has left the run and takes no demands any more, but has yet to tell that the run has
  finished. -/
  | returned (outcome : Except Fault Int32) (world : World)
  | ended (world : World)

namespace Worker

def world : Worker → World
  | running r => r.world
  | listening s => s.world
  | resuming s => s.world
  | evaluating m _ => m.world
  | returned _ world => world
  | ended world => world

/-- The next step that the worker does by itself. -/
def work? (table : Breakpoints) : Worker → Option Worker
  | running (.suspended _) => none
  | running (.finished outcome world) => some (.returned outcome world)
  | running r => some (.running (r.step table))
  | resuming s => some (.running s.resume)
  | evaluating m pause =>
    match m.outcome? with
    | some _ => none
    | none => some (.evaluating m.step pause)
  | _ => none

/-- What the worker has to tell, and what it does once that is told. -/
def telling? : Worker → Option (Event × Worker)
  | running (.suspended s) => some (.suspended s.line s.kind, .listening s)
  | evaluating m pause =>
    m.outcome?.map fun outcome => (.evaluated outcome, .listening ⟨pause, m.world⟩)
  | returned outcome world => some (.finished outcome, .ended world)
  | _ => none

/-- What the worker does about a demand that it takes. -/
def take? (demand : Demand) : Worker → Option Worker
  | listening s =>
    match demand with
    | .evaluate e => some (.evaluating (.start (.expression e) s.pause.scope s.world) s.pause)
    | .resume => some (.resuming s)
  | _ => none

/-- Whether the worker has left the run, and takes no demands any more. -/
def isDeaf : Worker → Bool
  | returned .. | ended _ => true
  | _ => false

/-- What the worker does when the command loop is gone from the other end. -/
def abandon : Worker → Worker
  | running (.suspended s) => .running s.abandoned
  | listening s => .running s.abandoned
  | evaluating m pause => .running (Suspension.abandoned ⟨pause, m.world⟩)
  | returned _ world => .ended world
  | worker => worker

end Worker

/-! ## The command loop -/

/-- How far the run has come, as the command loop knows. -/
inductive Phase where
  | started
  | suspended
  | finished

/-- Whether the command loop makes the request in this phase. -/
def Phase.permits : Phase → Request → Bool
  | started, .wait => true
  | started, _ => false
  | suspended, .wait => false
  | suspended, _ => true
  | finished, _ => true

/-- The phase after an answer. -/
def Phase.next (phase : Phase) : Answer → Phase
  | .standing (.suspended ..) => suspended
  | .standing (.finished _) => finished
  | _ => phase

/-- What the command loop is doing. -/
inductive CommandLoop where
  | idle
  /-- It waits for the worker to take the demand. -/
  | demanding (request : Request) (demand : Demand)
  /-- It waits for the outcome of an expression. -/
  | listening (request : Request)
  /-- It waits for the next halt of the run. -/
  | waiting (request : Request)
  /-- It makes no demands any more. -/
  | closing
  /-- It listens to nothing any more either, and waits for the worker to end. -/
  | joining
  | gone

namespace CommandLoop

/-- The request that is being carried out. -/
def request? : CommandLoop → Option Request
  | demanding request _ | listening request | waiting request => some request
  | closing | joining => some .drop
  | idle | gone => none

/-- Whether the command loop waits to be told something. -/
def awaits : CommandLoop → Bool
  | listening _ | waiting _ => true
  | _ => false

/-- Whether the command loop makes no demands any more. -/
def isMute : CommandLoop → Bool
  | closing | joining | gone => true
  | _ => false

/-- Whether the command loop listens to nothing any more. -/
def isDeaf : CommandLoop → Bool
  | joining | gone => true
  | _ => false

end CommandLoop

/-- A request with its answer and all that was written by then. -/
structure Exchange where
  request : Request
  answer : Answer
  output : String

/-- The two threads, what they have handed over, and what has been asked and answered; the latest
first. -/
structure Threads where
  worker : Worker
  loop : CommandLoop
  breakpoints : Breakpoints
  phase : Phase
  position? : Option (Nat × NodeKind)
  messages : List Message
  log : List Exchange

namespace Threads

/-- All that has been written. -/
def output (p : Threads) : String :=
  p.worker.world.output

/-- The threads when the session has been started. -/
def start (program : Program) (table : Breakpoints) : Threads where
  worker := .running (.running (.ofProgram program))
  loop := .idle
  breakpoints := table
  phase := .started
  position? := none
  messages := []
  log := []

/-- The command loop has an answer to the request. -/
def reply (p : Threads) (request : Request) (answer : Answer) : Threads :=
  { p with
    loop := .idle
    phase := p.phase.next answer
    log := ⟨request, answer, p.output⟩ :: p.log }

/-- The command loop sets about a request. -/
def call (p : Threads) (request : Request) : Threads :=
  match request with
  | .wait => { p with loop := .waiting .wait, position? := none }
  | .resume => { p with loop := .demanding .resume .resume }
  | .evaluate source =>
    match Expr.ofSource source with
    | .error e => p.reply request (.malformed e)
    | .ok e => { p with loop := .demanding request (.evaluate e) }
  | .insert line condition? =>
    match Breakpoint.ofText? condition? with
    | .error e => p.reply request (.malformed e)
    | .ok breakpoint =>
      { p with breakpoints := p.breakpoints.insert line breakpoint }.reply request
        (.inserted (p.breakpoints.contains line))
  | .remove line =>
    { p with breakpoints := p.breakpoints.remove line }.reply request
      (.removed (p.breakpoints.contains line))
  | .position => p.reply request (.position p.position?)
  | .drop => { p with loop := .closing }

/-- The command loop goes on after its demand has been taken. -/
def demanded (p : Threads) (request : Request) : Demand → Threads
  | .evaluate _ => { p with loop := .listening request }
  | .resume => { p with loop := .waiting request, position? := none }

/-- The command loop finds that nobody takes its demand. -/
def refused (p : Threads) (request : Request) : Demand → Threads
  | .evaluate _ => p.reply request (.evaluated (.error .stopped))
  | .resume => p.reply request (.standing (.finished (.error .stopped)))

/-- The command loop is told the event while it waits for the outcome of an expression. -/
def toldOutcome (p : Threads) (request : Request) : Event → Threads
  | .evaluated outcome => p.reply request (.evaluated outcome)
  | _ => p.reply request (.evaluated (.error .stopped))

/-- The command loop is told the event while it waits for a halt. -/
def toldHalt (p : Threads) (request : Request) : Event → Threads
  | .suspended line kind =>
    { p with position? := some (line, kind) }.reply request (.standing (.suspended line kind))
  | .finished outcome => p.reply request (.standing (.finished outcome))
  | .evaluated _ => p

/-- The worker, the command loop or both together do a step. -/
inductive Step : Threads → Threads → Prop
  | work {p : Threads} {worker : Worker} (works : p.worker.work? p.breakpoints = some worker) :
      Step p { p with worker }
  | call {p : Threads} {request : Request} (idle : p.loop = .idle)
      (permitted : p.phase.permits request = true) : Step p (p.call request)
  /-- The worker takes a demand. -/
  | demand {p : Threads} {request : Request} {demand : Demand} {worker : Worker}
      (demanding : p.loop = .demanding request demand)
      (takes : p.worker.take? demand = some worker) :
      Step p ({ p with worker, messages := .demand demand :: p.messages }.demanded request demand)
  /-- There is no worker to take the demand. -/
  | refusal {p : Threads} {request : Request} {demand : Demand}
      (demanding : p.loop = .demanding request demand) (deaf : p.worker.isDeaf = true) :
      Step p (p.refused request demand)
  | outcome {p : Threads} {request : Request} {event : Event} {worker : Worker}
      (listening : p.loop = .listening request)
      (telling : p.worker.telling? = some (event, worker)) :
      Step p ({ p with worker, messages := .event event :: p.messages }.toldOutcome request event)
  | halt {p : Threads} {request : Request} {event : Event} {worker : Worker}
      (waiting : p.loop = .waiting request)
      (telling : p.worker.telling? = some (event, worker)) :
      Step p ({ p with worker, messages := .event event :: p.messages }.toldHalt request event)
  /-- There is no worker to tell the outcome. -/
  | noOutcome {p : Threads} {request : Request} {world : World}
      (listening : p.loop = .listening request) (ended : p.worker = .ended world) :
      Step p (p.reply request (.evaluated (.error .stopped)))
  /-- There is no worker to tell of a halt. -/
  | noHalt {p : Threads} {request : Request} {world : World}
      (waiting : p.loop = .waiting request) (ended : p.worker = .ended world) :
      Step p (p.reply request (.standing (.finished (.error .stopped))))
  /-- Nobody will demand anything of the worker. -/
  | undemanded {p : Threads} {s : Suspension} (listening : p.worker = .listening s)
      (mute : p.loop.isMute = true) : Step p { p with worker := p.worker.abandon }
  /-- Nobody listens to what the worker has to tell. -/
  | unheard {p : Threads} {told : Event × Worker} (telling : p.worker.telling? = some told)
      (deaf : p.loop.isDeaf = true) : Step p { p with worker := p.worker.abandon }
  | close {p : Threads} (closing : p.loop = .closing) :
      Step p { p with loop := .joining }
  | join {p : Threads} {world : World}
      (joining : p.loop = .joining) (ended : p.worker = .ended world) :
      Step p { p.reply .drop .dropped with loop := .gone }

/-- Steps lead from one state of the threads to the other. -/
abbrev Steps : Threads → Threads → Prop :=
  Relation.ReflTransGen Step

/-- A session of the program can come to this, on two threads. -/
def Reached (program : Program) (p : Threads) : Prop :=
  ∃ table, (start program table).Steps p

end Threads

end FunLanguage
