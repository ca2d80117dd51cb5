import FunLanguage.Proofs.Monitoring
import FunLanguage.Session

/-!
# Driven sessions

A session is driven by a script: what is asked at its first suspension, at its second and so on,
before it is resumed (`Session.drive`). `Session.Drives` is the course that it takes given any
budget that is large enough.

A request is quiet if it looks at the suspended run or edits the table of breakpoints, and nothing
in it calls a function. Such a request leaves the run as it is, and writes nothing
(`Session.answer_of_quiet`).
-/

namespace FunLanguage

/-! ## Tables without calls -/

/-- The table after a request. -/
def Breakpoints.edited (table : Breakpoints) : Request → Breakpoints
  | .insert line condition? =>
    match Breakpoint.ofText? condition? with
    | .ok breakpoint => table.insert line breakpoint
    | .error _ => table
  | .remove line => table.remove line
  | _ => table

/-- Looks at a suspended run or edits the table, and nothing in the request calls a function. -/
def Request.Quiet : Request → Prop
  | .evaluate source => ∀ e, Expr.ofSource source = .ok e → e.CallFree
  | .insert _ condition? =>
    ∀ breakpoint, Breakpoint.ofText? condition? = .ok breakpoint → breakpoint.condition.CallFree
  | .remove _ => True
  | .position => True
  | .wait | .resume | .drop => False

/-- The table after what a script asks at its first halts. -/
def Breakpoints.scripted (table : Breakpoints) (script : Nat → List Request) : Nat → Breakpoints
  | 0 => table
  | count + 1 => (script count).foldl Breakpoints.edited (table.scripted script count)

namespace Breakpoints

variable {table : Breakpoints}

theorem CallFree.edited (free : table.CallFree) {request : Request} (quiet : request.Quiet) :
    (table.edited request).CallFree := by
  cases request with
  | insert line condition? =>
    rw [Breakpoints.edited]
    split
    · next breakpoint made =>
      intro entry mem
      rcases mem_of_mem_put mem with rfl | mem
      · exact quiet breakpoint made
      · exact free entry mem
    · exact free
  | remove line => exact fun entry mem => free entry (List.mem_filter.mp mem).1
  | _ => exact free

theorem CallFree.foldl_edited (free : table.CallFree) {requests : List Request}
    (quiet : ∀ q ∈ requests, q.Quiet) : (requests.foldl Breakpoints.edited table).CallFree := by
  induction requests generalizing table with
  | nil => exact free
  | cons q requests ih =>
    exact ih (free.edited (quiet q List.mem_cons_self)) fun q hq =>
      quiet q (List.mem_cons_of_mem _ hq)

theorem CallFree.scripted (free : table.CallFree) {script : Nat → List Request}
    (quiet : ∀ n, ∀ q ∈ script n, q.Quiet) (count : Nat) :
    (table.scripted script count).CallFree := by
  induction count with
  | zero => exact free
  | succ count ih => exact ih.foldl_edited (quiet count)

end Breakpoints

/-! ## Driven sessions -/

/-- What has come of a session: where it stopped, how it ended and what was written. -/
structure Course where
  stops : List (Nat × NodeKind)
  outcome : Except Fault Int32
  output : String

namespace Session

/-- Answers requests one after another. Gives the text written, and the session after them. -/
def ask (budget : Nat) : List Request → Session → Option (String × Session)
  | [], s => some ("", s)
  | q :: requests, s => do
    let (_, text, s) ← s.answer budget q
    let (texts, s) ← ask budget requests s
    some (text ++ texts, s)

/-- Lets the session go on by `request` and resumes it at every halt, up to its end, after what the
script asks there. The script is counted by halts, of which there may be `halts` at most. -/
def drive (budget : Nat) (script : Nat → List Request) :
    (halts count : Nat) → (request : Request) → Session → Option Course
  | 0, _, _, _ => none
  | halts + 1, count, request, s => do
    let (answer, text, s) ← s.answer budget request
    match answer with
    | .standing (.finished outcome) => some ⟨[], outcome, text⟩
    | .standing (.suspended line kind) =>
      let (said, s) ← s.ask budget (script count)
      let course ← drive budget script halts (count + 1) .resume s
      some ⟨(line, kind) :: course.stops, course.outcome, text ++ said ++ course.output⟩
    | _ => none

/-- The course that the session takes under the script, given a budget that is large enough. -/
def Drives (script : Nat → List Request) (count : Nat) (request : Request) (s : Session)
    (course : Course) : Prop :=
  ∃ enough, ∀ budget ≥ enough, ∀ halts ≥ enough,
    s.drive budget script halts count request = some course

/-! ### Quiet requests -/

section Quiet

variable {s : Suspension} (taken : s.world.output = "")

include taken

theorem evaluate_of_callFree {e : Expr} (free : e.CallFree) : ∃ enough, ∀ budget ≥ enough, ∀ table,
    Session.evaluate ⟨.suspended s, table⟩ budget e =
      some (.evaluated (e.valueIn s.world.scopes s.pause.scope), "", ⟨.suspended s, table⟩) := by
  obtain ⟨enough, ran⟩ := Machine.ends_of_callFree free s.pause.scope s.world
  refine ⟨enough, fun budget le table => ?_⟩
  have nothing : { s.world with output := "" } = s.world := by
    rw [← taken]
  simp only [Session.evaluate, Suspension.evaluate, Machine.run_mono ran le, Option.map_some,
    Suspension.takeOutput, World.takeOutput, taken, nothing]

/-- A quiet request writes nothing, and leaves the run as it is. -/
theorem answer_of_quiet {q : Request} (quiet : q.Quiet) : ∃ enough, ∀ budget ≥ enough, ∀ table,
    ∃ a, Session.answer ⟨.suspended s, table⟩ budget q =
      some (a, "", ⟨.suspended s, table.edited q⟩) := by
  cases q with
  | evaluate source =>
    cases read : Expr.ofSource source with
    | error e =>
      refine ⟨0, fun budget _ table => ⟨.malformed e, ?_⟩⟩
      simp [Session.answer, Stage.allows, Session.carryOut, read, Breakpoints.edited]
    | ok e =>
      obtain ⟨enough, evaluated⟩ := evaluate_of_callFree taken (quiet e read)
      refine ⟨enough, fun budget le table =>
        ⟨.evaluated (e.valueIn s.world.scopes s.pause.scope), ?_⟩⟩
      simp only [Session.answer, Stage.allows, Session.carryOut, read, Breakpoints.edited, if_true]
      exact evaluated budget le table
  | insert line condition? =>
    refine ⟨0, fun budget _ table => ?_⟩
    simp only [Session.answer, Stage.allows, Session.carryOut, Breakpoints.edited, if_true]
    cases Breakpoint.ofText? condition? with
    | error e => exact ⟨_, rfl⟩
    | ok breakpoint => exact ⟨_, rfl⟩
  | remove line => exact ⟨0, fun budget _ table => ⟨_, rfl⟩⟩
  | position => exact ⟨0, fun budget _ table => ⟨_, rfl⟩⟩
  | wait => exact quiet.elim
  | resume => exact quiet.elim
  | drop => exact quiet.elim

theorem ask_of_quiet (requests : List Request) (quiet : ∀ q ∈ requests, q.Quiet) :
    ∃ enough, ∀ budget ≥ enough, ∀ table,
      Session.ask budget requests ⟨.suspended s, table⟩ =
        some ("", ⟨.suspended s, requests.foldl Breakpoints.edited table⟩) := by
  induction requests with
  | nil => exact ⟨0, fun _ _ _ => rfl⟩
  | cons q requests ih =>
    obtain ⟨first, answered⟩ := answer_of_quiet taken (quiet q List.mem_cons_self)
    obtain ⟨others, asked⟩ := ih fun q hq => quiet q (List.mem_cons_of_mem _ hq)
    refine ⟨first + others, fun budget le table => ?_⟩
    obtain ⟨a, answer⟩ := answered budget (by omega) table
    simp only [ask, answer, asked budget (by omega), Option.bind_eq_bind, Option.bind_some,
      String.append_empty, List.foldl_cons]

end Quiet

/-! ### Halts -/

/-- The request lets the session go on with this run. -/
inductive Pending : Request → Session → Monitored → Prop
  | wait {m table} : Pending .wait ⟨.started m, table⟩ (.running m)
  | resume {s table} : Pending .resume ⟨.suspended s, table⟩ s.resume

theorem Pending.answer {request : Request} {s : Session} {r : Monitored}
    (h : Pending request s r) (budget : Nat) : s.answer budget request =
      (s.proceed budget r).map fun (standing, rest) => (.standing standing, rest) := by
  cases h <;> rfl

namespace Drives

variable {script : Nat → List Request} {count : Nat} {request : Request} {s : Session}
  {r : Monitored}

theorem finished {outcome : Except Fault Int32} {world : World} (pending : Pending request s r)
    (comes : r.Comes s.breakpoints (.finished outcome world)) :
    Drives script count request s ⟨[], outcome, world.output⟩ := by
  obtain ⟨enough, comes⟩ := comes
  refine ⟨enough + 1, fun budget le halts le' => ?_⟩
  obtain ⟨halts, rfl⟩ := Nat.exists_eq_add_of_le' (Nat.le_of_add_left_le le')
  simp only [drive, pending.answer, proceed, comes budget (by omega), Option.map_some,
    Option.bind_eq_bind, Option.bind_some]

theorem suspended {suspension : Suspension} {course : Course} (pending : Pending request s r)
    (comes : r.Comes s.breakpoints (.suspended suspension))
    (quiet : ∀ q ∈ script count, q.Quiet)
    (rest : Drives script (count + 1) .resume
      ⟨.suspended suspension.takeOutput.2,
        (script count).foldl Breakpoints.edited s.breakpoints⟩ course) :
    Drives script count request s
      ⟨(suspension.line, suspension.kind) :: course.stops, course.outcome,
        suspension.world.output ++ course.output⟩ := by
  obtain ⟨enough, comes⟩ := comes
  obtain ⟨enough', rest⟩ := rest
  obtain ⟨enough'', asked⟩ := ask_of_quiet (s := suspension.takeOutput.2) rfl (script count) quiet
  refine ⟨enough + enough' + enough'' + 1, fun budget le halts le' => ?_⟩
  obtain ⟨halts, rfl⟩ := Nat.exists_eq_add_of_le' (Nat.le_of_add_left_le le')
  simp only [drive, pending.answer, proceed, comes budget (by omega), Option.map_some,
    Option.bind_eq_bind, Option.bind_some, asked budget (by omega),
    rest budget (by omega) halts (by omega), String.append_empty]
  rfl

end Drives

end Session

end FunLanguage
