import FunLanguage.Proofs.Driving
import FunLanguage.Proofs.Output

/-!
# Debugging is transparent

Where nothing that is asked calls a function, a session stops exactly at those visits of the plain
run where the table, as it stands by then, has a breakpoint whose condition holds; and it ends as
the plain run does, with the same text written, unless a condition fails (`Faithful`,
`Session.debugging_transparent`).

The proof goes along the plain run. What is evaluated for a condition or at a suspension leaves the
scopes as they are; the session only takes away what has been written, so its machine is that of the
plain run without some text in front of the output (`Transparent`).
-/

namespace FunLanguage

/-- A suspended run from which the text written has been taken lacks that text and nothing else. -/
theorem Suspension.machine_takeOutput (s : Suspension) :
    (s.takeOutput.2.pause.machine s.takeOutput.2.world).prepend s.world.output =
      s.pause.machine s.world := by
  simp [Machine.prepend, Pause.machine, World.prepend, takeOutput, World.takeOutput]

/-! ## Stops -/

/-- What is reported of a stop at the visit. -/
def Sighting.standing (v : Sighting) : Nat × NodeKind :=
  (v.node.line, v.node.kind)

/-- The table has a breakpoint on the line of the visit whose condition holds there. -/
def Sighting.Stops (v : Sighting) (table : Breakpoints) : Prop :=
  ∃ value, value ≠ 0 ∧ v.Tests table (.ok value)

section Stops

/- `tables` are the tables after so many halts, and `stops` the numbers of the visits stopped at. -/
variable (tables : Nat → Breakpoints) (visits : List Sighting) (stops : List Nat)

/-- The table when the visit with this number is reached. -/
def tableAt (i : Nat) : Breakpoints :=
  tables (stops.countP (· < i))

/-- The condition of a breakpoint fails at the visit with this number. -/
def FailsAt (i : Nat) (fault : Fault) : Prop :=
  ∃ v, visits[i]? = some v ∧ v.Tests (tableAt tables stops i) (.error fault)

/-- The course has the stops that the visits of the plain run ask for, and ends as that run does
unless a condition fails. -/
structure Faithful (outcome : Except Fault Int32) (output : String) (course : Course) : Prop where
  increasing : stops.Pairwise (· < ·)
  standing : course.stops.map some = stops.map fun i => visits[i]?.map Sighting.standing
  exact : ∀ i v, visits[i]? = some v →
    (∀ j ≤ i, ∀ fault, ¬ FailsAt tables visits stops j fault) →
    (i ∈ stops ↔ v.Stops (tableAt tables stops i))
  whole : (∀ i fault, ¬ FailsAt tables visits stops i fault) →
    course.outcome = outcome ∧ course.output = output
  cut : ∀ k v fault, visits[k]? = some v → v.Tests (tableAt tables stops k) (.error fault) →
    (∀ j < k, ∀ fault, ¬ FailsAt tables visits stops j fault) →
    course.outcome = .error fault ∧ course.output = v.world.output ∧ ∀ i ∈ stops, i < k

end Stops

section Faithful

variable {tables : Nat → Breakpoints} {visits : List Sighting} {stops : List Nat}
  {outcome : Except Fault Int32} {output : String} {course : Course}

theorem tableAt_zero : tableAt tables stops 0 = tables 0 := by
  rw [tableAt, List.countP_eq_zero.mpr (by simp)]

/-- What is asked at the first visit comes before the stops behind it. -/
theorem tableAt_succ {head : List Nat} (first : head = [0] ∨ head = []) (i : Nat) :
    tableAt tables (head ++ stops.map (· + 1)) (i + 1) =
      tableAt (fun c => tables (head.length + c)) stops i := by
  have before : (stops.map (· + 1)).countP (· < i + 1) = stops.countP (· < i) := by
    rw [List.countP_map]
    exact congrArg (List.countP · stops) (funext fun j => by simp)
  rw [tableAt, tableAt, List.countP_append, before]
  rcases first with rfl | rfl
  · simp
  · simp

theorem failsAt_succ {v : Sighting} {head : List Nat} (first : head = [0] ∨ head = []) (i : Nat)
    (fault : Fault) :
    FailsAt tables (v :: visits) (head ++ stops.map (· + 1)) (i + 1) fault ↔
      FailsAt (fun c => tables (head.length + c)) visits stops i fault := by
  rw [FailsAt, FailsAt, tableAt_succ first, List.getElem?_cons_succ]

theorem Faithful.nil : Faithful tables [] [] outcome output ⟨[], outcome, output⟩ where
  increasing := .nil
  standing := rfl
  exact _ _ here := by cases here
  whole _ := ⟨rfl, rfl⟩
  cut _ _ _ here := by cases here

/-- The first visit has a breakpoint whose condition fails. -/
theorem Faithful.fault {v : Sighting} {fault : Fault}
    (fails : v.Tests (tables 0) (.error fault)) :
    Faithful tables (v :: visits) [] outcome output ⟨[], .error fault, v.world.output⟩ where
  increasing := .nil
  standing := rfl
  exact i w here none := absurd ⟨v, rfl, fails⟩ (none 0 (Nat.zero_le i) fault)
  whole none := absurd ⟨v, rfl, fails⟩ (none 0 fault)
  cut k w fault' here fails' none := by
    cases k with
    | zero =>
      cases here
      cases fails.unique fails'
      exact ⟨rfl, rfl, nofun⟩
    | succ k => exact absurd ⟨v, rfl, fails⟩ (none 0 (Nat.succ_pos k) fault)

/-- The first visit has no breakpoint, or one whose condition does not fail. -/
theorem Faithful.cons {v : Sighting} (tables : Nat → Breakpoints) (head : List Nat)
    (sound : ∀ fault, ¬ v.Tests (tables 0) (.error fault))
    (first : head = [0] ∧ v.Stops (tables 0) ∨ head = [] ∧ ¬ v.Stops (tables 0))
    (rest : Faithful (fun c => tables (head.length + c)) visits stops outcome output course) :
    Faithful tables (v :: visits) (head ++ stops.map (· + 1)) outcome output
      ⟨head.map (fun _ => v.standing) ++ course.stops, course.outcome, course.output⟩ := by
  -- The visits behind the first are those of `rest`, with numbers one greater.
  have kind : head = [0] ∨ head = [] := first.imp And.left And.left
  have mem_succ (i : Nat) : i + 1 ∈ head ++ stops.map (· + 1) ↔ i ∈ stops := by
    rcases kind with rfl | rfl <;> simp
  have later {i : Nat} (none : ∀ j < i + 1, ∀ fault, ¬ FailsAt tables (v :: visits)
      (head ++ stops.map (· + 1)) j fault) :
      ∀ j < i, ∀ fault, ¬ FailsAt (fun c => tables (head.length + c)) visits stops j fault :=
    fun j lt fault fails =>
      none (j + 1) (Nat.succ_lt_succ lt) fault ((failsAt_succ kind j _).mpr fails)
  refine ⟨?_, ?_, fun i w here none => ?_, fun none => ?_, fun k w fault here fails none => ?_⟩
  · have shifted : (stops.map (· + 1)).Pairwise (· < ·) :=
      List.pairwise_map.mpr (rest.increasing.imp Nat.succ_lt_succ)
    rcases kind with rfl | rfl
    · exact List.pairwise_cons.mpr ⟨by simp, shifted⟩
    · exact shifted
  · have behind : (stops.map (· + 1)).map (fun i => (v :: visits)[i]?.map Sighting.standing) =
        course.stops.map some := by
      rw [rest.standing, List.map_map]
      exact List.map_congr_left fun i _ => by simp
    rw [List.map_append, List.map_append, behind]
    rcases kind with rfl | rfl <;> rfl
  · cases i with
    | zero =>
      cases here
      rw [tableAt_zero]
      rcases first with ⟨rfl, stop⟩ | ⟨rfl, go⟩
      · simp [stop]
      · simp [go]
    | succ i =>
      rw [tableAt_succ kind, mem_succ]
      exact rest.exact i w here fun j le => later (i := i + 1)
        (fun j lt => none j (Nat.le_of_lt_succ lt)) j (Nat.lt_succ_of_le le)
  · exact rest.whole fun i fault fails => none (i + 1) fault ((failsAt_succ kind i fault).mpr fails)
  · cases k with
    | zero =>
      cases here
      rw [tableAt_zero] at fails
      exact absurd fails (sound fault)
    | succ k =>
      rw [tableAt_succ kind] at fails
      obtain ⟨failed, written, before⟩ := rest.cut k w fault here fails (later none)
      refine ⟨failed, written, fun i mem => ?_⟩
      cases i with
      | zero => exact Nat.succ_pos k
      | succ i => exact Nat.succ_lt_succ (before i ((mem_succ i).mp mem))

end Faithful

/-! ## Sessions along the plain run -/

section Along

variable {table : Breakpoints} {script : Nat → List Request} {outcome : Except Fault Int32}

/-- Behind `count` halts, with the text handed out so far in front of its output, the machine is
that of the plain run, which makes `n` more steps. The session takes a course that is faithful to
it. -/
def Transparent (table : Breakpoints) (script : Nat → List Request) (outcome : Except Fault Int32)
    (count : Nat) (text : String) (n : Nat) (m : Machine) (request : Request) (s : Session) :
    Prop :=
  ∃ course stops, s.Drives script count request course ∧
    Faithful (fun c => table.scripted script (count + c)) ((m.prepend text).sightings n) stops
      outcome ((m.prepend text).after n).world.output
      ⟨course.stops, course.outcome, text ++ course.output⟩

variable {n count : Nat} {m : Machine} {text : String} {request : Request} {s : Session}
  {r : Monitored} (pending : Session.Pending request s r)
  (leads : ∀ halt, Monitored.Comes s.breakpoints (.running m) halt →
    Monitored.Comes s.breakpoints r halt)

include pending leads

/-- The run has ended. -/
theorem transparent_of_outcome? (finished : m.outcome? = some outcome) :
    Transparent table script outcome count text n m request s := by
  have finished' : (m.prepend text).outcome? = some outcome := by
    rw [Machine.outcome?_prepend, finished]
  refine ⟨_, [], .finished pending (leads _ (.of_outcome? finished)), ?_⟩
  rw [Machine.after_of_outcome? finished', Machine.sightings_of_outcome? finished']
  exact .nil

omit pending leads in
/-- There is nothing to stop for at the visit. -/
theorem Transparent.go {v : Sighting} (seen : m.sighting? = some v)
    (sound : ∀ fault, ¬ (v.prepend text).Tests (table.scripted script count) (.error fault))
    (go : ¬ (v.prepend text).Stops (table.scripted script count))
    (rest : Transparent table script outcome count text n m.step request s) :
    Transparent table script outcome count text (n + 1) m request s := by
  obtain ⟨course, stops, drives, faithful⟩ := rest
  refine ⟨course, stops.map (· + 1), drives, ?_⟩
  rw [Machine.sightings_succ, Machine.after_succ, Machine.step_prepend, Machine.sighting?_prepend,
    seen]
  exact Faithful.cons (fun c => table.scripted script (count + c)) [] sound
    (.inr ⟨rfl, go⟩) (by simpa using faithful)

/-- The session stops at the visit. -/
theorem Transparent.stop {v : Sighting} (seen : m.sighting? = some v)
    (edited : s.breakpoints = table.scripted script count) (quiet : ∀ q ∈ script count, q.Quiet)
    (sound : ∀ fault, ¬ (v.prepend text).Tests (table.scripted script count) (.error fault))
    (stop : (v.prepend text).Stops (table.scripted script count))
    (comes : Monitored.Comes s.breakpoints (.running m)
      (.suspended ⟨⟨v.node, v.scope, m.stack⟩, v.world⟩))
    (rest : ∀ m' suspension, m'.prepend (text ++ v.world.output) = m.step.prepend text →
      suspension.resume = .running m' →
      Transparent table script outcome (count + 1) (text ++ v.world.output) n m' .resume
        ⟨.suspended suspension, table.scripted script (count + 1)⟩) :
    Transparent table script outcome count text (n + 1) m request s := by
  let suspension : Suspension := ⟨⟨v.node, v.scope, m.stack⟩, v.world⟩
  let taken := suspension.takeOutput.2
  have here : suspension.pause.machine suspension.world = m :=
    (Machine.sighting?_eq_some seen).1.symm
  have same : (taken.pause.machine taken.world).step.prepend (text ++ v.world.output) =
      m.step.prepend text := by
    rw [← Machine.step_prepend, ← Machine.step_prepend, Machine.prepend_append,
      suspension.machine_takeOutput, here]
  obtain ⟨course, stops, drives, faithful⟩ := rest _ taken same rfl
  have after : (script count).foldl Breakpoints.edited s.breakpoints =
      table.scripted script (count + 1) := by
    rw [edited, Breakpoints.scripted]
  have drives' : s.Drives script count request _ :=
    .suspended pending (leads _ comes) quiet (after.symm ▸ drives)
  refine ⟨_, 0 :: stops.map (· + 1), drives', ?_⟩
  have shifted : (fun c => table.scripted script (count + 1 + c)) =
      fun c => table.scripted script (count + ([0].length + c)) :=
    funext fun c => congrArg _ (Nat.add_assoc count 1 c)
  rw [same, shifted, String.append_assoc] at faithful
  rw [Machine.sightings_succ, Machine.after_succ, Machine.step_prepend, Machine.sighting?_prepend,
    seen]
  exact Faithful.cons (fun c => table.scripted script (count + c)) [0] sound
    (.inl ⟨rfl, stop⟩) faithful

omit pending leads in
/-- The session goes on by `r`, which has come to the machine `m`. -/
theorem transparent (text : String) (count : Nat) (free : table.CallFree)
    (quiet : ∀ n, ∀ q ∈ script n, q.Quiet)
    (ended : ((m.prepend text).after n).outcome? = some outcome)
    (edited : s.breakpoints = table.scripted script count) (pending : Session.Pending request s r)
    (leads : ∀ halt, Monitored.Comes s.breakpoints (.running m) halt →
      Monitored.Comes s.breakpoints r halt) :
    Transparent table script outcome count text n m request s := by
  induction n generalizing m text count request s r with
  | zero =>
    exact transparent_of_outcome? pending leads (Machine.outcome?_prepend text m ▸ ended)
  | succ n ih =>
    cases finished : m.outcome? with
    | some outcome' =>
      have finished' : (m.prepend text).outcome? = some outcome' := by
        rw [Machine.outcome?_prepend, finished]
      rw [Machine.after_of_outcome? finished', finished'] at ended
      cases ended
      exact transparent_of_outcome? pending leads finished
    | none =>
      rw [Machine.after_succ, Machine.step_prepend] at ended
      -- Whatever lets the session pass the step leaves the rest of the run to the induction.
      have going (passes : ∀ halt, Monitored.Comes s.breakpoints (.running m.step) halt →
          Monitored.Comes s.breakpoints (.running m) halt) :
          Transparent table script outcome count text n m.step request s :=
        ih _ _ ended edited pending fun halt comes => leads halt (passes halt comes)
      cases seen : m.sighting? with
      | none =>
        obtain ⟨course, stops, drives, faithful⟩ :=
          going fun halt => .pass finished (by simp [seen])
        refine ⟨course, stops, drives, ?_⟩
        rw [Machine.sightings_succ, Machine.after_succ, Machine.step_prepend,
          Machine.sighting?_prepend, seen]
        exact faithful
      | some v =>
        have tests (outcome : Except Fault Int32) :
            (v.prepend text).Tests (table.scripted script count) outcome ↔ ∃ breakpoint,
              s.breakpoints.get? v.node.line = some breakpoint ∧
              outcome = breakpoint.condition.valueIn v.world.scopes v.scope := by
          rw [edited]
          exact Sighting.tests_iff (v := v.prepend text) (free.scripted quiet count)
        cases found : s.breakpoints.get? v.node.line with
        | none =>
          rw [found] at tests
          have untested (outcome : Except Fault Int32) :
              ¬ (v.prepend text).Tests (table.scripted script count) outcome := by
            simp [tests]
          exact .go seen (fun _ => untested _) (fun ⟨_, _, holds⟩ => untested _ holds)
            (going fun halt => .pass finished (by simp [seen, found]))
        | some breakpoint =>
          have callFree := (edited ▸ free.scripted quiet count : s.breakpoints.CallFree).get? found
          have ends := Machine.ends_of_callFree callFree v.scope v.world
          have here : Pause.machine ⟨v.node, v.scope, m.stack⟩ v.world = m :=
            (Machine.sighting?_eq_some seen).1.symm
          simp only [found, Option.some.injEq, exists_eq_left'] at tests
          cases known : breakpoint.condition.valueIn v.world.scopes v.scope with
          | error fault =>
            rw [known] at ends tests
            -- The frames under the condition hand its fault on, and the session ends with it.
            obtain ⟨world, written, comes⟩ := Monitored.Comes.raise s.breakpoints
              m.stack v.world fun a b wrong => Expr.valueIn_ne_wrongArgumentsNumber a b _
                (known.trans (congrArg Except.error wrong))
            refine ⟨_, [], .finished pending (leads _ (.test seen found ends comes)), ?_⟩
            rw [written, Machine.sightings_succ, Machine.sighting?_prepend, seen]
            exact Faithful.fault ((tests _).mpr rfl)
          | ok value =>
            rw [known] at ends tests
            have sound (fault : Fault) : ¬ (v.prepend text).Tests (table.scripted script count)
                (.error fault) := by
              simp [tests]
            by_cases zero : value = 0
            · refine .go seen sound ?_ (going fun halt comes => .test seen found ends ?_)
              · rintro ⟨value', nonzero, holds⟩
                rw [tests] at holds
                cases holds
                exact nonzero zero
              · rw [Monitored.settle, if_pos zero, here]
                exact comes
            · refine .stop pending leads seen edited (quiet count) sound
                ⟨value, zero, (tests _).mpr rfl⟩ (.test seen found ends ?_) ?_
              · rw [Monitored.settle, if_neg zero]
                exact .suspended _
              · intro m' suspension same resumes
                exact ih _ _ (same ▸ ended) rfl .resume fun halt comes => resumes ▸ comes

end Along

/-- Debugging is transparent. Under a table and a script that call nothing, the session of a program
whose plain run ends takes a course that is faithful to the visits of that run. -/
theorem Session.debugging_transparent {program : Program} {budget : Nat}
    {outcome : Except Fault Int32} {world : World}
    (ends : (Machine.ofProgram program).run budget = some (outcome, world))
    {table : Breakpoints} (free : table.CallFree) {script : Nat → List Request}
    (quiet : ∀ n, ∀ q ∈ script n, q.Quiet) :
    ∃ course stops, (Session.start program table).Drives script 0 .wait course ∧
      Faithful (table.scripted script) ((Machine.ofProgram program).sightings budget) stops outcome
        world.output course := by
  obtain ⟨n, lt, ended, rfl⟩ := Machine.run_eq_some_iff.mp ends
  rw [Machine.sightings_eq_of_le ended (Nat.le_of_lt lt)]
  obtain ⟨course, stops, drives, faithful⟩ := transparent "" 0 free quiet
    ((Machine.ofProgram program).prepend_empty.symm ▸ ended)
    (s := Session.start program table) rfl .wait fun halt comes => comes
  simp only [Machine.prepend_empty, Nat.zero_add, String.empty_append] at faithful
  exact ⟨course, stops, drives, faithful⟩

/-- A program that returns at once. -/
def returning : Program :=
  ⟨⟨[.returns (.literal 7 1) 1], 1⟩, 1⟩

/-- The session stops at the block, where its only breakpoint is moved to another line. -/
theorem Session.debugging_transparent_of_return :
    let table := Breakpoints.empty.insert 1 .unconditional
    let script := fun _ => [Request.position, .remove 1, .insert 2 none]
    ((Machine.ofProgram returning).run 10).map Prod.fst = some (.ok 7) ∧ table.CallFree ∧
      (∀ n, ∀ q ∈ script n, q.Quiet) ∧
      ∃ (world : World) (course : Course) (stops : List Nat),
        (Session.start returning table).Drives script 0 .wait course ∧
        Faithful (table.scripted script) ((Machine.ofProgram returning).sightings 10) stops (.ok 7)
          world.output course := by
  have ran : (Machine.ofProgram returning).run 10 =
      some (.ok 7, ((Machine.ofProgram returning).after 7).world) := by
    rfl
  have free : (Breakpoints.empty.insert 1 .unconditional).CallFree := by
    intro entry mem
    cases List.mem_singleton.mp mem
    trivial
  have quiet (n : Nat) : ∀ q ∈ [Request.position, .remove 1, .insert 2 none], q.Quiet := by
    intro q hq
    simp only [List.mem_cons, List.not_mem_nil, or_false] at hq
    rcases hq with rfl | rfl | rfl
    · trivial
    · trivial
    · intro breakpoint made
      cases made
      trivial
  refine ⟨by rw [ran]; rfl, free, quiet, _, Session.debugging_transparent ran free quiet⟩

end FunLanguage
