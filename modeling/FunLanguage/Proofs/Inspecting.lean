import FunLanguage.Proofs.Output
import FunLanguage.Trace

/-!
# Inspected runs

An inspector is told of the visits of a run. As long as it lets them go on, and leaves their worlds
alone, the run under inspection is the plain one (`Inspector.after_of_permits`). The fault that it
puts an end to a visit with is handed on by every frame of the stack, unless it is a mismatch of
arguments (`Machine.after_raise`); so the run has come to its end, and all it does from there on is
to give up one frame after another (`Inspector.inspection_cuts_run`).
-/

namespace FunLanguage

namespace Inspector

variable {σ : Type} (inspector : Inspector σ)

/-! ## Steps under inspection -/

/-- The notes and the machine after a number of steps under inspection. -/
def after : (count : Nat) → σ → Machine → σ × Machine
  | 0, notes, m => (notes, m)
  | count + 1, notes, m => after count (inspector.step notes m).1 (inspector.step notes m).2

/-- The visits that the inspector is told of in the first steps, in order. -/
def sightings : (count : Nat) → σ → Machine → List Sighting
  | 0, _, _ => []
  | count + 1, notes, m =>
    m.sighting?.toList ++ sightings count (inspector.step notes m).1 (inspector.step notes m).2

/-- The inspector lets all the visits go on, and leaves their worlds alone. It starts with some
notes and has made others by then. -/
inductive Permits : σ → List Sighting → σ → Prop
  | nil (notes : σ) : Permits notes [] notes
  | cons {notes next last : σ} {v : Sighting} {vs : List Sighting}
      (permitted : inspector.visit notes v.node v.scope v.world = (none, next, v.world))
      (others : Permits next vs last) : Permits notes (v :: vs) last

theorem Permits.of_append {inspector : Inspector σ} {notes last : σ} {vs ws : List Sighting}
    (permits : inspector.Permits notes (vs ++ ws) last) :
    ∃ next, inspector.Permits notes vs next := by
  induction vs generalizing notes with
  | nil => exact ⟨notes, .nil notes⟩
  | cons v vs ih =>
    cases permits with
    | cons permitted others =>
      obtain ⟨next, permits⟩ := ih others
      exact ⟨next, .cons permitted permits⟩

/-- The inspector lets every visit go on and changes no scope. It may write. -/
def Observes : Prop :=
  ∀ notes node i world, (inspector.visit notes node i world).1 = none ∧
    (inspector.visit notes node i world).2.2.scopes = world.scopes

/-- The inspector writes nothing. -/
def Silent : Prop :=
  ∀ notes node i world, (inspector.visit notes node i world).2.2.output = world.output

variable {inspector} {notes notes' : σ} {m : Machine}

theorem step_of_no_sighting (unseen : m.sighting? = none) :
    inspector.step notes m = (notes, m.step) := by
  obtain ⟨control, stack, world⟩ := m
  cases control with
  | evaluate node i =>
    cases visited : node.isVisited with
    | true => simp [Machine.sighting?, Machine.visit?, visited] at unseen
    | false => simp [step, visited]
  | deliver value => rfl
  | raise fault => rfl

theorem step_of_sighting {v : Sighting} {fault? : Option Fault} {world : World}
    (seen : m.sighting? = some v)
    (told : inspector.visit notes v.node v.scope v.world = (fault?, notes', world)) :
    inspector.step notes m = (notes', match fault? with
      | some fault => ⟨.raise fault, m.stack, world⟩
      | none => Machine.step { m with world }) := by
  obtain ⟨here, visited⟩ := Machine.sighting?_eq_some seen
  rw [here]
  simp only [step, visited, if_true, told]
  cases fault? <;> rfl

theorem step_of_permitted {v : Sighting} (seen : m.sighting? = some v)
    (permitted : inspector.visit notes v.node v.scope v.world = (none, notes', v.world)) :
    inspector.step notes m = (notes', m.step) := by
  have same : { m with world := v.world } = m := by
    rw [(Machine.sighting?_eq_some seen).1]
  rw [step_of_sighting seen permitted]
  exact congrArg (fun m => (notes', Machine.step m)) same

theorem after_add (a b : Nat) (notes : σ) (m : Machine) : inspector.after (a + b) notes m =
    inspector.after b (inspector.after a notes m).1 (inspector.after a notes m).2 := by
  induction a generalizing notes m with
  | zero => rw [Nat.zero_add, after]
  | succ a ih => rw [Nat.succ_add, after, ih, after]

theorem sightings_add (a b : Nat) (notes : σ) (m : Machine) : inspector.sightings (a + b) notes m =
    inspector.sightings a notes m ++
      inspector.sightings b (inspector.after a notes m).1 (inspector.after a notes m).2 := by
  induction a generalizing notes m with
  | zero => rw [Nat.zero_add, sightings, after, List.nil_append]
  | succ a ih => rw [Nat.succ_add, sightings, ih, sightings, after, List.append_assoc]

/-- A run that comes to an outcome gives it, with the notes and the world by then. -/
theorem exists_run {n : Nat} {outcome : Except Fault Int32}
    (ended : (inspector.after n notes m).2.outcome? = some outcome) : ∃ budget,
      inspector.run budget notes m =
        some (outcome, (inspector.after n notes m).1, (inspector.after n notes m).2.world) := by
  induction n generalizing notes m with
  | zero => exact ⟨1, by rw [run, show m.outcome? = some outcome from ended]; rfl⟩
  | succ n ih =>
    cases now : m.outcome? with
    | none =>
      rw [after] at ended ⊢
      obtain ⟨budget, ran⟩ := ih ended
      exact ⟨budget + 1, by rw [run, now]; exact ran⟩
    | some outcome' =>
      have stays : inspector.step notes m = (notes, m) := by
        rw [step_of_no_sighting (Machine.sighting?_of_outcome? now), Machine.step_of_outcome? now]
      rw [after, stays] at ended ⊢
      exact ih ended

/-! ## Runs that are let go on -/

/-- Whoever is let go on takes the steps of a plain run, and makes its visits. -/
theorem after_of_permits {n : Nat} (permits : inspector.Permits notes (m.sightings n) notes') :
    inspector.after n notes m = (notes', m.after n) ∧
      inspector.sightings n notes m = m.sightings n := by
  induction n generalizing notes m with
  | zero =>
    cases permits
    exact ⟨rfl, rfl⟩
  | succ n ih =>
    rw [Machine.sightings_succ] at permits ⊢
    rw [after, sightings, Machine.after_succ]
    cases seen : m.sighting? with
    | none =>
      rw [seen] at permits
      obtain ⟨there, same⟩ := ih permits
      rw [step_of_no_sighting seen, there, same]
      exact ⟨rfl, rfl⟩
    | some v =>
      rw [seen] at permits
      cases permits with
      | cons permitted others =>
        obtain ⟨there, same⟩ := ih others
        rw [step_of_permitted seen permitted, there, same]
        exact ⟨rfl, rfl⟩

theorem Observes.step (observes : inspector.Observes) (notes : σ) (m : Machine) :
    (inspector.step notes m).2.withoutOutput = m.step.withoutOutput := by
  cases seen : m.sighting? with
  | none => rw [step_of_no_sighting seen]
  | some v =>
    obtain ⟨permitted, same⟩ := observes notes v.node v.scope v.world
    have told : inspector.visit notes v.node v.scope v.world =
        (none, (inspector.visit notes v.node v.scope v.world).2.1,
          (inspector.visit notes v.node v.scope v.world).2.2) := by
      rw [← permitted]
    rw [step_of_sighting seen told, Machine.step_withoutOutput, Machine.step_withoutOutput m,
      (Machine.sighting?_eq_some seen).1]
    simp only [Machine.withoutOutput, World.withoutOutput, same]

/-- An inspector that only observes makes no difference but to the output. -/
theorem Observes.after (observes : inspector.Observes) (n : Nat) (notes : σ) {m m' : Machine}
    (same : m'.withoutOutput = m.withoutOutput) :
    (inspector.after n notes m').2.withoutOutput = (m.after n).withoutOutput := by
  induction n generalizing notes m m' with
  | zero => exact same
  | succ n ih =>
    rw [Inspector.after, Machine.after_succ]
    refine ih _ ?_
    rw [observes.step, Machine.step_withoutOutput, same, ← Machine.step_withoutOutput]

theorem Observes.exists_permits (observes : inspector.Observes) (silent : inspector.Silent)
    (notes : σ) (vs : List Sighting) : ∃ last, inspector.Permits notes vs last := by
  induction vs generalizing notes with
  | nil => exact ⟨notes, .nil notes⟩
  | cons v vs ih =>
    obtain ⟨permitted, scopes⟩ := observes notes v.node v.scope v.world
    have output := silent notes v.node v.scope v.world
    generalize told : inspector.visit notes v.node v.scope v.world = answer
      at permitted scopes output
    obtain ⟨fault?, next, world⟩ := answer
    obtain rfl : fault? = none := permitted
    obtain rfl : world = v.world := by
      cases world
      cases h : v.world
      simp_all
    obtain ⟨last, others⟩ := ih next
    exact ⟨last, .cons told others⟩

/-! ## Runs that are cut short -/

/-- A fault on its way out is not told to the inspector. -/
theorem after_raise {fault : Fault} (passing : fault.Passing) (stack : List Frame) (world : World)
    (n : Nat) :
    inspector.after n notes ⟨.raise fault, stack, world⟩ =
      (notes, Machine.after n ⟨.raise fault, stack, world⟩) ∧
    inspector.sightings n notes ⟨.raise fault, stack, world⟩ = [] := by
  induction n generalizing stack world with
  | zero => exact ⟨rfl, rfl⟩
  | succ n ih =>
    obtain ⟨world', -, next⟩ := Machine.after_raise passing stack world 1
    have next' : Machine.step ⟨.raise fault, stack, world⟩ = _ := next
    obtain ⟨there, none⟩ := ih (stack.drop 1) world'
    rw [after, sightings, step_of_no_sighting rfl, Machine.after_succ, next', there, none]
    exact ⟨rfl, rfl⟩

/-- The run under inspection takes the steps of the plain one up to a visit, is told of the `visits`
up to that one, and has nothing but the fault to do from there on. -/
structure CutAt (inspector : Inspector σ) (notes : σ) (m : Machine) (visits : List Sighting)
    (fault : Fault) (i : Nat) : Prop where
  plain : ∀ n ≤ i, (inspector.after n notes m).2 = m.after n
  visits : ∀ n > i, inspector.sightings n notes m = visits
  raises : ∀ n > i, (inspector.after n notes m).2.control = .raise fault

theorem exists_cutAt {n k : Nat} {v : Sighting} {fault : Fault} {last : σ}
    (permits : inspector.Permits notes ((m.sightings n).take k) notes')
    (visit : (m.sightings n)[k]? = some v)
    (told : inspector.visit notes' v.node v.scope v.world = (some fault, last, v.world))
    (passing : fault.Passing) :
    ∃ i, inspector.CutAt notes m ((m.sightings n).take (k + 1)) fault i ∧
      ∃ budget world, inspector.run budget notes m = some (.error fault, last, world) ∧
        world.output = v.world.output := by
  obtain ⟨i, -, before, seen⟩ := Machine.exists_of_sightings visit
  rw [← before] at permits
  have upTo (j : Nat) (le : j ≤ i) : ∃ notes₁, inspector.Permits notes (m.sightings j) notes₁ := by
    obtain ⟨d, rfl⟩ := Nat.exists_eq_add_of_le le
    exact (m.sightings_add j d ▸ permits).of_append
  obtain ⟨there, same⟩ := after_of_permits permits
  -- At this step the inspector puts its fault in place of the visit.
  have turned : inspector.after (i + 1) notes m =
      (last, ⟨.raise fault, (m.after i).stack, v.world⟩) := by
    rw [after_add, there]
    exact step_of_sighting seen told
  have made : inspector.sightings (i + 1) notes m = (m.sightings n).take (k + 1) := by
    rw [sightings_add, there, same, before, List.take_add_one, visit]
    simp [sightings, seen]
  have later (d : Nat) :
      inspector.after d last ⟨.raise fault, (m.after i).stack, v.world⟩ =
        (last, Machine.after d ⟨.raise fault, (m.after i).stack, v.world⟩) ∧
      inspector.sightings d last ⟨.raise fault, (m.after i).stack, v.world⟩ = [] :=
    after_raise passing (m.after i).stack v.world d
  refine ⟨i, ⟨fun j le => ?_, fun j gt => ?_, fun j gt => ?_⟩, ?_⟩
  · obtain ⟨notes₁, permits₁⟩ := upTo j le
    rw [(after_of_permits permits₁).1]
  · obtain ⟨d, rfl⟩ := Nat.exists_eq_add_of_le gt
    rw [sightings_add, turned, (later d).2, made, List.append_nil]
  · obtain ⟨d, rfl⟩ := Nat.exists_eq_add_of_le gt
    obtain ⟨world, -, raised⟩ := Machine.after_raise passing (m.after i).stack v.world d
    rw [after_add, turned, (later d).1, raised]
  · obtain ⟨world, written, raised⟩ :=
      Machine.after_raise passing (m.after i).stack v.world (m.after i).stack.length
    have left : inspector.after (i + 1 + (m.after i).stack.length) notes m =
        (last, ⟨.raise fault, [], world⟩) := by
      rw [after_add, turned, (later _).1, raised, List.drop_length]
    have ended : (inspector.after (i + 1 + (m.after i).stack.length) notes m).2.outcome? =
        some (.error fault) := by
      rw [left]
      rfl
    obtain ⟨budget, ran⟩ := exists_run ended
    rw [left] at ran
    exact ⟨budget, world, ran, written⟩

/-- An inspector only observes, and a fault of its cuts a run short where it is raised. Take a
program whose plain run ends. An inspector that lets every visit go on and changes no scope makes no
difference to the outcome and the scopes, nor to the output if it writes nothing itself. One that
lets the first `k` visits go on makes no difference either if there are no more. If there is one
more, and the inspector raises a fault there that no call turns into another, then the run ends with
this very fault; the visits are those of the plain run up to that one; and nothing is evaluated or
written any more. -/
theorem inspection_cuts_run {program : Program} {budget : Nat} {outcome : Except Fault Int32}
    {world : World} (ends : (Machine.ofProgram program).run budget = some (outcome, world))
    (inspector : Inspector σ) (notes : σ) :
    let start := Machine.ofProgram program
    let visits := start.sightings budget
    (inspector.Observes → ∃ budget' notes' world',
      inspector.run budget' notes start = some (outcome, notes', world') ∧
      world'.scopes = world.scopes ∧ (inspector.Silent → world' = world)) ∧
    ∀ k notes', inspector.Permits notes (visits.take k) notes' →
      (visits.length ≤ k →
        ∃ budget', inspector.run budget' notes start = some (outcome, notes', world)) ∧
      ∀ v fault last, visits[k]? = some v →
        inspector.visit notes' v.node v.scope v.world = (some fault, last, v.world) →
        fault.Passing →
        ∃ i, inspector.CutAt notes start (visits.take (k + 1)) fault i ∧
          ∃ budget' world', inspector.run budget' notes start = some (.error fault, last, world') ∧
            world'.output = v.world.output := by
  intro start visits
  obtain ⟨n, lt, ended, rfl⟩ := Machine.run_eq_some_iff.mp ends
  have all : visits = start.sightings n := Machine.sightings_eq_of_le ended (Nat.le_of_lt lt)
  -- Whoever lets all visits go on leaves the run as it is.
  have unchanged {notes' : σ} (permits : inspector.Permits notes (start.sightings n) notes') :
      ∃ budget', inspector.run budget' notes start =
        some (outcome, notes', (start.after n).world) := by
    obtain ⟨there, -⟩ := after_of_permits permits
    have ended' : (inspector.after n notes start).2.outcome? = some outcome := by
      rw [there, ended]
    obtain ⟨budget', ran⟩ := exists_run ended'
    rw [there] at ran
    exact ⟨budget', ran⟩
  refine ⟨fun observes => ?_, fun k notes' permits => ⟨fun few => ?_, fun v fault last visit told
    passing => exists_cutAt permits visit told passing⟩⟩
  · have alike := observes.after n notes (m := start) rfl
    have ended' : (inspector.after n notes start).2.outcome? = some outcome := by
      rw [← Machine.outcome?_withoutOutput, alike, Machine.outcome?_withoutOutput, ended]
    obtain ⟨budget', ran⟩ := exists_run ended'
    refine ⟨budget', _, _, ran, congrArg (·.world.scopes) alike, fun silent => ?_⟩
    obtain ⟨last, permits⟩ := observes.exists_permits silent notes (start.sightings n)
    rw [(after_of_permits permits).1]
  · rw [List.take_of_length_le few, all] at permits
    exact unchanged permits

end Inspector

/-! ## Tracers -/

/-- A tracer that is to stop after a number of visits lets all before them go on, and records
them. -/
theorem Tracer.permits {t : Tracer} {count : Nat} (stop : t.stopCount? = some count)
    (anywhere : t.stopLine? = none) {visits : Array Visit} {vs : List Sighting}
    (few : visits.size + vs.length < count) :
    t.inspector.Permits visits vs
      (visits ++ vs.map fun v => t.visit v.node v.scope v.world) := by
  induction vs generalizing visits with
  | nil => simpa using Inspector.Permits.nil visits
  | cons v vs ih =>
    rw [List.length_cons] at few
    let recorded := visits.push (t.visit v.node v.scope v.world)
    have next : t.inspector.Permits recorded vs
        (recorded ++ vs.map fun v => t.visit v.node v.scope v.world) :=
      ih (by rw [Array.size_push]; omega)
    have goes_on : ¬ count = visits.size + 1 := by omega
    have same : visits ++ ((v :: vs).map fun v => t.visit v.node v.scope v.world) =
        recorded ++ vs.map fun v => t.visit v.node v.scope v.world := by
      simp [recorded]
    rw [same]
    exact .cons (by simp [Tracer.inspector, stop, anywhere, goes_on, recorded]) next

/-- Prints in a function that returns 2, and prints what it returns. -/
def announcing : Program :=
  ⟨⟨[.definition "two" [] ⟨[.expression (.call "println" [.literal 1 1] 1),
        .returns (.literal 2 1) 1], 1⟩ 1,
    .expression (.call "println" [.call "two" [] 2] 2)], 1⟩, 1⟩

/-- The function is left in front of its return statement, which is the seventh visit. The plain run
goes on to write the value returned. -/
theorem Inspector.inspection_cuts_run_of_tracer :
    let t : Tracer := { stopCount? := some 7 }
    (∃ outcome world, (Machine.ofProgram announcing).run 60 = some (outcome, world) ∧
      world.output = "1\n2\n") ∧
    ∃ budget visits world, t.run budget announcing = some (.error .stopped, visits, world) ∧
      visits.size = 7 ∧ world.output = "1\n" := by
  intro t
  obtain ⟨outcome, world, ran, written⟩ : ∃ outcome world,
      (Machine.ofProgram announcing).run 60 = some (outcome, world) ∧ world.output = "1\n2\n" :=
    ⟨_, _, rfl, rfl⟩
  refine ⟨⟨outcome, world, ran, written⟩, ?_⟩
  let before := ((Machine.ofProgram announcing).sightings 60).take 6
  have permits : t.inspector.Permits #[] before
      (#[] ++ before.map fun v => t.visit v.node v.scope v.world) :=
    Tracer.permits rfl rfl (by decide +kernel)
  obtain ⟨v, visit, here⟩ : ∃ v, ((Machine.ofProgram announcing).sightings 60)[6]? = some v ∧
      v.world.output = "1\n" := ⟨_, rfl, rfl⟩
  obtain ⟨-, cut⟩ := (Inspector.inspection_cuts_run ran t.inspector #[]).2 6 _ permits
  obtain ⟨i, -, budget, world', stopped, left⟩ := cut v .stopped _ visit rfl nofun
  exact ⟨budget, _, world', stopped, rfl, left.trans here⟩

end FunLanguage
