import FunLanguage.Proofs.BigStep
import FunLanguage.Proofs.Interrupts

/-!
# Tracking a machine

`Tracks` relates one big-step evaluation to the run of one machine: it says which state the machine
comes to for a value, that it comes to the same fault in front of the stack, and that both see the
same visits and leave the same world, but for interrupts. It is built up step by step
(`Tracks.visit`, `Tracks.skip`) and from one evaluation to the next (`Tracks.bind`,
`Tracks.followedBy`).

An evaluation whose fuel is exhausted belongs to a machine that is still under way after a number of
steps, so that a machine that ends has an evaluation that does.
-/

namespace FunLanguage

/-- The node and the scope of a visit. -/
def Sighting.place (v : Sighting) : Node × ScopeId :=
  (v.node, v.scope)

/-! ## Scopes with the same interrupts -/

namespace Scopes

/-- All scopes that there were are interrupted as they were. -/
structure SameInterrupts (s s' : Scopes) : Prop where
  size : s.size ≤ s'.size
  interrupt? : ∀ j < s.size, (s'.scope j).interrupt? = (s.scope j).interrupt?

namespace SameInterrupts

variable {s s' s'' : Scopes}

theorem refl (s : Scopes) : s.SameInterrupts s :=
  ⟨Nat.le_refl _, fun _ _ => rfl⟩

theorem trans (h : s.SameInterrupts s') (h' : s'.SameInterrupts s'') : s.SameInterrupts s'' :=
  ⟨Nat.le_trans h.size h'.size, fun j lt =>
    (h'.interrupt? j (Nat.lt_of_lt_of_le lt h.size)).trans (h.interrupt? j lt)⟩

theorem isInterrupted (h : s.SameInterrupts s') {j : ScopeId} (lt : j < s.size) :
    s'.isInterrupted j = s.isInterrupted j := by
  rw [Scopes.isInterrupted, h.interrupt? j lt, Scopes.isInterrupted]

theorem modify (s : Scopes) (i : ScopeId) {f : Scope → Scope}
    (same : ∀ t, (f t).interrupt? = t.interrupt?) : s.SameInterrupts (s.modify i f) :=
  ⟨by simp, fun j _ => field_modify Scope.interrupt? s i j same⟩

theorem child (s : Scopes) (parent : ScopeId) : s.SameInterrupts (s.child parent).2 :=
  ⟨by simp, fun j _ => s.interrupt?_child parent j⟩

theorem release (s : Scopes) (i : ScopeId) : s.SameInterrupts (s.release i) :=
  modify s i fun _ => rfl

theorem bindParameters (s : Scopes) (i : ScopeId) (bindings : List (String × Int32)) :
    s.SameInterrupts (s.bindParameters i bindings) :=
  ⟨by simp, fun j _ => field_bindParameters Scope.interrupt? s i j bindings fun _ _ _ => rfl⟩

/-- A scope that was not there at first is interrupted as if it never was. -/
theorem of_interrupt_new {i : ScopeId} {value : Int32} (new : s.size ≤ i)
    (before : s.SameInterrupts s') (h : (s'.interrupt i value).SameInterrupts s'') :
    s.SameInterrupts s'' := by
  refine ⟨Nat.le_trans before.size (by simpa [Scopes.interrupt] using h.size), fun j lt => ?_⟩
  have old : j < s'.size := Nat.lt_of_lt_of_le lt before.size
  rw [h.interrupt? j (by simpa [Scopes.interrupt] using old), Scopes.interrupt,
    scope_modify_of_ne (Nat.ne_of_gt (Nat.lt_of_lt_of_le lt new)), before.interrupt? j lt]

theorem interrupt (h : s.SameInterrupts s') (i : ScopeId) (value : Int32) :
    (s.interrupt i value).SameInterrupts (s'.interrupt i value) := by
  refine ⟨by simpa [Scopes.interrupt] using h.size, fun j lt => ?_⟩
  have old : j < s.size := by simpa [Scopes.interrupt] using lt
  simp only [Scopes.interrupt, scope_modify, old, Nat.lt_of_lt_of_le old h.size, and_true]
  split
  · rfl
  · exact h.interrupt? j old

end SameInterrupts

theorem interrupt?_interrupt_self {s : Scopes} {i : ScopeId} (created : i < s.size)
    (value : Int32) : ((s.interrupt i value).scope i).interrupt? = some value := by
  rw [interrupt, scope_modify_self created]

end Scopes

namespace BigStep

open Evaluation Machine

/-! ## Evaluations that track machines -/

/-- Where an evaluation has come to that has seen the first steps of the machine. -/
def Chronicle.along (m : Machine) (n : Nat) (visits : List (Node × ScopeId)) : Chronicle :=
  ⟨(m.after n).world.forgetInterrupts, visits ++ (m.sightings n).map Sighting.place⟩

/-- What has become of an evaluation tells what the machine does. If there is a value, the machine
comes to a state that is right for it; if there is a fault, to the same fault in front of the stack;
and in each case past the same visits and to the same world. -/
def Tells {α : Type} (exhausted : Prop) (m : Machine) (visits : List (Node × ScopeId))
    (stack : List Frame) (right : α → Machine → Prop) : Option (Except Fault α × Chronicle) → Prop
  | none => exhausted
  | some (.ok a, c) => ∃ n, c = .along m n visits ∧ right a (m.after n)
  | some (.error fault, c) =>
    ∃ n, c = .along m n visits ∧ ∃ world, m.after n = ⟨.raise fault, stack, world⟩

/-- The evaluation, in this world, tells what the machine does, and if it is exhausted then the
machine is under way for some steps at least. -/
def Tracks {α : Type} (steps : Nat) (x : Evaluation α) (w : World) (m : Machine)
    (stack : List Frame) (right : α → Machine → Prop) : Prop :=
  ∀ visits, Tells (∀ k < steps, (m.after k).outcome? = none) m visits stack right (x ⟨w, visits⟩)

namespace Evaluation

variable {α β γ : Type}

/-- One evaluation after another, whether the first fails or not. -/
def followedBy (x : Evaluation α) (f : Except Fault α → Evaluation β) : Evaluation β := fun c =>
  match x c with
  | none => none
  | some (outcome, c) => f outcome c

theorem bind_eq (x : Evaluation α) (f : α → Evaluation β) :
    x >>= f = x.followedBy fun
      | .ok a => f a
      | .error fault => fail fault := by
  funext c
  dsimp only [Bind.bind, followedBy]
  rcases x c with _ | ⟨_ | _, _⟩ <;> rfl

theorem bind_assoc (x : Evaluation α) (f : α → Evaluation β) (g : β → Evaluation γ) :
    x >>= f >>= g = x >>= fun a => f a >>= g := by
  funext c
  dsimp only [Bind.bind]
  rcases x c with _ | ⟨_ | _, _⟩ <;> rfl

theorem calledBy_eq (name : String) (line : Nat) (x : Evaluation α) :
    calledBy name line x = x.followedBy fun
      | .ok a => pure a
      | .error (.wrongArgumentsNumber _ _) => fail (.functionCall name line)
      | .error fault => fail fault := by
  funext c
  dsimp only [calledBy, followedBy]
  rcases x c with _ | ⟨fault | _, _⟩
  · rfl
  · cases fault <;> rfl
  · rfl

theorem releasing_bind (i : ScopeId) (x : Evaluation α) (f : α → Evaluation β) :
    releasing i (x >>= f) = x.followedBy fun
      | .ok a => releasing i (f a)
      | .error fault => releasing i (fail fault) := by
  funext c
  dsimp only [releasing, Bind.bind, followedBy]
  rcases x c with _ | ⟨_ | _, _⟩ <;> rfl

end Evaluation

theorem along_zero (m : Machine) (visits : List (Node × ScopeId)) :
    Chronicle.along m 0 visits = ⟨m.world.forgetInterrupts, visits⟩ := by
  simp [Chronicle.along]

theorem along_add (a b : Nat) (m : Machine) (visits : List (Node × ScopeId)) :
    Chronicle.along (m.after a) b (Chronicle.along m a visits).visits =
      .along m (a + b) visits := by
  simp [Chronicle.along, after_add, sightings_add]

namespace Tells

variable {α : Type} {exhausted : Prop} {m : Machine} {visits : List (Node × ScopeId)}
  {stack : List Frame} {right : α → Machine → Prop} {result : Option (Except Fault α × Chronicle)}

theorem imp {exhausted' : Prop} {right' : α → Machine → Prop}
    (h : Tells exhausted m visits stack right result) (exhausted_of : exhausted → exhausted')
    (right_of : ∀ a m', right a m' → right' a m') :
    Tells exhausted' m visits stack right' result := by
  match result, h with
  | none, h => exact exhausted_of h
  | some (.ok a, _), ⟨n, along, reached⟩ => exact ⟨n, along, right_of a _ reached⟩
  | some (.error _, _), h => exact h

/-- It is enough to look at a later state of the machine. -/
theorem of_after {n : Nat} {later : List (Node × ScopeId)}
    (seen : (Chronicle.along m n visits).visits = later)
    (h : Tells exhausted (m.after n) later stack right result) :
    Tells exhausted m visits stack right result := by
  subst seen
  match result, h with
  | none, h => exact h
  | some (.ok _, _), ⟨k, along, reached⟩ =>
    exact ⟨n + k, along.trans (along_add n k m visits), by rwa [after_add]⟩
  | some (.error _, _), ⟨k, along, raised⟩ =>
    exact ⟨n + k, along.trans (along_add n k m visits), by rwa [after_add]⟩

end Tells

namespace Tracks

variable {α β : Type} {steps : Nat} {x : Evaluation α} {w : World} {m : Machine}
  {stack above : List Frame} {right : α → Machine → Prop} {right' : β → Machine → Prop}

theorem pure {a : α} (same : w = m.world.forgetInterrupts) (h : right a m) :
    Tracks steps (Pure.pure a : Evaluation α) w m stack right := fun visits =>
  ⟨0, by rw [along_zero, ← same], h⟩

theorem fail {fault : Fault} {world : World} (same : w = world.forgetInterrupts) :
    Tracks steps (Evaluation.fail fault) w ⟨.raise fault, stack, world⟩ stack right := fun visits =>
  ⟨0, by rw [along_zero, ← same], world, rfl⟩

/-- An evaluation that is exhausted at once. -/
theorem exhausted {y : Evaluation α} (le : steps ≤ 1) (none : ∀ c, y c = .none)
    (running : 0 < steps → m.outcome? = .none) : Tracks steps y w m stack right := by
  intro visits
  rw [none]
  intro k lt
  obtain rfl : k = 0 := by omega
  exact running lt

theorem mono (h : Tracks steps x w m stack right) (less : Nat) (le : less ≤ steps) :
    Tracks less x w m stack right := fun visits =>
  (h visits).imp (fun running k lt => running k (Nat.lt_of_lt_of_le lt le))
    fun _ _ reached => reached

/-- What is right for the values may be said of the machine in other words. -/
theorem imp {right' : α → Machine → Prop} (h : Tracks steps x w m stack right)
    (right_of : ∀ a m', right a m' → right' a m') : Tracks steps x w m stack right' := fun visits =>
  (h visits).imp (fun running => running) right_of

theorem of_eq {w' : World} (h : Tracks steps x w' m stack right) (same : w = w') :
    Tracks steps x w m stack right :=
  same ▸ h

/-! ### What a machine does in one step -/

/-- The machine does a step of which the evaluation knows nothing. -/
theorem pass {more : Nat} (steps : Nat) {m' : Machine} (le : more ≤ steps + 1)
    (running : m.outcome? = none) (next : m.step = m') (silent : m.sighting? = none)
    (h : Tracks steps x w m' stack right) :
    Tracks more x w m stack right := by
  subst next
  intro visits
  have seen : (Chronicle.along m 1 visits).visits = visits := by
    simp [Chronicle.along, silent]
  refine (Tells.of_after seen (h visits)).imp ?_ fun _ _ h => h
  intro later k lt
  cases k with
  | zero => exact running
  | succ k => exact later k (by omega)

theorem skip {m' : Machine} (running : m.outcome? = none) (next : m.step = m')
    (silent : m.sighting? = none) (h : Tracks steps x w m' stack right) :
    Tracks steps x w m stack right :=
  pass steps (Nat.le_succ steps) running next silent h

/-- The evaluation starts with the visit that the machine is about to make. -/
theorem visit {node : Node} {i : ScopeId} {world : World} {m' : Machine}
    (next : enter node i above world = m') (visited : node.isVisited = true)
    (h : Tracks steps x w m' stack right) :
    Tracks (steps + 1) (Evaluation.visit node i >>= fun _ => x) w ⟨.evaluate node i, above, world⟩
      stack right := by
  subst next
  intro visits
  have seen : (Chronicle.along ⟨.evaluate node i, above, world⟩ 1 visits).visits =
      visits ++ [(node, i)] := by
    simp [Chronicle.along, sighting?, visit?, visited, Sighting.place]
  refine (Tells.of_after seen (h (visits ++ [(node, i)]))).imp ?_ fun _ _ h => h
  intro running k lt
  cases k with
  | zero => rfl
  | succ k => exact running k (Nat.lt_of_succ_lt_succ lt)

/-! ### What an evaluation does by itself -/

theorem scopes {f : Scopes → Evaluation α} (h : Tracks steps (f w.scopes) w m stack right) :
    Tracks steps (Evaluation.scopes >>= f) w m stack right :=
  h

theorem setScopes {s : Scopes} (h : Tracks steps x { w with scopes := s } m stack right) :
    Tracks steps (Evaluation.setScopes s >>= fun _ => x) w m stack right :=
  h

/-- A binding that evaluation and machine make in the same way. -/
theorem update {s : Scopes} {fault : Fault} (op : Scopes → Except BindingError Unit × Scopes)
    (commutes : op s.forgetInterrupts = (op s).map id Scopes.forgetInterrupts)
    (ok : ∀ s', op s = (.ok (), s') →
      Tracks steps x { w with scopes := s'.forgetInterrupts } m stack right)
    (error : ∀ e s', op s = (.error e, s') →
      Tracks steps (Evaluation.fail fault) { w with scopes := s'.forgetInterrupts } m stack right) :
    Tracks steps (Evaluation.update fault (op s.forgetInterrupts) >>= fun _ => x) w m stack
      right := by
  rw [commutes]
  cases done : op s with
  | mk outcome s' =>
    cases outcome with
    | ok _ => exact ok s' done
    | error e => exact error e s' done

theorem write {text : String} (h : Tracks steps x (w.write text) m stack right) :
    Tracks steps (Evaluation.write text >>= fun _ => x) w m stack right :=
  h

/-! ### One evaluation after another -/

theorem followedBy {f : Except Fault α → Evaluation β} (hx : Tracks steps x w m above right)
    (ok : ∀ a m', right a m' → Tracks steps (f (.ok a)) m'.world.forgetInterrupts m' stack right')
    (error : ∀ fault world,
      Tracks steps (f (.error fault)) world.forgetInterrupts ⟨.raise fault, above, world⟩ stack
        right') :
    Tracks steps (x.followedBy f) w m stack right' := by
  -- If what follows is exhausted, then the machine was under way before it as well.
  have behind (n : Nat) (visits : List (Node × ScopeId)) {y : Evaluation β}
      (h : Tracks steps y (m.after n).world.forgetInterrupts (m.after n) stack right') :
      Tells (∀ k < steps, (m.after k).outcome? = none) m visits stack right'
        (y (.along m n visits)) := by
    refine (Tells.of_after rfl (h (Chronicle.along m n visits).visits)).imp ?_ fun _ _ h => h
    intro later k lt
    refine outcome?_after_eq_none (b := n + k) ?_ (Nat.le_add_left k n)
    rw [after_add]
    exact later k lt
  intro visits
  have hx := hx visits
  rw [Evaluation.followedBy]
  match x ⟨w, visits⟩, hx with
  | none, running => exact running
  | some (.ok a, _), ⟨n, rfl, reached⟩ => exact behind n visits (ok a _ reached)
  | some (.error fault, _), ⟨n, rfl, world, raised⟩ =>
    exact behind n visits (raised ▸ error fault world)

theorem released {i : ScopeId} {a : α}
    (h : Tracks steps (Pure.pure a : Evaluation α) { w with scopes := w.scopes.release i } m stack
      right) :
    Tracks steps (releasing i (Pure.pure a : Evaluation α)) w m stack right :=
  h

theorem released_fail {i : ScopeId} {fault : Fault}
    (h : Tracks steps (Evaluation.fail fault) { w with scopes := w.scopes.release i } m stack
      right) :
    Tracks steps (releasing i (Evaluation.fail fault)) w m stack right :=
  h

theorem bind {f : α → Evaluation β} (hx : Tracks steps x w m above right)
    (error : ∀ fault world, Tracks steps (Evaluation.fail fault) world.forgetInterrupts
      ⟨.raise fault, above, world⟩ stack right')
    (ok : ∀ a m', right a m' → Tracks steps (f a) m'.world.forgetInterrupts m' stack right') :
    Tracks steps (x >>= f) w m stack right' := by
  rw [bind_eq]
  exact hx.followedBy ok error

/-- A fault passes through a frame that knows nothing of it. -/
theorem fail_frame {frame : Frame} {fault : Fault} {world : World}
    (plain : unwind frame fault stack world = ⟨.raise fault, stack, world⟩) :
    Tracks steps (Evaluation.fail fault) world.forgetInterrupts
      ⟨.raise fault, frame :: stack, world⟩ stack right :=
  skip rfl plain rfl (.fail rfl)

end Tracks

end BigStep

end FunLanguage
