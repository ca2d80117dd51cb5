import FunLanguage.Proofs.Mirror
import FunLanguage.Proofs.Sessions

/-!
# Scoping is lexical

A call sees the path of the scope that its function captures, and the scopes that are created on the
way. In sound scopes every closure on that path captures a scope of the path, so whatever is called
in turn sees no more (`Scopes.Sound.region_reach`).

Hence a call changes no other scope, and two calls that find the same along the path take the same
steps, whatever the scopes hold elsewhere, be it in the scope that the call is made in
(`Machine.scoping_is_lexical`).
-/

namespace FunLanguage

/-! ## Numbers that stay as they are -/

section Gap

variable {ρ : Shift} (none : ρ.gap = 0)

include none

theorem Shift.map_of_gap (path : List ScopeId) : path.map ρ = path := by
  rw [funext (Shift.apply_of_gap none), List.map_id']

theorem Closure.shift_of_gap (c : Closure) : c.shift ρ = c := by
  rw [Closure.shift, Shift.apply_of_gap none]

theorem Function.shift_of_gap (function : Function) : function.shift ρ = function := by
  cases function with
  | builtin b => rfl
  | closure c => rw [Function.shift, c.shift_of_gap none]

end Gap

/-! ## What a call can reach -/

namespace Scopes

variable {s s' : Scopes} {i : ScopeId}

/-- A call of a function that captures scope `i` can reach scope `j`. -/
def Reach (s : Scopes) (i j : ScopeId) : Prop :=
  j ∈ s.path i ∨ s.size ≤ j

theorem Sound.region_reach (sound : s.Sound) (i : ScopeId) :
    s.Region (s.Reach i) (s.size ≤ ·) := by
  refine ⟨fun _ new => .inr new, fun _ new => new, fun j reached k hk => ?_,
    fun j reached name c hc => ?_⟩
  · rcases reached with along | new
    · exact .inl (sound.path_subset along (List.mem_cons_of_mem j hk))
    · rw [scope_of_size_le new] at hk
      cases hk
  · rcases reached with along | new
    · rw [sound.captures j name c hc]
      exact .inl along
    · rw [scope_of_size_le new] at hc
      cases hc

/-- There are as many scopes, and those on the path of scope `i` lie in the same place and bind the
same. -/
structure AgreeAlong (s : Scopes) (i : ScopeId) (s' : Scopes) : Prop where
  size : s'.size = s.size
  ancestors : ∀ j ∈ s.path i, (s'.scope j).ancestors = (s.scope j).ancestors
  valueOf? : ∀ j ∈ s.path i, ∀ name, (s'.scope j).valueOf? name = (s.scope j).valueOf? name
  functionOf? : ∀ j ∈ s.path i, ∀ name,
    (s'.scope j).functionOf? name = (s.scope j).functionOf? name

/-- Scopes that agree along a path are the same to a call that can reach no more. -/
theorem AgreeAlong.mirrors (agree : s.AgreeAlong i s') :
    s.Mirrors ⟨s.size, 0⟩ (s.Reach i) (s.size ≤ ·) s' := by
  refine .of_created agree.size (Nat.le_refl _) (fun j created reached => ?_)
    fun j created new => absurd created (Nat.not_lt_of_le new)
  have along : j ∈ s.path i := reached.resolve_right (Nat.not_le_of_lt created)
  rw [Shift.apply_of_lt created]
  refine ⟨?_, agree.valueOf? j along, fun name => ?_⟩
  · rw [agree.ancestors j along, Shift.map_of_gap rfl]
  · rw [agree.functionOf? j along, funext (Function.shift_of_gap rfl), Option.map_id']

/-- What mirrors scopes without new numbers agrees with them. -/
theorem Mirrors.agreeAlong {ρ : Shift} {P Q : ScopeId → Prop} (same : s.Mirrors ρ P Q s')
    (none : ρ.gap = 0) (inside : ∀ j ∈ s.path i, P j) : s.AgreeAlong i s' := by
  have scope (j : ScopeId) (hj : j ∈ s.path i) : (s.scope j).Mirrors ρ (s'.scope j) := by
    have mirrors := same.scope j (inside j hj)
    rwa [Shift.apply_of_gap none] at mirrors
  refine ⟨by rw [same.size, none, Nat.add_zero], fun j hj => ?_, fun j hj => (scope j hj).valueOf?,
    fun j hj name => ?_⟩
  · rw [(scope j hj).ancestors, Shift.map_of_gap none]
  · rw [(scope j hj).functionOf?, funext (Function.shift_of_gap none), Option.map_id']

end Scopes

namespace Machine

/-- Machines that see the same make the same visits. -/
theorem Mirrors.places {ρ : Shift} {P Q : ScopeId → Prop} {m m' : Machine}
    (same : Mirrors ρ P Q m m') (within : m.Within P Q) (none : ρ.gap = 0) (n : Nat) :
    (m'.sightings n).map Sighting.place = (m.sightings n).map Sighting.place := by
  have still : m'.visit? = m.visit? := by
    rw [same.visit?, funext (Shift.apply_of_gap none), Option.map_id']
  induction n generalizing m m' with
  | zero => rfl
  | succ n ih =>
    have next := (same.step within).visit?
    rw [funext (Shift.apply_of_gap none), Option.map_id'] at next
    have first : m'.sighting?.toList.map Sighting.place =
        m.sighting?.toList.map Sighting.place := by
      rw [sighting?, sighting?, still]
      cases m.visit? <;> rfl
    rw [sightings_succ, sightings_succ, List.map_append, List.map_append, first,
      ih (same.step within) within.respects_step.within next]

/-! ## Calls -/

/-- A call of the function by itself, with the arguments evaluated. -/
def calling (c : Closure) (arguments : List Int32) (s : Scopes) (text : String) : Machine :=
  apply (.closure c) arguments [] ⟨s, text⟩

section Calls

variable {s : Scopes} {c : Closure} (arguments : List Int32) (text : String)

theorem calling_eq :
    calling c arguments s text =
      if arguments.length = c.parameters.length then
        ⟨.evaluate (.block c.body) s.size, [.result s.size],
          (Effect.call c.scope (c.parameters.zip arguments)).apply ⟨s, text⟩⟩
      else
        ⟨.raise (.wrongArgumentsNumber c.parameters.length arguments.length), [], ⟨s, text⟩⟩ := by
  simp only [calling, Machine.apply, Effect.apply, Effect.written, String.append_empty]
  rfl

theorem calling_respects {P Q : ScopeId → Prop} (region : s.Region P Q) (inside : P c.scope) :
    (calling c arguments s text).Respects P Q s := by
  rw [calling_eq]
  split
  · have touched : (Effect.call c.scope (c.parameters.zip arguments)).Inside P Q := inside
    have created : Q s.size := region.new _ (Nat.le_refl _)
    exact ⟨⟨created, List.forall_mem_singleton.mpr created, touched.region region⟩,
      touched.confined region⟩
  · exact ⟨⟨trivial, nofun, region⟩, .refl P Q s⟩

/-- The call of the function in scopes that mirror each other. -/
theorem calling_mirrors {ρ : Shift} {P Q : ScopeId → Prop} {s' : Scopes} (region : s.Region P Q)
    (inside : P c.scope) (same : s.Mirrors ρ P Q s') :
    Mirrors ρ P Q (calling c arguments s text) (calling (c.shift ρ) arguments s' text) := by
  rw [calling_eq, calling_eq, same.size_eq]
  show Mirrors ρ P Q (if arguments.length = c.parameters.length then _ else _)
    (if arguments.length = c.parameters.length then _ else _)
  split
  · have touched : (Effect.call c.scope (c.parameters.zip arguments)).Inside P Q := inside
    exact ⟨rfl, rfl, rfl, touched.mirrors region same⟩
  · exact ⟨rfl, rfl, rfl, same⟩

theorem calling_respects_after {P Q : ScopeId → Prop} (region : s.Region P Q)
    (inside : P c.scope) (n : Nat) : ((calling c arguments s text).after n).Respects P Q s := by
  have entered := calling_respects arguments text region inside
  have later := entered.within.respects_after n
  exact ⟨later.within, entered.confined.trans later.confined⟩

/-- A call leaves every scope that there was its bindings and its interrupt. -/
theorem calling_retains (n : Nat) :
    s.Retains ((calling c arguments s text).after n).world.scopes ∧
      s.SameInterrupts ((calling c arguments s text).after n).world.scopes :=
  (calling_respects_after arguments text s.region_new trivial n).confined.retains

end Calls

/-- Scoping is lexical. The scopes of a program, whether it runs by itself or in a session, are
sound. In sound scopes, a call of a function that is bound in scope `i` changes no scope but those
on the path of `i`. And if other scopes agree with these along that path, the same call there ends
in the same way if it ends, writes the same and visits the same nodes in the same scopes, and they
still agree: at every step on the way, and though they may differ in everything else. -/
theorem scoping_is_lexical :
    (∀ program n, ((ofProgram program).after n).world.scopes.Sound) ∧
    (∀ program scopes, Session.Heap program scopes → scopes.Sound) ∧
    ∀ (s : Scopes) (i : ScopeId) (name : String) (c : Closure) (arguments : List Int32)
      (text : String), s.Sound → (s.scope i).functionOf? name = some (.closure c) →
      (∀ n, ∀ j < s.size, j ∉ s.path i →
        ((calling c arguments s text).after n).world.scopes.scope j = s.scope j) ∧
      ∀ s', s.AgreeAlong i s' → ∀ n,
        let m := (calling c arguments s text).after n
        let m' := (calling c arguments s' text).after n
        m'.outcome? = m.outcome? ∧ m'.world.output = m.world.output ∧
        ((calling c arguments s' text).sightings n).map Sighting.place =
          ((calling c arguments s text).sightings n).map Sighting.place ∧
        m.world.scopes.AgreeAlong i m'.world.scopes ∧
        s.SameInterrupts m.world.scopes ∧ s'.SameInterrupts m'.world.scopes := by
  refine ⟨fun program n => ((coherent_ofProgram program).after n).sound,
    fun program scopes heap => heap.sound, ?_⟩
  intro s i name c arguments text sound bound
  have captured : c.scope = i := sound.captures i name c (Scopes.mem_of_functionOf? bound)
  have region := sound.region_reach i
  have inside : s.Reach i c.scope := .inl (captured ▸ s.mem_path_self _)
  refine ⟨fun n j old off => ?_, fun s' agree n => ?_⟩
  -- What the call changes is confined to what it can reach: the path, and scopes that are new.
  · have confined := (calling_respects_after arguments text region inside n).confined
    refine confined.outside j fun reached => ?_
    rcases reached with along | new
    · exact off along
    · exact absurd old (Nat.not_lt_of_le new)
  -- No scope has another number in `s'`, so the calls mirror each other without a gap.
  · have within := (calling_respects arguments text region inside).within
    have entered : Mirrors ⟨s.size, 0⟩ (s.Reach i) (s.size ≤ ·) (calling c arguments s text)
        (calling c arguments s' text) := by
      have same := calling_mirrors arguments text region inside agree.mirrors
      rwa [Closure.shift_of_gap rfl] at same
    have mirrors := entered.after within n
    have retains := calling_retains (c := c) arguments text n (s := s)
    have created : i < s.size := by
      refine Nat.lt_of_not_le fun new => ?_
      rw [Scopes.scope_of_size_le new] at bound
      cases bound
    refine ⟨mirrors.outcome?, mirrors.world.output, entered.places within rfl n,
      mirrors.world.scopes.agreeAlong rfl fun j hj => ?_, retains.2,
      (calling_retains arguments text n).2⟩
    rw [retains.1.path created] at hj
    exact .inl hj

/-- A function that counts in a variable around it. -/
def counter : Closure :=
  ⟨0, [], ⟨[.assignment "n" (.binary .add (.identifier "n" 1) (.literal 1 1) 1) 1,
    .returns (.identifier "n" 1) 1], 1⟩⟩

/-- The scope of the counter, and one inside it that has a variable of the same name. -/
def counting (other : Int32) : Scopes :=
  ⟨#[{ values := [("n", 1)], functions := [("count", .closure counter)] },
    { ancestors := [0], values := [("n", other)] }]⟩

theorem counting_sound (other : Int32) : (counting other).Sound := by
  refine ⟨fun i name c stored => ?_, fun i => ?_⟩
  · match i with
    | 0 =>
      cases List.mem_singleton.mp stored
      rfl
    | 1 => cases stored
    | i + 2 =>
      rw [Scopes.scope_of_size_le (Nat.le_add_left 2 i)] at stored
      cases stored
  · match i with
    | 0 => exact .inl rfl
    | 1 => exact .inr ⟨0, Nat.one_pos, rfl⟩
    | i + 2 =>
      rw [Scopes.scope_of_size_le (Nat.le_add_left 2 i)]
      exact .inl rfl

/-- The count is 2 whatever the other variable is, and that one stays as it is. -/
theorem scoping_is_lexical_of_counter :
    (counting 10).Sound ∧
    ((counting 10).scope 0).functionOf? "count" = some (.closure counter) ∧
    (counting 10).AgreeAlong 0 (counting 20) ∧
    ((calling counter [] (counting 10) "").after 20).outcome? = some (.ok 2) ∧
    ((calling counter [] (counting 20) "").after 20).outcome? = some (.ok 2) ∧
    ((calling counter [] (counting 10) "").after 20).world.scopes.scope 1 =
      (counting 10).scope 1 := by
  have agree : (counting 10).AgreeAlong 0 (counting 20) := by
    refine ⟨rfl, fun j hj => ?_, fun j hj _ => ?_, fun j hj _ => ?_⟩ <;>
      rw [List.mem_singleton.mp hj] <;> rfl
  have ended : ((calling counter [] (counting 10) "").after 20).outcome? = some (.ok 2) := by rfl
  obtain ⟨others, same⟩ := scoping_is_lexical.2.2 (counting 10) 0 "count" counter [] ""
    (counting_sound 10) rfl
  refine ⟨counting_sound 10, rfl, agree, ended, ?_, others 20 1 (by decide) (by decide)⟩
  rw [(same (counting 20) agree 20).1, ended]

end Machine

end FunLanguage
