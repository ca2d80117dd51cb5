import FunLanguage.Scope

/-!
# Scopes after an operation

What each operation on scopes does to a single scope: only `child` and `root` add one, and all
others change what one scope holds (`scope_modify`). No operation changes which scopes are around a
scope, so paths stay as they are (`path_modify`).

`Sound` is what a program can rely on: a closure captures the scope that it is stored in, and the
ancestors of a scope are the path of a scope created before it. Paths then only lead to older scopes
(`Sound.lt_of_mem_ancestors`), and the path of a scope on a path is part of that path
(`Sound.path_subset`).
-/

namespace FunLanguage

/-! ## Look-up in a single scope -/

theorem lookup_cons_ite {α : Type} (key name : String) (a : α) (bindings : List (String × α)) :
    ((name, a) :: bindings).lookup key = if key = name then some a else bindings.lookup key := by
  by_cases same : key = name
  · rw [same, List.lookup_cons_self, if_pos rfl]
  · rw [List.lookup_cons, beq_eq_false_iff_ne.mpr same, if_neg same]

namespace Scope

theorem valueOf?_addVariable (t : Scope) (name key : String) (value : Int32) :
    (t.addVariable name value).valueOf? key =
      if key = name then some value else t.valueOf? key :=
  lookup_cons_ite key name value t.values

theorem functionOf?_addFunction (t : Scope) (name key : String) (function : Function) :
    (t.addFunction name function).functionOf? key =
      if key = name then some function else t.functionOf? key :=
  lookup_cons_ite key name function t.functions

theorem valueOf?_setVariable (t : Scope) (name key : String) (value : Int32) :
    (t.setVariable name value).valueOf? key =
      if key = name then (t.valueOf? key).map fun _ => value else t.valueOf? key := by
  simp only [setVariable, valueOf?]
  induction t.values with
  | nil => simp
  | cons binding values ih =>
    have head : (if binding.1 = name then (binding.1, value) else binding) =
        (binding.1, if binding.1 = name then value else binding.2) := by
      split <;> rfl
    rw [List.map_cons, head, lookup_cons_ite, ih, lookup_cons_ite]
    by_cases here : key = binding.1
    · subst here
      by_cases same : binding.1 = name
      · simp [same]
      · simp [same]
    · simp [here]

end Scope

namespace Scopes

/-! ## A scope after a change -/

@[simp] theorem size_modify (s : Scopes) (i : ScopeId) (f : Scope → Scope) :
    (s.modify i f).size = s.size := by
  simp [modify, size]

theorem scope_modify (s : Scopes) (i j : ScopeId) (f : Scope → Scope) :
    (s.modify i f).scope j = if i = j ∧ j < s.size then f (s.scope j) else s.scope j := by
  simp only [modify, scope, size, Array.getD_eq_getD_getElem?, Array.getElem?_modify]
  by_cases h : i = j
  · subst h
    by_cases hi : i < s.entries.size
    · simp [hi]
    · simp [hi]
  · simp [h]

theorem scope_modify_self {s : Scopes} {i : ScopeId} (h : i < s.size) (f : Scope → Scope) :
    (s.modify i f).scope i = f (s.scope i) := by
  rw [scope_modify, if_pos ⟨rfl, h⟩]

theorem scope_modify_of_ne {s : Scopes} {i j : ScopeId} (h : i ≠ j) (f : Scope → Scope) :
    (s.modify i f).scope j = s.scope j := by
  rw [scope_modify, if_neg fun both => h both.1]

/-- A field that the change leaves alone is the same in every scope. -/
theorem field_modify {α : Type} (field : Scope → α) (s : Scopes) (i j : ScopeId) {f : Scope → Scope}
    (same : ∀ t, field (f t) = field t) : field ((s.modify i f).scope j) = field (s.scope j) := by
  rw [scope_modify]
  split
  · exact same _
  · rfl

theorem path_modify (s : Scopes) (i j : ScopeId) {f : Scope → Scope}
    (same : ∀ t, (f t).ancestors = t.ancestors) : (s.modify i f).path j = s.path j := by
  simp only [path, field_modify Scope.ancestors s i j same]

/-- A scope that has not been created holds nothing. -/
theorem scope_of_size_le {s : Scopes} {i : ScopeId} (h : s.size ≤ i) : s.scope i = {} := by
  simp [scope, Array.getD_eq_getD_getElem?, Array.getElem?_eq_none h]

/-- Only what the scopes on a path hold decides what is found along it. -/
theorem findSome?_congr {α : Type} {path : List ScopeId} {f g : ScopeId → Option α}
    (same : ∀ j ∈ path, f j = g j) : path.findSome? f = path.findSome? g := by
  induction path with
  | nil => rfl
  | cons j path ih =>
    rw [List.findSome?_cons, List.findSome?_cons, same j List.mem_cons_self,
      ih fun k hk => same k (List.mem_cons_of_mem j hk)]

theorem mem_path_self (s : Scopes) (i : ScopeId) : i ∈ s.path i :=
  List.mem_cons_self ..

/-! ## New scopes -/

@[simp] theorem child_fst (s : Scopes) (parent : ScopeId) : (s.child parent).1 = s.size := rfl

@[simp] theorem size_child (s : Scopes) (parent : ScopeId) :
    (s.child parent).2.size = s.size + 1 := by
  simp [child, size]

theorem scope_child (s : Scopes) (parent j : ScopeId) :
    (s.child parent).2.scope j =
      if j = s.size then { ancestors := s.path parent } else s.scope j := by
  simp only [child, scope, size, Array.getD_eq_getD_getElem?, Array.getElem?_push]
  split <;> rfl

theorem scope_child_of_ne {s : Scopes} (parent : ScopeId) {j : ScopeId} (h : j ≠ s.size) :
    (s.child parent).2.scope j = s.scope j := by
  rw [scope_child, if_neg h]

theorem scope_child_size (s : Scopes) (parent : ScopeId) :
    (s.child parent).2.scope s.size = { ancestors := s.path parent } := by
  rw [scope_child, if_pos rfl]

theorem path_child_of_ne {s : Scopes} (parent : ScopeId) {j : ScopeId} (h : j ≠ s.size) :
    (s.child parent).2.path j = s.path j := by
  simp only [path, scope_child_of_ne parent h]

theorem path_child_size (s : Scopes) (parent : ScopeId) :
    (s.child parent).2.path s.size = s.size :: s.path parent := by
  simp only [path, scope_child_size]

/-- What is looked up from a new scope, which holds nothing itself, is found in the scopes around
it. -/
theorem findSome?_path_child {α : Type} {s : Scopes} {i : ScopeId}
    (created : ∀ j ∈ s.path i, j < s.size) (find : Scope → Option α)
    (own : find { ancestors := s.path i } = none) :
    ((s.child i).2.path s.size).findSome? (fun j => find ((s.child i).2.scope j)) =
      (s.path i).findSome? fun j => find (s.scope j) := by
  have around (j : ScopeId) (hj : j ∈ s.path i) :
      find ((s.child i).2.scope j) = find (s.scope j) := by
    rw [scope_child_of_ne i (Nat.ne_of_lt (created j hj))]
  rw [path_child_size, List.findSome?_cons, scope_child_size, own, findSome?_congr around]

theorem get?_child {s : Scopes} {i : ScopeId} (created : ∀ j ∈ s.path i, j < s.size)
    (name : String) : (s.child i).2.get? s.size name = s.get? i name :=
  findSome?_path_child created (·.valueOf? name) rfl

theorem function?_child {s : Scopes} {i : ScopeId} (created : ∀ j ∈ s.path i, j < s.size)
    (name : String) : (s.child i).2.function? s.size name = s.function? i name :=
  findSome?_path_child created (·.functionOf? name) rfl

/-! ## Bindings that succeed -/

theorem define_eq_ok_iff {s s' : Scopes} {i : ScopeId} {name : String} {value : Int32} :
    s.define i name value = (.ok (), s') ↔
      ((s.scope i).valueOf? name).isSome = false ∧ s' = s.modify i (·.addVariable name value) := by
  unfold define
  split
  · next bound => simp [bound]
  · next free => simp [free, eq_comm]

theorem defineFunction_eq_ok_iff {s s' : Scopes} {i : ScopeId} {name : String}
    {function : Function} :
    s.defineFunction i name function = (.ok (), s') ↔
      ((s.scope i).functionOf? name).isSome = false ∧
        s' = s.modify i (·.addFunction name function) := by
  unfold defineFunction
  split
  · next bound => simp [bound]
  · next free => simp [free, eq_comm]

theorem set_eq_ok_iff {s s' : Scopes} {i : ScopeId} {name : String} {value : Int32} :
    s.set i name value = (.ok (), s') ↔
      ∃ j, s.holder? i name = some j ∧ s' = s.modify j (·.setVariable name value) := by
  unfold set
  split
  · next none => simp [none]
  · next j found => simp [found, eq_comm]

/-- What holds of the scopes and outlasts every new variable of scope `i` still holds once
parameters are bound there. -/
theorem bindParameters_induction {motive : Scopes → Prop} {i : ScopeId}
    (variable_added : ∀ (s : Scopes) (name : String) (value : Int32), motive s →
      motive (s.modify i (·.addVariable name value)))
    (bindings : List (String × Int32)) {s : Scopes} (h : motive s) :
    motive (s.bindParameters i bindings) := by
  induction bindings generalizing s with
  | nil => exact h
  | cons binding bindings ih =>
    simp only [bindParameters]
    split
    · exact ih h
    · exact ih (variable_added s _ _ h)

@[simp] theorem size_bindParameters (s : Scopes) (i : ScopeId) (bindings : List (String × Int32)) :
    (s.bindParameters i bindings).size = s.size :=
  bindParameters_induction (motive := fun s' => s'.size = s.size)
    (fun _ _ _ h => by rw [size_modify, h]) bindings rfl

/-- Parameters leave every field alone but the values. -/
theorem field_bindParameters {α : Type} (field : Scope → α) (s : Scopes) (i j : ScopeId)
    (bindings : List (String × Int32))
    (same : ∀ t name value, field (Scope.addVariable t name value) = field t) :
    field ((s.bindParameters i bindings).scope j) = field (s.scope j) :=
  bindParameters_induction (motive := fun s' => field (s'.scope j) = field (s.scope j))
    (fun s' name value h => by rw [field_modify field s' i j fun t => same t name value, h])
    bindings rfl

theorem path_bindParameters (s : Scopes) (i j : ScopeId) (bindings : List (String × Int32)) :
    (s.bindParameters i bindings).path j = s.path j := by
  simp only [path, field_bindParameters Scope.ancestors s i j bindings fun _ _ _ => rfl]

/-! ## Interrupts -/

theorem isInterrupted_modify (s : Scopes) (i j : ScopeId) {f : Scope → Scope}
    (same : ∀ t, (f t).interrupt? = t.interrupt?) :
    (s.modify i f).isInterrupted j = s.isInterrupted j := by
  rw [isInterrupted, isInterrupted, field_modify Scope.interrupt? s i j same]

theorem isInterrupted_bindParameters (s : Scopes) (i j : ScopeId)
    (bindings : List (String × Int32)) :
    (s.bindParameters i bindings).isInterrupted j = s.isInterrupted j := by
  rw [isInterrupted, isInterrupted,
    field_bindParameters Scope.interrupt? s i j bindings fun _ _ _ => rfl]

theorem isInterrupted_interrupt_of_ne {s : Scopes} {i j : ScopeId} (h : i ≠ j) (value : Int32) :
    (s.interrupt i value).isInterrupted j = s.isInterrupted j := by
  rw [isInterrupted, isInterrupted, interrupt, scope_modify_of_ne h]

theorem interrupt?_release (s : Scopes) (i j : ScopeId) :
    ((s.release i).scope j).interrupt? = (s.scope j).interrupt? :=
  field_modify Scope.interrupt? s i j fun _ => rfl

theorem path_release (s : Scopes) (i j : ScopeId) : (s.release i).path j = s.path j :=
  path_modify s i j fun _ => rfl

theorem path_interrupt (s : Scopes) (i j : ScopeId) (value : Int32) :
    (s.interrupt i value).path j = s.path j :=
  path_modify s i j fun _ => rfl

theorem isInterrupted_child_of_ne {s : Scopes} (parent : ScopeId) {j : ScopeId} (h : j ≠ s.size) :
    (s.child parent).2.isInterrupted j = s.isInterrupted j := by
  rw [isInterrupted, isInterrupted, scope_child_of_ne parent h]

/-- A new scope is not interrupted, and before it was created nothing was either. -/
theorem interrupt?_child (s : Scopes) (parent j : ScopeId) :
    ((s.child parent).2.scope j).interrupt? = (s.scope j).interrupt? := by
  rw [scope_child]
  split
  · next new => rw [scope_of_size_le (Nat.le_of_eq new.symm)]
  · rfl

theorem isInterrupted_child_size (s : Scopes) (parent : ScopeId) :
    (s.child parent).2.isInterrupted s.size = false := by
  rw [isInterrupted, scope_child_size]
  rfl

/-! ## Soundness -/

/-- What a program keeps true of all scopes. -/
structure Sound (s : Scopes) : Prop where
  /-- A closure captures the scope that it is stored in. -/
  captures : ∀ i name c, (name, Function.closure c) ∈ (s.scope i).functions → c.scope = i
  /-- The ancestors of a scope are the path of an older scope. -/
  nested : ∀ i, (s.scope i).ancestors = [] ∨ ∃ j < i, (s.scope i).ancestors = s.path j

namespace Sound

variable {s : Scopes}

/-- Ancestors are older than the scope, and their paths are part of its ancestors. -/
theorem ancestors_spec (h : s.Sound) (i : ScopeId) :
    ∀ j ∈ (s.scope i).ancestors, j < i ∧ s.path j ⊆ (s.scope i).ancestors := by
  induction i using Nat.strongRecOn with
  | ind i ih =>
    intro j hj
    rcases h.nested i with none | ⟨parent, older, around⟩
    · rw [none] at hj
      cases hj
    · rw [around] at hj ⊢
      rcases List.mem_cons.mp hj with rfl | hj
      · exact ⟨older, List.Subset.refl _⟩
      · obtain ⟨before, inside⟩ := ih parent older j hj
        exact ⟨Nat.lt_trans before older, fun k hk => List.mem_cons_of_mem _ (inside hk)⟩

theorem lt_of_mem_ancestors (h : s.Sound) {i j : ScopeId} (hj : j ∈ (s.scope i).ancestors) :
    j < i :=
  (h.ancestors_spec i j hj).1

theorem le_of_mem_path (h : s.Sound) {i j : ScopeId} (hj : j ∈ s.path i) : j ≤ i := by
  rcases List.mem_cons.mp hj with rfl | hj
  · exact Nat.le_refl _
  · exact Nat.le_of_lt (h.lt_of_mem_ancestors hj)

theorem path_subset (h : s.Sound) {i j : ScopeId} (hj : j ∈ s.path i) : s.path j ⊆ s.path i := by
  rcases List.mem_cons.mp hj with rfl | hj
  · exact List.Subset.refl _
  · exact fun k hk => List.mem_cons_of_mem _ ((h.ancestors_spec i j hj).2 hk)

/-- A change to one scope that leaves the ancestors alone and adds no closure but one that captures
the scope keeps scopes sound. -/
theorem modify (h : s.Sound) (i : ScopeId) {f : Scope → Scope}
    (same : ∀ t, (f t).ancestors = t.ancestors)
    (captures : ∀ t name c, (name, Function.closure c) ∈ (f t).functions →
      (name, Function.closure c) ∈ t.functions ∨ c.scope = i) :
    (s.modify i f).Sound := by
  refine ⟨fun j name c hc => ?_, fun j => ?_⟩
  · rw [scope_modify] at hc
    split at hc
    · next here =>
      rcases captures _ name c hc with old | new
      · exact h.captures j name c old
      · exact new.trans here.1
    · exact h.captures j name c hc
  · simp only [path_modify s i _ same, field_modify Scope.ancestors s i j same]
    exact h.nested j

theorem addVariable (h : s.Sound) (i : ScopeId) (name : String) (value : Int32) :
    (s.modify i (·.addVariable name value)).Sound :=
  h.modify i (fun _ => rfl) fun _ _ _ old => .inl old

theorem setVariable (h : s.Sound) (i : ScopeId) (name : String) (value : Int32) :
    (s.modify i (·.setVariable name value)).Sound :=
  h.modify i (fun _ => rfl) fun _ _ _ old => .inl old

theorem addFunction (h : s.Sound) (i : ScopeId) (name : String) {function : Function}
    (captures : ∀ c, function = .closure c → c.scope = i) :
    (s.modify i (·.addFunction name function)).Sound := by
  refine h.modify i (fun _ => rfl) fun t key c hc => ?_
  rcases List.mem_cons.mp hc with new | old
  · exact .inr (captures c (congrArg Prod.snd new).symm)
  · exact .inl old

theorem interrupt (h : s.Sound) (i : ScopeId) (value : Int32) : (s.interrupt i value).Sound :=
  h.modify i (fun _ => rfl) fun _ _ _ old => .inl old

theorem release (h : s.Sound) (i : ScopeId) : (s.release i).Sound :=
  h.modify i (fun _ => rfl) fun _ _ _ none => nomatch none

theorem bindParameters (h : s.Sound) (i : ScopeId) (bindings : List (String × Int32)) :
    (s.bindParameters i bindings).Sound :=
  bindParameters_induction (fun _ name value h => h.addVariable i name value) bindings h

/-- A new scope inside an old one keeps scopes sound. -/
theorem child (h : s.Sound) {parent : ScopeId} (old : parent < s.size) :
    (s.child parent).2.Sound := by
  refine ⟨fun i name c hc => ?_, fun i => ?_⟩
  · rw [scope_child] at hc
    split at hc
    · cases hc
    · exact h.captures i name c hc
  · by_cases new : i = s.size
    · subst new
      exact .inr ⟨parent, old, by rw [scope_child_size, path_child_of_ne _ (Nat.ne_of_lt old)]⟩
    · rw [scope_child_of_ne parent new]
      rcases h.nested i with none | ⟨j, older, around⟩
      · exact .inl none
      · refine .inr ⟨j, older, ?_⟩
        by_cases same : j = s.size
        · -- Scope `i` would be younger than all scopes, and those have no ancestors.
          rw [scope_of_size_le (Nat.le_of_lt (same ▸ older))] at around
          cases around
        · rw [path_child_of_ne parent same, around]

/-- A function found from a scope captures a scope on the path. -/
theorem scope_mem_path (h : s.Sound) {i : ScopeId} {name : String} {c : Closure}
    (found : s.function? i name = some (.closure c)) : c.scope ∈ s.path i := by
  obtain ⟨j, hj, bound⟩ := List.exists_of_findSome?_eq_some found
  obtain ⟨before, after, parts, -⟩ := List.lookup_eq_some_iff.mp bound
  have stored : (name, Function.closure c) ∈ (s.scope j).functions := by
    rw [parts]
    exact List.mem_append_right _ (List.mem_cons_self ..)
  rw [h.captures j name c stored]
  exact hj

end Sound

end Scopes

end FunLanguage
