import FunLanguage.Proofs.Scopes

/-!
# Where a name is resolved

Scopes make a tree: each stands inside its parent, if it has one. The way up from a scope leads from
parent to parent and ends (`Scopes.Climbs`), and a name is resolved in the nearest scope on the way
that binds it (`Scopes.Nearest`). Neither notion asks for the list of ancestors that a scope keeps.

An operation on one scope is seen from other scopes, and only from those whose way up comes to that
scope before it comes to another binding of the name (`Scopes.Rebinds`). This holds in every tree
that operations build, in whatever order (`Scopes.operations_resolve_nearest`).
-/

namespace FunLanguage.Scopes

/-! ## The way up from a scope -/

/-- The scope right around a scope. -/
def parent? (s : Scopes) (i : ScopeId) : Option ScopeId :=
  (s.scope i).ancestors.head?

/-- The way up from a scope, from parent to parent, each older than the scope inside it. -/
inductive Climbs (s : Scopes) : ScopeId → List ScopeId → Prop
  | outermost {i : ScopeId} (none : s.parent? i = none) : Climbs s i [i]
  | inside {i j : ScopeId} {way : List ScopeId} (parent : s.parent? i = some j) (older : j < i)
      (climbs : Climbs s j way) : Climbs s i (i :: way)

/-- Scope `k` is the first on the way up from a scope that is one of those sought. -/
inductive Nearest (s : Scopes) (sought : ScopeId → Prop) (k : ScopeId) : ScopeId → Prop
  | here (found : sought k) : Nearest s sought k k
  | around {i j : ScopeId} (missed : ¬ sought i) (parent : s.parent? i = some j)
      (nearest : Nearest s sought k j) : Nearest s sought k i

/-- The scope itself binds the variable. -/
def BindsVariable (s : Scopes) (name : String) (i : ScopeId) : Prop :=
  ((s.scope i).valueOf? name).isSome = true

/-- The scope itself binds the function. -/
def BindsFunction (s : Scopes) (name : String) (i : ScopeId) : Prop :=
  ((s.scope i).functionOf? name).isSome = true

section Ways

variable {s s' : Scopes} {i k : ScopeId} {way : List ScopeId} {sought : ScopeId → Prop}

theorem nearest_iff_of_sought (found : sought i) : s.Nearest sought k i ↔ i = k := by
  constructor
  · rintro (_ | ⟨missed, -, -⟩)
    · rfl
    · exact absurd found missed
  · rintro rfl
    exact .here found

namespace Climbs

/-- Only the parents of the scope and of older ones decide. -/
theorem congr (h : s.Climbs i way) (same : ∀ j ≤ i, s'.parent? j = s.parent? j) :
    s'.Climbs i way := by
  induction h with
  | outermost none => exact .outermost ((same _ (Nat.le_refl _)).trans none)
  | inside parent older _ ih =>
    exact .inside ((same _ (Nat.le_refl _)).trans parent) older
      (ih fun k le => same k (Nat.le_trans le (Nat.le_of_lt older)))

/-- Every scope on the way is the scope itself or an older one. -/
theorem le_of_mem (h : s.Climbs i way) : ∀ j ∈ way, j ≤ i := by
  induction h with
  | outermost => simp
  | inside _ older _ ih =>
    intro j mem
    obtain rfl | mem := List.mem_cons.mp mem
    · exact Nat.le_refl _
    · exact Nat.le_trans (ih j mem) (Nat.le_of_lt older)

/-- The nearest scope is found by going through the way up. -/
theorem find?_eq_some_iff (h : s.Climbs i way) (p : ScopeId → Bool) :
    way.find? p = some k ↔ s.Nearest (fun j => p j = true) k i := by
  induction h with
  | @outermost i none =>
    by_cases found : p i = true
    · rw [List.find?_cons_of_pos found, Option.some.injEq, nearest_iff_of_sought found]
    · rw [List.find?_cons_of_neg found]
      refine ⟨nofun, ?_⟩
      rintro (here | ⟨-, parent, -⟩)
      · exact absurd here found
      · cases none.symm.trans parent
  | @inside i j way parent _ _ ih =>
    by_cases found : p i = true
    · rw [List.find?_cons_of_pos found, Option.some.injEq, nearest_iff_of_sought found]
    · rw [List.find?_cons_of_neg found, ih]
      refine ⟨.around found parent, ?_⟩
      rintro (here | ⟨-, parent', nearest⟩)
      · exact absurd here found
      · cases parent.symm.trans parent'
        exact nearest

end Climbs

end Ways

/-! ## Going through a way -/

section Search

variable {α : Type} {k : ScopeId} {a : α} (way : List ScopeId) (find : ScopeId → Option α)

theorem findSome?_eq_some_iff_find? : way.findSome? find = some a ↔
    ∃ k, way.find? (fun j => (find j).isSome) = some k ∧ find k = some a := by
  induction way with
  | nil => simp
  | cons j way ih =>
    cases here : find j with
    | none => simpa [here] using ih
    | some b => simp [here]

/-- What is found at `k` is found from here if nothing else comes before; otherwise it makes no
difference. -/
theorem findSome?_of_change {find' : ScopeId → Option α} (changed : find' k = some a)
    (kept : ∀ j ≠ k, find' j = find j) :
    way.findSome? find' =
      if way.find? (fun j => j == k || (find j).isSome) = some k then some a
      else way.findSome? find := by
  induction way with
  | nil => rfl
  | cons j way ih =>
    by_cases same : j = k
    · subst same
      simp [changed]
    · cases here : find j with
      | none => simp [kept j same, here, same, ih]
      | some b => simp [kept j same, here, same]

end Search

/-! ## Trees of scopes -/

/-- An operation that makes a scope, or binds or sets a name. -/
inductive Operation where
  | root
  | child (parent : ScopeId)
  | define (i : ScopeId) (name : String) (value : Int32)
  | defineFunction (i : ScopeId) (name : String) (function : Function)
  | set (i : ScopeId) (name : String) (value : Int32)

namespace Operation

/-- The scope that the operation is about, if any, has been created. -/
def Applies (s : Scopes) : Operation → Prop
  | root => True
  | child parent => parent < s.size
  | define i _ _ => i < s.size
  | defineFunction i _ _ => i < s.size
  | set i _ _ => i < s.size

instance (s : Scopes) : (op : Operation) → Decidable (op.Applies s)
  | root => inferInstanceAs (Decidable True)
  | child parent => inferInstanceAs (Decidable (parent < s.size))
  | define i _ _ => inferInstanceAs (Decidable (i < s.size))
  | defineFunction i _ _ => inferInstanceAs (Decidable (i < s.size))
  | set i _ _ => inferInstanceAs (Decidable (i < s.size))

/-- Why the operation cannot be done, if it cannot, and the scopes that it leaves. -/
def result (s : Scopes) : Operation → Except BindingError Unit × Scopes
  | root => (.ok (), s.root.2)
  | child parent => (.ok (), (s.child parent).2)
  | define i name value => s.define i name value
  | defineFunction i name function => s.defineFunction i name function
  | set i name value => s.set i name value

end Operation

/-- The scopes that an operation leaves, whether it can be done or not. -/
def perform (s : Scopes) (op : Operation) : Scopes :=
  (op.result s).2

/-- The scopes are built by operations, in any order. -/
inductive Built : Scopes → Prop
  | nothing : Built {}
  | operation {s : Scopes} (built : Built s) (op : Operation) (applies : op.Applies s) :
      Built (s.perform op)

/-- The ways up are those of the same scopes. -/
structure SameTree (s s' : Scopes) : Prop where
  size : s'.size = s.size
  parent? : ∀ i, s'.parent? i = s.parent? i

theorem sameTree_modify (s : Scopes) (i : ScopeId) {f : Scope → Scope}
    (same : ∀ t, (f t).ancestors = t.ancestors) : s.SameTree (s.modify i f) := by
  refine ⟨size_modify s i f, fun j => ?_⟩
  rw [Scopes.parent?, field_modify Scope.ancestors s i j same, Scopes.parent?]

/-! ## Ways up are paths -/

@[simp] theorem size_root (s : Scopes) : s.root.2.size = s.size + 1 := by
  simp [root, size]

/-- A new outermost scope holds as little as one that has not been created. -/
@[simp] theorem scope_root (s : Scopes) (j : ScopeId) : s.root.2.scope j = s.scope j := by
  simp only [root, scope, Array.getD_eq_getD_getElem?, Array.getElem?_push]
  split
  · next new => rw [new, Array.getElem?_eq_none (Nat.le_refl _)]; rfl
  · rfl

/-- The way up from every scope is its path. -/
def Climbable (s : Scopes) : Prop :=
  ∀ i < s.size, s.Climbs i (s.path i)

namespace Climbable

variable {s : Scopes}

theorem root (h : s.Climbable) : s.root.2.Climbable := by
  have same (j : ScopeId) : s.root.2.parent? j = s.parent? j := by
    rw [Scopes.parent?, scope_root, Scopes.parent?]
  intro i created
  rw [size_root] at created
  rw [path, scope_root]
  obtain old | rfl := Nat.lt_succ_iff_lt_or_eq.mp created
  · exact (h i old).congr fun j _ => same j
  · have none : s.scope s.size = {} := scope_of_size_le (Nat.le_refl _)
    rw [none]
    exact .outermost (by rw [same, parent?, none]; rfl)

theorem child (h : s.Climbable) {parent : ScopeId} (old : parent < s.size) :
    (s.child parent).2.Climbable := by
  have same {j : ScopeId} (before : j < s.size) :
      (s.child parent).2.parent? j = s.parent? j := by
    rw [parent?, scope_child_of_ne parent (Nat.ne_of_lt before), parent?]
  have kept {i : ScopeId} (before : i < s.size) : (s.child parent).2.Climbs i (s.path i) :=
    (h i before).congr fun j le => same (Nat.lt_of_le_of_lt le before)
  intro i created
  rw [size_child] at created
  obtain before | rfl := Nat.lt_succ_iff_lt_or_eq.mp created
  · rw [path_child_of_ne parent (Nat.ne_of_lt before)]
    exact kept before
  · rw [path_child_size]
    exact .inside (by rw [parent?, scope_child_size]; rfl) old (kept old)

theorem modify (h : s.Climbable) (k : ScopeId) {f : Scope → Scope}
    (same : ∀ t, (f t).ancestors = t.ancestors) : (s.modify k f).Climbable := by
  intro i created
  rw [size_modify] at created
  rw [path_modify s k i same]
  exact (h i created).congr fun j _ => (sameTree_modify s k same).parent? j

end Climbable

theorem Built.climbable {s : Scopes} (built : s.Built) : s.Climbable := by
  induction built with
  | nothing => exact fun i created => (Nat.not_lt_zero i created).elim
  | @operation s _ op applies ih =>
    cases op with
    | root => exact ih.root
    | child parent => exact ih.child applies
    | define i name value =>
      rw [perform, Operation.result, define]
      split
      · exact ih
      · exact ih.modify i fun _ => rfl
    | defineFunction i name function =>
      rw [perform, Operation.result, defineFunction]
      split
      · exact ih
      · exact ih.modify i fun _ => rfl
    | set i name value =>
      rw [perform, Operation.result, set]
      split
      · exact ih
      · exact ih.modify _ fun _ => rfl

/-! ## What is seen after an operation -/

/-- From the scopes that see the change the name stands for `a`. From others, and under other names,
all is as it was. -/
structure Rebinds {α : Type} (s : Scopes) (look look' : ScopeId → String → Option α)
    (name : String) (a : α) (sees : ScopeId → Prop) : Prop where
  changed : ∀ j < s.size, sees j → look' j name = some a
  kept : ∀ j < s.size, ∀ key, ¬ (key = name ∧ sees j) → look' j key = look j key

/-- What is seen from `j` now was seen from `i` before. -/
def SeesAs (s : Scopes) (i : ScopeId) (s' : Scopes) (j : ScopeId) : Prop :=
  ∀ key, s'.get? j key = s.get? i key ∧ s'.function? j key = s.function? i key

section Changes

variable {α : Type} {s : Scopes} {k : ScopeId} (f : Scope → Scope)

/-- What the change leaves alone in a scope is found as before from all of them. -/
theorem findSome?_path_modify (same : ∀ t, (f t).ancestors = t.ancestors) (find : Scope → Option α)
    (kept : ∀ t, find (f t) = find t) (j : ScopeId) :
    ((s.modify k f).path j).findSome? (fun l => find ((s.modify k f).scope l)) =
      (s.path j).findSome? fun l => find (s.scope l) := by
  rw [path_modify s k j same]
  exact findSome?_congr fun l _ => field_modify find s k l kept

/-- A binding of scope `k` is seen from where no other comes before it. -/
theorem rebinds_modify (climbs : s.Climbable) (created : k < s.size)
    (same : ∀ t, (f t).ancestors = t.ancestors) (find : Scope → String → Option α) {name : String}
    {a : α} (changed : find (f (s.scope k)) name = some a)
    (kept : ∀ key ≠ name, ∀ t, find (f t) key = find t key) :
    Rebinds s (fun j key => (s.path j).findSome? fun l => find (s.scope l) key)
      (fun j key => ((s.modify k f).path j).findSome? fun l => find ((s.modify k f).scope l) key)
      name a (s.Nearest (fun l => l = k ∨ (find (s.scope l) name).isSome = true) k) := by
  have here : find ((s.modify k f).scope k) name = some a := by
    rw [scope_modify_self created, changed]
  have elsewhere (l : ScopeId) (other : l ≠ k) :
      find ((s.modify k f).scope l) name = find (s.scope l) name := by
    rw [scope_modify_of_ne other.symm]
  have search (j : ScopeId) :=
    findSome?_of_change (s.path j) (fun l => find (s.scope l) name) here elsewhere
  have seen {j : ScopeId} (existing : j < s.size) :=
    (climbs j existing).find?_eq_some_iff (k := k) fun l => l == k || (find (s.scope l) name).isSome
  simp only [Bool.or_eq_true, beq_iff_eq] at seen
  constructor
  · intro j existing sees
    rw [path_modify s k j same, search, if_pos ((seen existing).mpr sees)]
  · intro j existing key unseen
    by_cases named : key = name
    · subst named
      have hidden := fun sees => unseen ⟨rfl, (seen existing).mp sees⟩
      rw [path_modify s k j same, search, if_neg hidden]
    · exact findSome?_path_modify f same (find · key) (kept key named) j

end Changes

section Operations

variable {s : Scopes} {i k : ScopeId} {name : String}

/-- A variable has the value that the nearest scope binds it to. -/
theorem Climbs.get?_eq_some_iff {value : Int32} (climbs : s.Climbs i (s.path i)) :
    s.get? i name = some value ↔
      ∃ k, s.Nearest (s.BindsVariable name) k i ∧ (s.scope k).valueOf? name = some value := by
  rw [get?, findSome?_eq_some_iff_find?]
  simp only [climbs.find?_eq_some_iff]
  rfl

/-- A name stands for the function that the nearest scope binds it to. -/
theorem Climbs.function?_eq_some_iff {function : Function} (climbs : s.Climbs i (s.path i)) :
    s.function? i name = some function ↔
      ∃ k, s.Nearest (s.BindsFunction name) k i ∧
        (s.scope k).functionOf? name = some function := by
  rw [function?, findSome?_eq_some_iff_find?]
  simp only [climbs.find?_eq_some_iff]
  rfl

/-- The scope that `set` changes is the nearest that binds the variable. -/
theorem Climbs.holder?_eq_some_iff (climbs : s.Climbs i (s.path i)) :
    s.holder? i name = some k ↔ s.Nearest (s.BindsVariable name) k i :=
  climbs.find?_eq_some_iff fun j => ((s.scope j).valueOf? name).isSome

theorem set_rebinds (climbs : s.Climbable) (created : i < s.size)
    (nearest : s.Nearest (s.BindsVariable name) k i) (value : Int32) :
    ∃ s', s.set i name value = (.ok (), s') ∧ s.SameTree s' ∧
      Rebinds s s.get? s'.get? name value (s.Nearest (s.BindsVariable name) k) ∧
      ∀ j key, s'.function? j key = s.function? j key := by
  have held := (climbs i created).holder?_eq_some_iff.mpr nearest
  have bound : s.BindsVariable name k :=
    List.find?_some (p := fun j => ((s.scope j).valueOf? name).isSome) held
  have older : k < s.size :=
    Nat.lt_of_le_of_lt ((climbs i created).le_of_mem k (List.mem_of_find?_eq_some held)) created
  have sought : (fun l => l = k ∨ s.BindsVariable name l) = s.BindsVariable name := by
    funext l
    exact propext (or_iff_right_of_imp fun same => same ▸ bound)
  have changed : ((s.scope k).setVariable name value).valueOf? name = some value := by
    obtain ⟨old, known⟩ := Option.isSome_iff_exists.mp bound
    rw [Scope.valueOf?_setVariable, if_pos rfl, known, Option.map_some]
  have rebinds := rebinds_modify (·.setVariable name value) climbs older (fun _ => rfl)
    Scope.valueOf? changed fun key other t => by rw [Scope.valueOf?_setVariable, if_neg other]
  refine ⟨_, set_eq_ok_iff.mpr ⟨k, held, rfl⟩, sameTree_modify s k fun _ => rfl, ?_, ?_⟩
  · exact sought ▸ rebinds
  · intro j key
    exact findSome?_path_modify (·.setVariable name value) (fun _ => rfl) (·.functionOf? key)
      (fun _ => rfl) j

theorem define_rebinds (climbs : s.Climbable) (created : i < s.size)
    (free : ¬ s.BindsVariable name i) (value : Int32) :
    ∃ s', s.define i name value = (.ok (), s') ∧ s.SameTree s' ∧
      Rebinds s s.get? s'.get? name value
        (s.Nearest (fun j => j = i ∨ s.BindsVariable name j) i) ∧
      ∀ j key, s'.function? j key = s.function? j key := by
  refine ⟨_, define_eq_ok_iff.mpr ⟨Bool.eq_false_iff.mpr free, rfl⟩,
    sameTree_modify s i fun _ => rfl, ?_, ?_⟩
  · exact rebinds_modify (·.addVariable name value) climbs created (fun _ => rfl) Scope.valueOf?
      (by rw [Scope.valueOf?_addVariable, if_pos rfl])
      fun key other t => by rw [Scope.valueOf?_addVariable, if_neg other]
  · intro j key
    exact findSome?_path_modify (·.addVariable name value) (fun _ => rfl) (·.functionOf? key)
      (fun _ => rfl) j

theorem defineFunction_rebinds (climbs : s.Climbable) (created : i < s.size)
    (free : ¬ s.BindsFunction name i) (function : Function) :
    ∃ s', s.defineFunction i name function = (.ok (), s') ∧ s.SameTree s' ∧
      Rebinds s s.function? s'.function? name function
        (s.Nearest (fun j => j = i ∨ s.BindsFunction name j) i) ∧
      ∀ j key, s'.get? j key = s.get? j key := by
  refine ⟨_, defineFunction_eq_ok_iff.mpr ⟨Bool.eq_false_iff.mpr free, rfl⟩,
    sameTree_modify s i fun _ => rfl, ?_, ?_⟩
  · exact rebinds_modify (·.addFunction name function) climbs created (fun _ => rfl)
      Scope.functionOf? (by rw [Scope.functionOf?_addFunction, if_pos rfl])
      fun key other t => by rw [Scope.functionOf?_addFunction, if_neg other]
  · intro j key
    exact findSome?_path_modify (·.addFunction name function) (fun _ => rfl) (·.valueOf? key)
      (fun _ => rfl) j

end Operations

section NewScopes

variable {s s' : Scopes} {j : ScopeId}

theorem seesAs_of_path (same : s'.path j = s.path j)
    (kept : ∀ k ∈ s.path j, s'.scope k = s.scope k) : s.SeesAs j s' j := by
  intro key
  rw [get?, function?, same]
  exact ⟨findSome?_congr fun k mem => by rw [kept k mem],
    findSome?_congr fun k mem => by rw [kept k mem]⟩

theorem root_sees (s : Scopes) : (∀ j, s.SeesAs j s.root.2 j) ∧
    ∀ key, s.root.2.get? s.size key = none ∧ s.root.2.function? s.size key = none := by
  have paths (j : ScopeId) : s.root.2.path j = s.path j := by
    rw [path, scope_root, path]
  have kept (j : ScopeId) : s.SeesAs j s.root.2 j :=
    seesAs_of_path (paths j) fun k _ => scope_root s k
  refine ⟨kept, fun key => ?_⟩
  rw [(kept s.size key).1, (kept s.size key).2, get?, function?, path,
    scope_of_size_le (Nat.le_refl _)]
  simp only [List.findSome?_cons, scope_of_size_le (Nat.le_refl _)]
  exact ⟨rfl, rfl⟩

theorem child_sees (climbs : s.Climbable) {parent : ScopeId} (old : parent < s.size) :
    s.SeesAs parent (s.child parent).2 s.size ∧
      ∀ j < s.size, s.SeesAs j (s.child parent).2 j := by
  have created {j : ScopeId} (before : j < s.size) : ∀ k ∈ s.path j, k < s.size := fun k mem =>
    Nat.lt_of_le_of_lt ((climbs j before).le_of_mem k mem) before
  refine ⟨fun key => ⟨get?_child (created old) key, function?_child (created old) key⟩, ?_⟩
  intro j before
  exact seesAs_of_path (path_child_of_ne parent (Nat.ne_of_lt before)) fun k mem =>
    scope_child_of_ne parent (Nat.ne_of_lt (created before k mem))

end NewScopes

/-- The operations on scopes resolve names in the nearest scope, in every tree that they build.
Every way up ends, and what a name stands for is what the nearest scope on it binds the name to.

To set a variable is to change what is seen from exactly those scopes that resolve its name in the
same scope; it fails if the name is resolved nowhere. To bind a name in a scope is to change what is
seen from exactly those scopes that come to this one before they come to another binding of the
name; it fails if the scope itself binds the name. What fails changes nothing, variables and
functions do not affect each other, and a new scope sees what its parent sees. -/
theorem operations_resolve_nearest {s : Scopes} (built : s.Built) :
    (∀ i < s.size, s.Climbs i (s.path i) ∧ ∀ name,
      (∀ value, s.get? i name = some value ↔
        ∃ k, s.Nearest (s.BindsVariable name) k i ∧ (s.scope k).valueOf? name = some value) ∧
      ∀ function, s.function? i name = some function ↔
        ∃ k, s.Nearest (s.BindsFunction name) k i ∧
          (s.scope k).functionOf? name = some function) ∧
    (∀ i < s.size, ∀ name value,
      (∀ k, s.Nearest (s.BindsVariable name) k i →
        ∃ s', s.set i name value = (.ok (), s') ∧ s.SameTree s' ∧
          Rebinds s s.get? s'.get? name value (s.Nearest (s.BindsVariable name) k) ∧
          ∀ j key, s'.function? j key = s.function? j key) ∧
      ((∀ k, ¬ s.Nearest (s.BindsVariable name) k i) →
        s.set i name value = (.error .undefined, s))) ∧
    (∀ i < s.size, ∀ name value,
      (¬ s.BindsVariable name i →
        ∃ s', s.define i name value = (.ok (), s') ∧ s.SameTree s' ∧
          Rebinds s s.get? s'.get? name value
            (s.Nearest (fun j => j = i ∨ s.BindsVariable name j) i) ∧
          ∀ j key, s'.function? j key = s.function? j key) ∧
      (s.BindsVariable name i → s.define i name value = (.error .alreadyDefined, s))) ∧
    (∀ i < s.size, ∀ name function,
      (¬ s.BindsFunction name i →
        ∃ s', s.defineFunction i name function = (.ok (), s') ∧ s.SameTree s' ∧
          Rebinds s s.function? s'.function? name function
            (s.Nearest (fun j => j = i ∨ s.BindsFunction name j) i) ∧
          ∀ j key, s'.get? j key = s.get? j key) ∧
      (s.BindsFunction name i →
        s.defineFunction i name function = (.error .alreadyDefined, s))) ∧
    ((∀ j, s.SeesAs j s.root.2 j) ∧
      ∀ key, s.root.2.get? s.size key = none ∧ s.root.2.function? s.size key = none) ∧
    ∀ parent < s.size, (s.child parent).2.parent? s.size = some parent ∧
      s.SeesAs parent (s.child parent).2 s.size ∧
      ∀ j < s.size, s.SeesAs j (s.child parent).2 j := by
  have climbs := built.climbable
  refine ⟨?_, ?_, ?_, ?_, root_sees s, ?_⟩
  · intro i created
    exact ⟨climbs i created, fun name => ⟨fun value => (climbs i created).get?_eq_some_iff,
      fun function => (climbs i created).function?_eq_some_iff⟩⟩
  · intro i created name value
    refine ⟨fun k nearest => set_rebinds climbs created nearest value, fun unbound => ?_⟩
    have none : s.holder? i name = none := by
      cases held : s.holder? i name with
      | none => rfl
      | some k => exact absurd ((climbs i created).holder?_eq_some_iff.mp held) (unbound k)
    rw [set, none]
  · intro i created name value
    exact ⟨fun free => define_rebinds climbs created free value, fun bound => if_pos bound⟩
  · intro i created name function
    exact ⟨fun free => defineFunction_rebinds climbs created free function,
      fun bound => if_pos bound⟩
  · intro parent old
    exact ⟨by rw [parent?, scope_child_size]; rfl, child_sees climbs old⟩

/-- Two scopes inside the outermost, one of which has a variable by the same name and a scope inside
it. -/
def shadowing : Scopes :=
  [.root, .define 0 "x" 1, .child 0, .define 1 "x" 2, .child 0, .child 1].foldl perform {}

theorem operations_resolve_nearest_of_shadowing :
    shadowing.Built ∧ shadowing.Nearest (shadowing.BindsVariable "x") 0 2 ∧
      ∃ s', shadowing.set 2 "x" 5 = (.ok (), s') ∧ s'.get? 0 "x" = some 5 ∧
        s'.get? 2 "x" = some 5 ∧ s'.get? 1 "x" = some 2 ∧ s'.get? 3 "x" = some 2 := by
  have built : shadowing.Built := by
    have one := (Built.nothing.operation .root (by decide)).operation (.define 0 "x" 1) (by decide)
    have two := (one.operation (.child 0) (by decide)).operation (.define 1 "x" 2) (by decide)
    exact (two.operation (.child 0) (by decide)).operation (.child 1) (by decide)
  obtain ⟨ways, sets, -⟩ := operations_resolve_nearest built
  have resolved (i k : ScopeId) (created : i < shadowing.size) : shadowing.holder? i "x" = some k ↔
      shadowing.Nearest (shadowing.BindsVariable "x") k i :=
    (ways i created).1.holder?_eq_some_iff
  have nearest : shadowing.Nearest (shadowing.BindsVariable "x") 0 2 :=
    (resolved 2 0 (by decide)).mp rfl
  obtain ⟨s', done, -, seen, -⟩ := (sets 2 (by decide) "x" 5).1 0 nearest
  have hidden (i : ScopeId) (created : i < shadowing.size)
      (held : shadowing.holder? i "x" = some 1) :
      ¬ shadowing.Nearest (shadowing.BindsVariable "x") 0 i := by
    intro nearest
    cases held.symm.trans ((resolved i 0 created).mpr nearest)
  refine ⟨built, nearest, s', done, ?_, ?_, ?_, ?_⟩
  · exact seen.changed 0 (by decide) ((resolved 0 0 (by decide)).mp rfl)
  · exact seen.changed 2 (by decide) nearest
  · exact seen.kept 1 (by decide) "x" fun both => hidden 1 (by decide) rfl both.2
  · exact seen.kept 3 (by decide) "x" fun both => hidden 3 (by decide) rfl both.2

end FunLanguage.Scopes
