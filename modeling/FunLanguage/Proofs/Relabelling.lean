import FunLanguage.Proofs.Causes
import FunLanguage.Proofs.Interrupts

/-!
# Trees with other names and other lines

A `Relabelling` gives the variables, the functions and the lines of a tree other labels. It applies
to all that is made of trees and names: closures, scopes, frames and machines.

An operation on scopes and a relabelling can be done in either order if different names stay
different (`Relabelling.Faithful`): what a name is bound to is found under its new name
(`Scopes.get?_relabel` and the lemmas beside it). Variables and functions are kept apart, so their
names may change independently of each other. Nothing depends on lines.
-/

namespace FunLanguage

/-- Other names, for each kind of thing that they stand for, and other lines. -/
structure Relabelling where
  name : NameSpace → String → String
  line : Nat → Nat

/-- Different names stay different, and the functions that are there from the start keep theirs. -/
structure Relabelling.Faithful (r : Relabelling) : Prop where
  injective : ∀ space, Function.Injective (r.name space)
  builtin : ∀ b : Builtin, r.name .functions b.name = b.name

/-! ## Trees -/

mutual

/-- The expression with its variables, functions and lines relabelled. -/
def Expr.relabel (r : Relabelling) : Expr → Expr
  | .literal value line => .literal value (r.line line)
  | .identifier name line => .identifier (r.name .values name) (r.line line)
  | .binary operator left right line =>
    .binary operator (left.relabel r) (right.relabel r) (r.line line)
  | .call name arguments line =>
    .call (r.name .functions name) (Expr.listRelabel r arguments) (r.line line)

/-- The expressions of a list, relabelled. -/
def Expr.listRelabel (r : Relabelling) : List Expr → List Expr
  | [] => []
  | e :: es => e.relabel r :: Expr.listRelabel r es

end

mutual

/-- The statement with its variables, functions and lines relabelled. Parameters are variables. -/
def Stmt.relabel (r : Relabelling) : Stmt → Stmt
  | .expression e => .expression (e.relabel r)
  | .definition name parameters body line =>
    .definition (r.name .functions name) (parameters.map (r.name .values)) (body.relabel r)
      (r.line line)
  | .declaration name value? line =>
    .declaration (r.name .values name) (value?.map (Expr.relabel r)) (r.line line)
  | .loop condition body line => .loop (condition.relabel r) (body.relabel r) (r.line line)
  | .branch condition body none line =>
    .branch (condition.relabel r) (body.relabel r) none (r.line line)
  | .branch condition body (some otherwise) line =>
    .branch (condition.relabel r) (body.relabel r) (some (otherwise.relabel r)) (r.line line)
  | .assignment name value line =>
    .assignment (r.name .values name) (value.relabel r) (r.line line)
  | .returns value line => .returns (value.relabel r) (r.line line)

/-- The block with its variables, functions and lines relabelled. -/
def Block.relabel (r : Relabelling) : Block → Block
  | ⟨statements, line⟩ => ⟨Stmt.listRelabel r statements, r.line line⟩

/-- The statements of a list, relabelled. -/
def Stmt.listRelabel (r : Relabelling) : List Stmt → List Stmt
  | [] => []
  | s :: ss => s.relabel r :: Stmt.listRelabel r ss

end

/-- The program with its variables, functions and lines relabelled. -/
def Program.relabel (r : Relabelling) (p : Program) : Program :=
  ⟨p.block.relabel r, r.line p.line⟩

def Node.relabel (r : Relabelling) : Node → Node
  | program p => .program (p.relabel r)
  | block b => .block (b.relabel r)
  | statement s => .statement (s.relabel r)
  | expression e => .expression (e.relabel r)

section Trees

variable (r : Relabelling)

theorem Expr.listRelabel_eq_map (es : List Expr) : Expr.listRelabel r es = es.map (relabel r) := by
  induction es with
  | nil => rfl
  | cons e es ih => rw [Expr.listRelabel, ih, List.map_cons]

theorem Stmt.listRelabel_eq_map (ss : List Stmt) : Stmt.listRelabel r ss = ss.map (relabel r) := by
  induction ss with
  | nil => rfl
  | cons s ss ih => rw [Stmt.listRelabel, ih, List.map_cons]

theorem Stmt.relabel_branch (condition : Expr) (body : Block) (otherwise? : Option Block)
    (line : Nat) : (Stmt.branch condition body otherwise? line).relabel r =
      .branch (condition.relabel r) (body.relabel r) (otherwise?.map (Block.relabel r))
        (r.line line) := by
  cases otherwise? <;> rfl

@[simp] theorem Block.relabel_statements (b : Block) :
    (b.relabel r).statements = b.statements.map (Stmt.relabel r) := by
  obtain ⟨statements, line⟩ := b
  exact Stmt.listRelabel_eq_map r statements

@[simp] theorem Expr.line_relabel (e : Expr) : (e.relabel r).line = r.line e.line := by
  cases e <;> rfl

@[simp] theorem Node.line_relabel (node : Node) : (node.relabel r).line = r.line node.line := by
  cases node with
  | program p => rfl
  | block b => cases b; rfl
  | expression e => exact e.line_relabel r
  | statement s =>
    cases s with
    | expression e => exact e.line_relabel r
    | branch condition body otherwise? line => cases otherwise? <;> rfl
    | _ => rfl

@[simp] theorem Node.kind_relabel (node : Node) : (node.relabel r).kind = node.kind := by
  cases node with
  | program p => rfl
  | block b => rfl
  | expression e => cases e <;> rfl
  | statement s =>
    cases s with
    | expression e => cases e <;> rfl
    | branch condition body otherwise? line => cases otherwise? <;> rfl
    | _ => rfl

@[simp] theorem Node.isVisited_relabel (node : Node) :
    (node.relabel r).isVisited = node.isVisited := by
  cases node with
  | program p => rfl
  | block b => rfl
  | expression e => cases e <;> rfl
  | statement s =>
    cases s with
    | branch condition body otherwise? line => cases otherwise? <;> rfl
    | _ => rfl

end Trees

/-! ## What is made of trees and names -/

def Closure.relabel (r : Relabelling) (c : Closure) : Closure :=
  ⟨c.scope, c.parameters.map (r.name .values), c.body.relabel r⟩

def Function.relabel (r : Relabelling) : Function → Function
  | builtin b => .builtin b
  | closure c => .closure (c.relabel r)

/-- The fault with its line relabelled, and its name as one of the given space. -/
def Fault.relabel (r : Relabelling) (space : NameSpace) : Fault → Fault
  | unknownIdentifier name line => .unknownIdentifier (r.name space name) (r.line line)
  | redefinition name line => .redefinition (r.name space name) (r.line line)
  | arithmetic line => .arithmetic (r.line line)
  | functionCall name line => .functionCall (r.name space name) (r.line line)
  | malformed error => .malformed error
  | wrongArgumentsNumber expected found => .wrongArgumentsNumber expected found
  | stopped => .stopped

def Scope.relabel (r : Relabelling) (t : Scope) : Scope :=
  { t with
    values := t.values.map fun b => (r.name .values b.1, b.2)
    functions := t.functions.map fun b => (r.name .functions b.1, b.2.relabel r) }

def Scopes.relabel (r : Relabelling) (s : Scopes) : Scopes :=
  ⟨s.entries.map (Scope.relabel r)⟩

def World.relabel (r : Relabelling) (w : World) : World :=
  { w with scopes := w.scopes.relabel r }

def Sighting.relabel (r : Relabelling) (v : Sighting) : Sighting :=
  ⟨v.node.relabel r, v.scope, v.world.relabel r⟩

/-! ## A single scope -/

/-- What a key is paired with is found under its new name. -/
theorem lookup_map_of_injective {α β : Type} {f : String → String}
    (injective : Function.Injective f) (g : α → β) (key : String) (bindings : List (String × α)) :
    (bindings.map fun b => (f b.1, g b.2)).lookup (f key) = (bindings.lookup key).map g := by
  induction bindings with
  | nil => rfl
  | cons binding bindings ih =>
    rw [List.map_cons]
    by_cases here : key = binding.1
    · subst here
      rw [List.lookup_cons_self, List.lookup_cons_self, Option.map_some]
    · have apart : f key ≠ f binding.1 := fun same => here (injective same)
      rw [List.lookup_cons, List.lookup_cons, beq_eq_false_iff_ne.mpr here,
        beq_eq_false_iff_ne.mpr apart]
      exact ih

namespace Scope

variable {r : Relabelling}

section Faithful

variable (faithful : r.Faithful) (t : Scope) (name : String)

include faithful

theorem valueOf?_relabel : (t.relabel r).valueOf? (r.name .values name) = t.valueOf? name := by
  have same := lookup_map_of_injective (faithful.injective .values) id name t.values
  rwa [Option.map_id] at same

theorem functionOf?_relabel : (t.relabel r).functionOf? (r.name .functions name) =
    (t.functionOf? name).map (Function.relabel r) :=
  lookup_map_of_injective (faithful.injective .functions) _ name t.functions

theorem setVariable_relabel (value : Int32) :
    (t.relabel r).setVariable (r.name .values name) value =
      (t.setVariable name value).relabel r := by
  have same : (t.values.map fun b => (r.name .values b.1, b.2)).map
        (fun b => if b.1 = r.name .values name then (b.1, value) else b) =
      (t.values.map fun b => if b.1 = name then (b.1, value) else b).map
        fun b => (r.name .values b.1, b.2) := by
    rw [List.map_map, List.map_map]
    refine List.map_congr_left fun b _ => ?_
    simp only [Function.comp_apply, (faithful.injective .values).eq_iff]
    split <;> rfl
  simp only [setVariable, relabel, same]

end Faithful

end Scope

/-! ## All scopes -/

namespace Scopes

variable {r : Relabelling}

@[simp] theorem size_relabel (s : Scopes) : (s.relabel r).size = s.size := by
  simp [relabel, size]

@[simp] theorem scope_relabel (s : Scopes) (i : ScopeId) :
    (s.relabel r).scope i = (s.scope i).relabel r := by
  simp only [relabel, scope, Array.getD_eq_getD_getElem?, Array.getElem?_map]
  cases s.entries[i]? <;> rfl

@[simp] theorem path_relabel (s : Scopes) (i : ScopeId) : (s.relabel r).path i = s.path i := by
  rw [path, scope_relabel]
  rfl

@[simp] theorem isInterrupted_relabel (s : Scopes) (i : ScopeId) :
    (s.relabel r).isInterrupted i = s.isInterrupted i := by
  rw [isInterrupted, scope_relabel]
  rfl

@[simp] theorem result_relabel (s : Scopes) (i : ScopeId) :
    (s.relabel r).result i = s.result i := by
  rw [result, scope_relabel]
  rfl

/-- Two changes of a scope that are the same but for labels are so on all scopes. -/
theorem modify_relabel (s : Scopes) (i : ScopeId) {f f' : Scope → Scope}
    (same : ∀ t, f' (t.relabel r) = (f t).relabel r) :
    (s.relabel r).modify i f' = (s.modify i f).relabel r := by
  refine ext_scope (by simp) fun j => ?_
  simp only [scope_relabel, scope_modify, size_relabel]
  split
  · exact same _
  · rfl

theorem interrupt_relabel (s : Scopes) (i : ScopeId) (value : Int32) :
    (s.relabel r).interrupt i value = (s.interrupt i value).relabel r :=
  s.modify_relabel i fun _ => rfl

theorem release_relabel (s : Scopes) (i : ScopeId) :
    (s.relabel r).release i = (s.release i).relabel r :=
  s.modify_relabel i fun _ => rfl

theorem child_relabel (s : Scopes) (parent : ScopeId) :
    ((s.relabel r).child parent).2 = (s.child parent).2.relabel r := by
  refine ext_scope (by simp) fun j => ?_
  simp only [scope_relabel, scope_child, size_relabel, path_relabel]
  split <;> rfl

section Faithful

variable (faithful : r.Faithful) (s : Scopes) (i : ScopeId) (name : String)

include faithful

theorem get?_relabel : (s.relabel r).get? i (r.name .values name) = s.get? i name := by
  simp only [get?, path_relabel, scope_relabel, Scope.valueOf?_relabel faithful]

theorem holder?_relabel : (s.relabel r).holder? i (r.name .values name) = s.holder? i name := by
  simp only [holder?, path_relabel, scope_relabel, Scope.valueOf?_relabel faithful]

theorem function?_relabel : (s.relabel r).function? i (r.name .functions name) =
    (s.function? i name).map (Function.relabel r) := by
  simp only [function?, path_relabel, scope_relabel, Scope.functionOf?_relabel faithful,
    List.map_findSome?]
  rfl

omit name in
theorem bindParameters_relabel (bindings : List (String × Int32)) :
    (s.relabel r).bindParameters i (bindings.map (Prod.map (r.name .values) id)) =
      (s.bindParameters i bindings).relabel r := by
  induction bindings generalizing s with
  | nil => rfl
  | cons binding bindings ih =>
    simp only [List.map_cons, bindParameters, Prod.map, scope_relabel,
      Scope.valueOf?_relabel faithful]
    split
    · exact ih s
    · rw [s.modify_relabel i (f := (·.addVariable binding.1 binding.2)) fun _ => rfl]
      exact ih _

end Faithful

end Scopes

/-- What causes a fault causes it under other labels. -/
theorem Sighting.Causes.relabel {r : Relabelling} (faithful : r.Faithful) {v : Sighting}
    {fault : Fault} (h : v.Causes fault) :
    (v.relabel r).Causes (fault.relabel r v.node.nameSpace) := by
  cases h with
  | unknownVariable => exact .unknownVariable
  | unknownTarget => exact .unknownTarget
  | unknownFunction => exact .unknownFunction
  | boundVariable => exact .boundVariable
  | boundFunction => exact .boundFunction
  | division divides => exact .division divides
  | @mismatch name arguments line i world c found differ =>
    have found' := Scopes.function?_relabel faithful world.scopes i name
    rw [found, Option.map_some] at found'
    refine .mismatch found' ?_
    rw [Expr.listRelabel_eq_map, List.length_map]
    exact fun same => differ (same.trans (List.length_map _))

end FunLanguage
