import Mathlib.Data.Nat.Pairing
import FunLanguage.Proofs.Grammar.Lines
import FunLanguage.Proofs.Grammar.Printing
import FunLanguage.Proofs.Grammar.Scanning
import FunLanguage.Proofs.Renaming

/-!
# Layout has no meaning

Two lists of tokens of the same kinds and lexemes are two views of one list in which each token has
both its lines, as one number (`Token.merge`). So the programs that they make are two views of one
program, and so are their runs: everything is the same but for lines, and both faults have the line
of one and the same node (`Program.layout_keeps_meaning`).
-/

namespace FunLanguage

/-! ## Places in trees -/

namespace Node

/-- The node at a place of the tree. From the node up to the whole tree, the place tells the number
that each has among the parts of the next one. -/
def at? (tree : Node) : (place : List Nat) → Option Node
  | [] => some tree
  | k :: place => (tree.at? place).bind fun node => node.parts[k]?

theorem Has.exists_at? {tree node : Node} (has : tree.Has node) :
    ∃ place, tree.at? place = some node := by
  induction has with
  | whole => exact ⟨[], rfl⟩
  | part _ mem ih =>
    obtain ⟨place, here⟩ := ih
    obtain ⟨k, part⟩ := List.mem_iff_getElem?.mp mem
    exact ⟨k :: place, by rw [at?, here, Option.bind_some, part]⟩

theorem parts_relabel (r : Relabelling) (node : Node) :
    (node.relabel r).parts = node.parts.map (relabel r) := by
  cases node with
  | program p => rfl
  | block b =>
    rw [relabel, parts, parts, Block.relabel_statements, List.map_map, List.map_map]
    rfl
  | statement s =>
    cases s with
    | declaration name value? line => cases value? <;> rfl
    | branch condition body otherwise? line => cases otherwise? <;> rfl
    | _ => rfl
  | expression e =>
    cases e with
    | call name arguments line =>
      simp only [relabel, parts, Expr.relabel, Expr.parts, Expr.listRelabel_eq_map, List.map_map]
      rfl
    | _ => rfl

/-- Other labels leave every node at its place. -/
theorem at?_relabel (r : Relabelling) (tree : Node) (place : List Nat) :
    (tree.relabel r).at? place = (tree.at? place).map (relabel r) := by
  induction place with
  | nil => rfl
  | cons k place ih =>
    rw [at?, at?, ih, Option.bind_map, Option.map_bind]
    refine congrArg _ (funext fun node => ?_)
    rw [Function.comp_apply, parts_relabel, List.getElem?_map]
    rfl

end Node

/-! ## Lines that are left out -/

section WithoutLines

variable (lines : Nat → Nat)

mutual

theorem Expr.withoutLines_relabel (e : Expr) :
    (e.relabel (.ofLines lines)).withoutLines = e.withoutLines := by
  cases e with
  | literal value line => rfl
  | identifier name line => rfl
  | binary operator left right line =>
    rw [relabel, withoutLines, withoutLines, left.withoutLines_relabel, right.withoutLines_relabel]
  | call name arguments line =>
    rw [relabel, withoutLines, withoutLines, listWithoutLines_relabel]
    rfl

theorem Expr.listWithoutLines_relabel (es : List Expr) :
    Expr.listWithoutLines (Expr.listRelabel (.ofLines lines) es) = Expr.listWithoutLines es := by
  cases es with
  | nil => rfl
  | cons e es =>
    rw [listRelabel, listWithoutLines, listWithoutLines, e.withoutLines_relabel,
      listWithoutLines_relabel es]

end

mutual

theorem Stmt.withoutLines_relabel (s : Stmt) :
    (s.relabel (.ofLines lines)).withoutLines = s.withoutLines := by
  cases s with
  | expression e => rw [Stmt.relabel, Stmt.withoutLines, Stmt.withoutLines, e.withoutLines_relabel]
  | definition name parameters body line =>
    rw [Stmt.relabel, Stmt.withoutLines, Stmt.withoutLines, body.withoutLines_relabel,
      Relabelling.ofLines, List.map_id]
    rfl
  | declaration name value? line =>
    cases value? with
    | none => rfl
    | some e =>
      rw [Stmt.relabel, Stmt.withoutLines, Stmt.withoutLines, Option.map_some, Option.map_some,
        Option.map_some, e.withoutLines_relabel]
      rfl
  | loop condition body line =>
    rw [Stmt.relabel, Stmt.withoutLines, Stmt.withoutLines, condition.withoutLines_relabel,
      body.withoutLines_relabel]
  | branch condition body otherwise? line =>
    cases otherwise? with
    | none =>
      rw [Stmt.relabel, Stmt.withoutLines, Stmt.withoutLines, condition.withoutLines_relabel,
        body.withoutLines_relabel]
    | some otherwise =>
      rw [Stmt.relabel, Stmt.withoutLines, Stmt.withoutLines, condition.withoutLines_relabel,
        body.withoutLines_relabel, otherwise.withoutLines_relabel]
  | assignment name value line =>
    rw [Stmt.relabel, Stmt.withoutLines, Stmt.withoutLines, value.withoutLines_relabel]
    rfl
  | returns value line =>
    rw [Stmt.relabel, Stmt.withoutLines, Stmt.withoutLines, value.withoutLines_relabel]

theorem Block.withoutLines_relabel (b : Block) :
    (b.relabel (.ofLines lines)).withoutLines = b.withoutLines := by
  obtain ⟨statements, line⟩ := b
  rw [Block.relabel, Block.withoutLines, Block.withoutLines, Stmt.listWithoutLines_relabel]

theorem Stmt.listWithoutLines_relabel (ss : List Stmt) :
    Stmt.listWithoutLines (Stmt.listRelabel (.ofLines lines) ss) = Stmt.listWithoutLines ss := by
  cases ss with
  | nil => rfl
  | cons s ss =>
    rw [Stmt.listRelabel, Stmt.listWithoutLines, Stmt.listWithoutLines, s.withoutLines_relabel,
      Stmt.listWithoutLines_relabel ss]

end

theorem Program.withoutLines_relabel (p : Program) :
    (p.relabel (.ofLines lines)).withoutLines = p.withoutLines := by
  rw [relabel, withoutLines, withoutLines, Block.withoutLines_relabel]

end WithoutLines

/-! ## Runs of views -/

/-- The fault on no line, which has the number 0. -/
def Fault.withoutLine : Fault → Fault
  | malformed error => .malformed { error with line := 0 }
  | unknownIdentifier name _ => .unknownIdentifier name 0
  | redefinition name _ => .redefinition name 0
  | arithmetic _ => .arithmetic 0
  | functionCall name _ => .functionCall name 0
  | wrongArgumentsNumber expected found => .wrongArgumentsNumber expected found
  | stopped => .stopped

theorem Fault.withoutLine_relabel (lines : Nat → Nat) (space : NameSpace) (fault : Fault) :
    (fault.relabel (.ofLines lines) space).withoutLine = fault.withoutLine := by
  cases fault <;> rfl

open Machine in
/-- Within the budget neither program ends, or both do: they have written the same, and end in the
same value or in faults that differ in their lines at most. Each of these is the line of a node that
the run visited and that caused the fault, and the two nodes are at the same place. -/
inductive Program.EndsAlike (p p' : Program) (budget : Nat) : Prop
  | running (ran : (ofProgram p).run budget = none) (ran' : (ofProgram p').run budget = none)
  | value {value world world'} (ran : (ofProgram p).run budget = some (.ok value, world))
      (ran' : (ofProgram p').run budget = some (.ok value, world'))
      (output : world'.output = world.output)
  | fault {fault fault' world world' place v v'}
      (ran : (ofProgram p).run budget = some (.error fault, world))
      (ran' : (ofProgram p').run budget = some (.error fault', world'))
      (output : world'.output = world.output)
      (same : fault'.withoutLine = fault.withoutLine)
      (visited : v ∈ (ofProgram p).sightings budget)
      (visited' : v' ∈ (ofProgram p').sightings budget)
      (causes : v.Causes fault) (causes' : v'.Causes fault')
      (line : fault.line? = some v.node.line) (line' : fault'.line? = some v'.node.line)
      (at_place : (Node.program p).at? place = some v.node)
      (at_place' : (Node.program p').at? place = some v'.node)

open Machine in
/-- Two views of one program end alike. -/
theorem Program.endsAlike_relabel (lines lines' : Nat → Nat) (p : Program) (budget : Nat) :
    (p.relabel (.ofLines lines)).EndsAlike (p.relabel (.ofLines lines')) budget := by
  have faithful := Relabelling.faithful_ofLines lines
  have faithful' := Relabelling.faithful_ofLines lines'
  obtain ⟨space, same, raised⟩ := run_relabel faithful p budget
  obtain ⟨space', same', -⟩ := run_relabel faithful' p budget
  cases ran : (ofProgram p).run budget with
  | none =>
    rw [ran] at same same'
    exact .running same same'
  | some ended =>
    obtain ⟨outcome, world⟩ := ended
    rw [ran] at same same'
    cases outcome with
    | ok value => exact .value same same' rfl
    | error fault =>
      obtain ⟨-, v, mem, causes, rfl⟩ := raised fault world ran
      obtain ⟨place, here⟩ := (has_of_mem_sightings mem).exists_at?
      -- names stay as they are, whatever space they are taken for
      have any_space : fault.relabel (.ofLines lines') space' =
          fault.relabel (.ofLines lines') v.node.nameSpace := by cases fault <;> rfl
      rw [Option.map_some, Except.mapError, any_space] at same'
      have view (lines : Nat → Nat) :
          (Node.program (p.relabel (.ofLines lines))).at? place =
            some (v.node.relabel (.ofLines lines)) := by
        have moved := Node.at?_relabel (.ofLines lines) (.program p) place
        rwa [here] at moved
      have visited (lines : Nat → Nat) : v.relabel (.ofLines lines) ∈
          (ofProgram (p.relabel (.ofLines lines))).sightings budget := by
        rw [sightings_relabel (Relabelling.faithful_ofLines lines)]
        exact List.mem_map_of_mem mem
      have caused := causes.relabel faithful
      have caused' := causes.relabel faithful'
      exact .fault same same' rfl
        ((fault.withoutLine_relabel ..).trans (fault.withoutLine_relabel ..).symm)
        (visited lines) (visited lines') caused caused' caused.line? caused'.line? (view lines)
        (view lines')

/-! ## Two layouts -/

/-- The token with its own line and that of the other one, as one number. -/
def Token.merge (t t' : Token) : Token :=
  { t with line := Nat.pair t.line t'.line }

theorem Token.alike_merge {tokens tokens' : List Token}
    (same : tokens.map (fun t => (t.kind, t.lexeme)) =
      tokens'.map fun t => (t.kind, t.lexeme)) :
    List.Forall₂ (Token.Alike (.ofLines fun n => n.unpair.1)) (List.zipWith merge tokens tokens')
        tokens ∧
      List.Forall₂ (Token.Alike (.ofLines fun n => n.unpair.2)) (List.zipWith merge tokens tokens')
        tokens' := by
  induction tokens generalizing tokens' with
  | nil =>
    cases tokens' with
    | nil => exact ⟨.nil, .nil⟩
    | cons t' tokens' => cases same
  | cons t tokens ih =>
    cases tokens' with
    | nil => cases same
    | cons t' tokens' =>
      obtain ⟨first, others⟩ := List.cons.inj same
      obtain ⟨kind, lexeme⟩ := Prod.mk.inj first
      obtain ⟨left, right⟩ := ih others
      refine ⟨.cons ⟨rfl, rfl, ?_, trivial⟩ left,
        .cons ⟨kind.symm, lexeme.symm, ?_, trivial⟩ right⟩
      · simp [merge, Placing.ofLines]
      · simp [merge, Placing.ofLines]

/-- Layout has no meaning. If two source texts have tokens of the same kinds and lexemes, they make
programs that differ in lines only, or errors in the same words. The programs end together, have
written the same, and end in the same value or in the same fault on the line of the same node. -/
theorem Program.layout_keeps_meaning {source source' : String} {tokens tokens' : List Token}
    (scanned : Token.scan source = .ok tokens) (scanned' : Token.scan source' = .ok tokens')
    (same : tokens.map (fun t => (t.kind, t.lexeme)) =
      tokens'.map fun t => (t.kind, t.lexeme)) :
    (∃ e e', ofSource source = .error e ∧ ofSource source' = .error e' ∧
      e'.message = e.message ∧ e'.help? = e.help?) ∨
    ∃ p p', ofSource source = .ok p ∧ ofSource source' = .ok p' ∧
      p'.withoutLines = p.withoutLines ∧ ∀ budget, p.EndsAlike p' budget := by
  obtain ⟨left, right⟩ := Token.alike_merge same
  rw [ofSource_eq_ofTokens scanned, ofSource_eq_ofTokens scanned']
  have marked := Cursor.marked_of_alike left (Token.marked_of_scan scanned)
  have start := Cursor.ofTokens_alike left marked (Token.marked_of_scan scanned)
  have start' := Cursor.ofTokens_alike right marked (Token.marked_of_scan scanned')
  obtain ⟨p, read, ok⟩ | ⟨e, e₁, read, error, alike⟩ := ofTokens_alike start
  · obtain ⟨p', read', ok'⟩ | ⟨e', _, read', -⟩ := ofTokens_alike start'
    · cases read.symm.trans read'
      exact .inr ⟨_, _, ok, ok', (withoutLines_relabel _ p).trans (withoutLines_relabel _ p).symm,
        endsAlike_relabel _ _ p⟩
    · cases read.symm.trans read'
  · obtain ⟨p', read', -⟩ | ⟨e', e₂, read', error', alike'⟩ := ofTokens_alike start'
    · cases read.symm.trans read'
    · cases read.symm.trans read'
      exact .inl ⟨e₁, e₂, error, error', alike'.message.trans alike.message.symm,
        alike'.help.trans alike.help.symm⟩

/-- A variable that is not there is missed on line 1, and behind an empty comment on line 2. -/
theorem Program.layout_keeps_meaning_of_comment :
    ∃ p p', ofSource "x" = .ok p ∧ ofSource "//\nx" = .ok p' ∧ p'.withoutLines = p.withoutLines ∧
      p.EndsAlike p' 10 ∧
      (∃ world, (Machine.ofProgram p).run 10 = some (.error (.unknownIdentifier "x" 1), world)) ∧
      ∃ world, (Machine.ofProgram p').run 10 = some (.error (.unknownIdentifier "x" 2), world) := by
  have word : Piece.cut 'x' [] = .ok (.lexeme .identifier ['x'], []) := rfl
  have comment : Piece.cut '/' ['/', '\n', 'x'] = .ok (.gap ['/', '/'], ['\n', 'x']) := rfl
  have blank : Piece.cut '\n' ['x'] = .ok (.gap ['\n'], ['x']) := rfl
  have scanned : Token.scan "x" =
      .ok [⟨.identifier, "x", ⟨0, 1⟩, 1⟩, ⟨.endMark, "", ⟨1, 2⟩, 1⟩] := by
    rw [Token.scan, show "x".toList = ['x'] from rfl, Token.scanFrom_cons word, Token.scanFrom_nil]
    rfl
  have scanned' : Token.scan "//\nx" =
      .ok [⟨.identifier, "x", ⟨3, 4⟩, 2⟩, ⟨.endMark, "", ⟨4, 5⟩, 2⟩] := by
    rw [Token.scan, show "//\nx".toList = ['/', '/', '\n', 'x'] from rfl,
      Token.scanFrom_cons comment, Token.scanFrom_cons blank, Token.scanFrom_cons word,
      Token.scanFrom_nil]
    rfl
  have read : ofSource "x" = .ok ⟨⟨[.expression (.identifier "x" 1)], 1⟩, 1⟩ := by
    rw [ofSource_eq_ofTokens scanned]
    cbv
  have read' : ofSource "//\nx" = .ok ⟨⟨[.expression (.identifier "x" 2)], 2⟩, 2⟩ := by
    rw [ofSource_eq_ofTokens scanned']
    cbv
  obtain ⟨e, _, error, -⟩ | ⟨p, p', ok, ok', same, ends⟩ :=
    layout_keeps_meaning scanned scanned' rfl
  · cases read.symm.trans error
  · cases read.symm.trans ok
    cases read'.symm.trans ok'
    exact ⟨_, _, ok, ok', same, ends 10, ⟨_, rfl⟩, _, rfl⟩

end FunLanguage
