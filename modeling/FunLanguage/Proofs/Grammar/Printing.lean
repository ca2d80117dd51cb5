import FunLanguage.Token.Scan
import FunLanguage.Tree.Basic

/-!
# How trees are printed

A tree is printed as lexemes, and lexemes are spelled as a text with blanks between them. Neither is
a function: any expression may stand in more parentheses than it needs, and blanks may be of any
number and kind. So `Written` relates a tree to the lexemes that it may be printed as, and `Spaced`
lexemes to the texts that spell them.

An expression needs parentheses where its operator binds looser than the place that it stands in
allows. Operators associate to the left: the left operand may be made with operators of the same
precedence, and the right one may not.
-/

namespace FunLanguage

/-! ## Trees without their lines -/

mutual

/-- The expression with all its lines set to 0, which is the number of no line. -/
def Expr.withoutLines : Expr → Expr
  | .literal value _ => .literal value 0
  | .identifier name _ => .identifier name 0
  | .binary operator left right _ => .binary operator left.withoutLines right.withoutLines 0
  | .call name arguments _ => .call name (Expr.listWithoutLines arguments) 0

/-- The expressions of a list with all their lines set to 0. -/
def Expr.listWithoutLines : List Expr → List Expr
  | [] => []
  | e :: es => e.withoutLines :: Expr.listWithoutLines es

end

mutual

/-- The statement with all its lines set to 0. -/
def Stmt.withoutLines : Stmt → Stmt
  | .expression e => .expression e.withoutLines
  | .definition name parameters body _ => .definition name parameters body.withoutLines 0
  | .declaration name value? _ => .declaration name (value?.map Expr.withoutLines) 0
  | .loop condition body _ => .loop condition.withoutLines body.withoutLines 0
  | .branch condition body none _ => .branch condition.withoutLines body.withoutLines none 0
  | .branch condition body (some otherwise) _ =>
    .branch condition.withoutLines body.withoutLines (some otherwise.withoutLines) 0
  | .assignment name value _ => .assignment name value.withoutLines 0
  | .returns value _ => .returns value.withoutLines 0

/-- The block with all its lines set to 0. -/
def Block.withoutLines : Block → Block
  | ⟨statements, _⟩ => ⟨Stmt.listWithoutLines statements, 0⟩

/-- The statements of a list with all their lines set to 0. -/
def Stmt.listWithoutLines : List Stmt → List Stmt
  | [] => []
  | s :: ss => s.withoutLines :: Stmt.listWithoutLines ss

end

/-- The program with all its lines set to 0. -/
def Program.withoutLines (p : Program) : Program :=
  ⟨p.block.withoutLines, 0⟩

theorem Program.withoutLines_eq_iff {p q : Program} : p.withoutLines = q.withoutLines ↔
    Stmt.listWithoutLines p.block.statements = Stmt.listWithoutLines q.block.statements := by
  obtain ⟨⟨_, _⟩, _⟩ := p
  obtain ⟨⟨_, _⟩, _⟩ := q
  simp [withoutLines, Block.withoutLines]

/-! ## Trees that can be printed -/

/-- Whether the text is a name: an identifier that is not reserved. -/
def IsName (name : String) : Prop :=
  (∃ c cs, name.toList = c :: cs ∧ isWordStart c = true ∧ ∀ d ∈ cs, isWordPart d = true) ∧
    TokenKind.ofKeyword? name = none

mutual

/-- Whether no literal of the expression is negative, and all its names are names. A negative value
has no numeral, as the minus sign is an operator. -/
def Expr.Printable : Expr → Prop
  | .literal value _ => 0 ≤ value
  | .identifier name _ => IsName name
  | .binary _ left right _ => left.Printable ∧ right.Printable
  | .call name arguments _ => IsName name ∧ Expr.ListPrintable arguments

/-- Whether all expressions of the list can be printed. -/
def Expr.ListPrintable : List Expr → Prop
  | [] => True
  | e :: es => e.Printable ∧ Expr.ListPrintable es

end

mutual

/-- Whether no literal of the statement is negative, and all its names are names. -/
def Stmt.Printable : Stmt → Prop
  | .expression e => e.Printable
  | .definition name parameters body _ =>
    IsName name ∧ (∀ parameter ∈ parameters, IsName parameter) ∧ body.Printable
  | .declaration name value? _ => IsName name ∧ ∀ value ∈ value?, value.Printable
  | .loop condition body _ => condition.Printable ∧ body.Printable
  | .branch condition body none _ => condition.Printable ∧ body.Printable
  | .branch condition body (some otherwise) _ =>
    condition.Printable ∧ body.Printable ∧ otherwise.Printable
  | .assignment name value _ => IsName name ∧ value.Printable
  | .returns value _ => value.Printable

/-- Whether all statements of the block can be printed. -/
def Block.Printable : Block → Prop
  | ⟨statements, _⟩ => Stmt.ListPrintable statements

/-- Whether all statements of the list can be printed. -/
def Stmt.ListPrintable : List Stmt → Prop
  | [] => True
  | s :: ss => s.Printable ∧ Stmt.ListPrintable ss

end

/-- Whether all statements of the program can be printed. -/
def Program.Printable (p : Program) : Prop :=
  Stmt.ListPrintable p.block.statements

/-! ## Trees as lexemes -/

/-- How tightly the operator binds: the greater, the tighter. -/
def BinaryOp.precedence : BinaryOp → Nat
  | or => 0
  | and => 1
  | equal | notEqual => 2
  | less | greater | lessEqual | greaterEqual => 3
  | add | subtract => 4
  | multiply | divide | remainder => 5

mutual

/-- The lexemes that an expression may be printed as in a place where an operator that binds looser
than the given precedence would need parentheses. -/
inductive Expr.Written : Nat → Expr → List String → Prop
  | literal {n value line} : Written n (.literal value line) [Text.ofInt32 value]
  | identifier {n name line} : Written n (.identifier name line) [name]
  | call {n name es line ls} : ArgumentsWritten es ls →
      Written n (.call name es line) (name :: "(" :: (ls ++ [")"]))
  | binary {n op a b line as bs} : n ≤ op.precedence → Written op.precedence a as →
      Written (op.precedence + 1) b bs →
      Written n (.binary op a b line) (as ++ op.symbol :: bs)
  | parentheses {n e ls} : Written 0 e ls → Written n e ("(" :: (ls ++ [")"]))

/-- The lexemes that the arguments of a call may be printed as, with commas between them. -/
inductive Expr.ArgumentsWritten : List Expr → List String → Prop
  | none : ArgumentsWritten [] []
  | one {e ls} : Written 0 e ls → ArgumentsWritten [e] ls
  | more {e e' es ls ls'} : Written 0 e ls → ArgumentsWritten (e' :: es) ls' →
      ArgumentsWritten (e :: e' :: es) (ls ++ "," :: ls')

end

mutual

/-- The lexemes that a statement may be printed as. -/
inductive Stmt.Written : Stmt → List String → Prop
  | expression {e ls} : Expr.Written 0 e ls → Stmt.Written (.expression e) ls
  | definition {name parameters body line ls} : Block.Written body ls →
      Stmt.Written (.definition name parameters body line)
        ("fun" :: name :: "(" :: (parameters.intersperse "," ++ ")" :: ls))
  | declaration {name line} : Stmt.Written (.declaration name none line) ["var", name]
  | initialised {name e line ls} : Expr.Written 0 e ls →
      Stmt.Written (.declaration name (some e) line) ("var" :: name :: "=" :: ls)
  | loop {e body line ls bs} : Expr.Written 0 e ls → Block.Written body bs →
      Stmt.Written (.loop e body line) ("while" :: "(" :: (ls ++ ")" :: bs))
  | branch {e body line ls bs} : Expr.Written 0 e ls → Block.Written body bs →
      Stmt.Written (.branch e body none line) ("if" :: "(" :: (ls ++ ")" :: bs))
  | alternative {e body otherwise line ls bs os} : Expr.Written 0 e ls → Block.Written body bs →
      Block.Written otherwise os →
      Stmt.Written (.branch e body (some otherwise) line)
        ("if" :: "(" :: (ls ++ ")" :: (bs ++ "else" :: os)))
  | assignment {name e line ls} : Expr.Written 0 e ls →
      Stmt.Written (.assignment name e line) (name :: "=" :: ls)
  | returns {e line ls} : Expr.Written 0 e ls → Stmt.Written (.returns e line) ("return" :: ls)

/-- The lexemes that a block may be printed as, which is in braces. -/
inductive Block.Written : Block → List String → Prop
  | braces {ss line ls} : Stmt.ListWritten ss ls →
      Block.Written ⟨ss, line⟩ ("\x7b" :: (ls ++ ["\x7d"]))

/-- The lexemes that statements may be printed as, with a semicolon behind each. -/
inductive Stmt.ListWritten : List Stmt → List String → Prop
  | none : Stmt.ListWritten [] []
  | some {s ss ls ls'} : Stmt.Written s ls → Stmt.ListWritten ss ls' →
      Stmt.ListWritten (s :: ss) (ls ++ ";" :: ls')

end

/-! ## Lexemes as text -/

/-- Whether the text goes on with a blank, if at all. -/
def EndsLexeme (text : List Char) : Prop :=
  ∀ c ∈ text.head?, isBlank c = true

/-- The texts that spell lexemes with blanks between them, any number of any kind, and with any
blanks at both ends. -/
inductive Spaced : List String → List Char → Prop
  | nothing : Spaced [] []
  | blank {c ls text} : isBlank c = true → Spaced ls text → Spaced ls (c :: text)
  | lexeme {l ls text} : EndsLexeme text → Spaced ls text → Spaced (l :: ls) (l.toList ++ text)

/-- The texts that an expression may be printed as. -/
def Expr.Renders (e : Expr) (source : String) : Prop :=
  ∃ ls, e.Written 0 ls ∧ Spaced ls source.toList

/-- The texts that a program may be printed as. -/
def Program.Renders (p : Program) (source : String) : Prop :=
  ∃ ls, Stmt.ListWritten p.block.statements ls ∧ Spaced ls source.toList

/-! ## Every tree can be written -/

mutual

theorem Expr.exists_written (n : Nat) : ∀ e : Expr, ∃ ls, e.Written n ls
  | .literal .. => ⟨_, .literal⟩
  | .identifier .. => ⟨_, .identifier⟩
  | .binary op a b _ => by
    obtain ⟨as, ha⟩ := a.exists_written op.precedence
    obtain ⟨bs, hb⟩ := b.exists_written (op.precedence + 1)
    exact ⟨_, .parentheses (.binary (Nat.zero_le _) ha hb)⟩
  | .call _ es _ => by
    obtain ⟨_, hes⟩ := Expr.exists_argumentsWritten es
    exact ⟨_, .call hes⟩

theorem Expr.exists_argumentsWritten : ∀ es : List Expr, ∃ ls, Expr.ArgumentsWritten es ls
  | [] => ⟨_, .none⟩
  | [e] => by
    obtain ⟨_, he⟩ := e.exists_written 0
    exact ⟨_, .one he⟩
  | e :: e' :: es => by
    obtain ⟨_, he⟩ := e.exists_written 0
    obtain ⟨_, hes⟩ := Expr.exists_argumentsWritten (e' :: es)
    exact ⟨_, .more he hes⟩

end

mutual

theorem Stmt.exists_written : ∀ s : Stmt, ∃ ls, s.Written ls
  | .expression e => by
    obtain ⟨_, he⟩ := e.exists_written 0
    exact ⟨_, .expression he⟩
  | .definition _ _ body _ => by
    obtain ⟨_, hb⟩ := body.exists_written
    exact ⟨_, .definition hb⟩
  | .declaration _ none _ => ⟨_, .declaration⟩
  | .declaration _ (some e) _ => by
    obtain ⟨_, he⟩ := e.exists_written 0
    exact ⟨_, .initialised he⟩
  | .loop e body _ => by
    obtain ⟨_, he⟩ := e.exists_written 0
    obtain ⟨_, hb⟩ := body.exists_written
    exact ⟨_, .loop he hb⟩
  | .branch e body none _ => by
    obtain ⟨_, he⟩ := e.exists_written 0
    obtain ⟨_, hb⟩ := body.exists_written
    exact ⟨_, .branch he hb⟩
  | .branch e body (some otherwise) _ => by
    obtain ⟨_, he⟩ := e.exists_written 0
    obtain ⟨_, hb⟩ := body.exists_written
    obtain ⟨_, ho⟩ := otherwise.exists_written
    exact ⟨_, .alternative he hb ho⟩
  | .assignment _ e _ => by
    obtain ⟨_, he⟩ := e.exists_written 0
    exact ⟨_, .assignment he⟩
  | .returns e _ => by
    obtain ⟨_, he⟩ := e.exists_written 0
    exact ⟨_, .returns he⟩

theorem Block.exists_written : ∀ b : Block, ∃ ls, b.Written ls
  | ⟨ss, _⟩ => by
    obtain ⟨_, hss⟩ := Stmt.exists_listWritten ss
    exact ⟨_, .braces hss⟩

theorem Stmt.exists_listWritten : ∀ ss : List Stmt, ∃ ls, Stmt.ListWritten ss ls
  | [] => ⟨_, .none⟩
  | s :: ss => by
    obtain ⟨_, hs⟩ := s.exists_written
    obtain ⟨_, hss⟩ := Stmt.exists_listWritten ss
    exact ⟨_, .some hs hss⟩

end

/-- Any run of blanks may stand in front of a text. -/
theorem Spaced.blanks {run text : List Char} {ls : List String} (h : Spaced ls text)
    (hrun : ∀ c ∈ run, isBlank c = true) : Spaced ls (run ++ text) := by
  induction run with
  | nil => exact h
  | cons c run ih =>
    obtain ⟨hc, hrun⟩ := List.forall_mem_cons.1 hrun
    exact .blank hc (ih hrun)

/-- Lexemes may have any run of blanks behind each that is not empty. -/
theorem spaced_flatMap (pieces : List (String × List Char))
    (h : ∀ piece ∈ pieces, piece.2 ≠ [] ∧ ∀ c ∈ piece.2, isBlank c = true) :
    Spaced (pieces.map (·.1)) (pieces.flatMap fun piece => piece.1.toList ++ piece.2) := by
  induction pieces with
  | nil => exact .nothing
  | cons piece pieces ih =>
    obtain ⟨⟨hne, hrun⟩, h⟩ := List.forall_mem_cons.1 h
    obtain ⟨c, run, hc⟩ := List.exists_cons_of_ne_nil hne
    rw [List.map_cons, List.flatMap_cons, List.append_assoc]
    refine .lexeme ?_ ((ih h).blanks hrun)
    simpa [EndsLexeme, hc] using hrun c (hc ▸ List.mem_cons_self)

theorem Program.exists_renders (p : Program) : ∃ source, p.Renders source := by
  obtain ⟨ls, hls⟩ := Stmt.exists_listWritten p.block.statements
  have hspaced := spaced_flatMap (ls.map (·, [' '])) (by simp [isBlank])
  rw [List.map_map, show ((·.1) ∘ (·, [' ']) : String → String) = id from rfl, List.map_id]
    at hspaced
  exact ⟨String.ofList _, ls, hls, by rwa [String.toList_ofList]⟩

end FunLanguage
