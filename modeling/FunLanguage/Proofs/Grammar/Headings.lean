import FunLanguage.Proofs.Grammar.Acceptance
import FunLanguage.Proofs.Grammar.Scanning
import FunLanguage.Proofs.Preorder

/-!
# The lines of nodes

Most nodes are headed by a token, and are on the line of that token. A block in braces is on the
line of the token behind its opening brace, and an operator on the line of its left operand.

`Token.headings` lists what the tokens of a program head, from the tokens alone. A walk over the
program meets exactly these nodes in the same order, next to the nodes that no token heads
(`Grammar.Traced`). So the walk goes from line to line as the tokens do, and never back
(`Program.lines_follow_tokens`).
-/

namespace FunLanguage

/-! ## What tokens head -/

namespace Token

/-- The kind of node that an identifier heads in front of the tokens. -/
def nameHeads : List Token → NodeKind
  | [] => .identifier
  | t :: _ =>
    if t.kind = .leftParen then .call else if t.kind = .equal then .assignment else .identifier

theorem nameHeads_of_paren {t : Token} {ts : List Token} (is : t.kind = .leftParen) :
    nameHeads (t :: ts) = .call := by
  simp [nameHeads, is]

theorem nameHeads_of_equal {t : Token} {ts : List Token} (is : t.kind = .equal) :
    nameHeads (t :: ts) = .assignment := by
  simp [nameHeads, is]

/-- The kind and the line of the node that a token heads in front of others, if it heads one. -/
def heading? (t : Token) (ts : List Token) : Option (NodeKind × Nat) :=
  match t.kind with
  | .integer => some (.literal, t.line)
  | .identifier => some (nameHeads ts, t.line)
  | .leftBrace => some (.block, (ts.head?.getD t).line)
  | .funWord => some (.definition, t.line)
  | .varWord => some (.declaration, t.line)
  | .whileWord => some (.loop, t.line)
  | .ifWord => some (.branch, t.line)
  | .returnWord => some (.returns, t.line)
  | _ => none

/-- The tokens behind the names that go with a token. Those of a definition end with a closing
parenthesis, and a declaration has one. -/
def behindNames (t : Token) (ts : List Token) : List Token :=
  match t.kind with
  | .funWord => ts.dropWhile (·.kind != .rightParen)
  | .varWord => ts.drop 1
  | _ => ts

theorem length_behindNames_le (t : Token) (ts : List Token) :
    (t.behindNames ts).length ≤ ts.length := by
  unfold behindNames
  split
  · exact List.length_dropWhile_le ..
  · exact List.length_drop ▸ Nat.sub_le ..
  · exact Nat.le_refl _

/-- The kinds and the lines of the nodes that the tokens head, in order. -/
def headings : List Token → List (NodeKind × Nat)
  | [] => []
  | t :: ts => (t.heading? ts).toList ++ headings (t.behindNames ts)
termination_by ts => ts.length
decreasing_by exact Nat.lt_succ_of_le (t.length_behindNames_le ts)

/-- The token heads no node. -/
def IsSilent (t : Token) : Prop :=
  t.kind ∉ [.integer, .identifier, .leftBrace, .funWord, .varWord, .whileWord, .ifWord, .returnWord]

theorem headings_of_isSilent {t : Token} (silent : t.IsSilent) (ts : List Token) :
    headings (t :: ts) = headings ts := by
  have none : t.heading? ts = none ∧ t.behindNames ts = ts := by
    unfold IsSilent at silent
    unfold heading? behindNames
    cases kind : t.kind <;> simp_all
  rw [headings, none.1, none.2]
  rfl

end Token

/-- The kind and the line of the node, if a token heads it. A program is headed by none, nor are an
operator and an expression statement. -/
def Node.heading? : Node → Option (NodeKind × Nat)
  | .program _ => none
  | .block b => some (.block, b.line)
  | .statement (.expression _) => none
  | .statement s => some (s.kind, s.line)
  | .expression (.binary ..) => none
  | .expression e => some (e.kind, e.line)

/-- The operand that the expression starts with. -/
def Expr.leftmost : Expr → Expr
  | .binary _ left _ _ => left.leftmost
  | e => e

namespace Grammar

/-! ## Nodes and tokens -/

/-- Each of the nodes is on the line of one of the tokens, and in the order of the tokens. -/
structure Follow (nodes : List Node) (tokens : List Token) : Prop where
  exists_token : ∀ node ∈ nodes, ∃ t ∈ tokens, node.line = t.line
  ordered : tokens.Pairwise (·.line ≤ ·.line) → nodes.Pairwise (·.line ≤ ·.line)

/-- The nodes are those that the tokens in front of `rest` head, and nodes on the lines of these. -/
structure Traced (ts : List Token) (nodes : List Node) (rest : List Token) : Prop where
  headings : Token.headings ts = nodes.filterMap Node.heading? ++ Token.headings rest
  joined : ∀ op left right line, .expression (.binary op left right line) ∈ nodes →
    line = left.line ∧ line = left.leftmost.line
  follow : ∃ own, ts = own ++ rest ∧ Follow nodes own

namespace Follow

variable {nodes nodes' : List Node} {own own' : List Token}

theorem nil (own : List Token) : Follow [] own :=
  ⟨nofun, fun _ => .nil⟩

theorem append (h : Follow nodes own) (h' : Follow nodes' own') :
    Follow (nodes ++ nodes') (own ++ own') := by
  refine ⟨fun node mem => ?_, fun sorted => ?_⟩
  · obtain mem | mem := List.mem_append.mp mem
    · obtain ⟨t, inside, same⟩ := h.exists_token node mem
      exact ⟨t, List.mem_append_left _ inside, same⟩
    · obtain ⟨t, inside, same⟩ := h'.exists_token node mem
      exact ⟨t, List.mem_append_right _ inside, same⟩
  · obtain ⟨left, right, across⟩ := List.pairwise_append.mp sorted
    refine List.pairwise_append.mpr ⟨h.ordered left, h'.ordered right, ?_⟩
    intro node mem node' mem'
    obtain ⟨t, inside, same⟩ := h.exists_token node mem
    obtain ⟨t', inside', same'⟩ := h'.exists_token node' mem'
    rw [same, same']
    exact across t inside t' inside'

/-- A node on the line of the first token comes before all others. -/
theorem head {t : Token} {node : Node} (same : node.line = t.line) (h : Follow nodes (t :: own)) :
    Follow (node :: nodes) (t :: own) := by
  have first : ∃ t' ∈ t :: own, node.line = t'.line := ⟨t, List.mem_cons_self, same⟩
  refine ⟨List.forall_mem_cons.mpr ⟨first, h.exists_token⟩, fun sorted => ?_⟩
  refine .cons (fun node' mem => ?_) (h.ordered sorted)
  obtain ⟨t', inside, same'⟩ := h.exists_token node' mem
  rw [same, same']
  obtain rfl | later := List.mem_cons.mp inside
  · exact Nat.le_refl _
  · exact List.rel_of_pairwise_cons sorted later

/-- Another node on the line of the first. -/
theorem again {node first : Node} (same : node.line = first.line)
    (h : Follow (first :: nodes) own) : Follow (node :: first :: nodes) own := by
  have also : ∃ t ∈ own, node.line = t.line := by
    rw [same]
    exact h.exists_token first List.mem_cons_self
  refine ⟨List.forall_mem_cons.mpr ⟨also, h.exists_token⟩, fun sorted => ?_⟩
  have tail := h.ordered sorted
  refine .cons (List.forall_mem_cons.mpr ⟨Nat.le_of_eq same, fun node' mem => ?_⟩) tail
  exact same ▸ List.rel_of_pairwise_cons tail mem

end Follow

namespace Traced

variable {ts mid rest : List Token} {nodes nodes' : List Node}

theorem nil (ts : List Token) : Traced ts [] ts :=
  ⟨rfl, nofun, [], rfl, .nil []⟩

theorem append (h : Traced ts nodes mid) (h' : Traced mid nodes' rest) :
    Traced ts (nodes ++ nodes') rest := by
  obtain ⟨own, rfl, follow⟩ := h.follow
  obtain ⟨own', rfl, follow'⟩ := h'.follow
  refine ⟨?_, fun op left right line mem => ?_, own ++ own', by simp, follow.append follow'⟩
  · rw [h.headings, h'.headings, List.filterMap_append, List.append_assoc]
  · obtain mem | mem := List.mem_append.mp mem
    · exact h.joined op left right line mem
    · exact h'.joined op left right line mem

theorem silent {t : Token} (silent : t.IsSilent) (ts : List Token) : Traced (t :: ts) [] ts :=
  ⟨Token.headings_of_isSilent silent ts, nofun, [t], rfl, .nil [t]⟩

theorem behind {t : Token} (h : t.IsSilent) (traced : Traced ts nodes rest) :
    Traced (t :: ts) nodes rest :=
  (silent h ts).append traced

theorem before {t : Token} (traced : Traced ts nodes (t :: rest)) (h : t.IsSilent) :
    Traced ts nodes rest := by
  simpa using traced.append (silent h rest)

theorem silents {skipped : List Token} (all : ∀ t ∈ skipped, t.IsSilent)
    (traced : Traced ts nodes rest) : Traced (skipped ++ ts) nodes rest := by
  induction skipped with
  | nil => exact traced
  | cons t skipped ih =>
    obtain ⟨first, others⟩ := List.forall_mem_cons.mp all
    exact (ih others).behind first

/-- A token heads a node, and names behind it may go with it. Its kind alone decides this for most
tokens. -/
theorem head {t : Token} {kind : TokenKind} {node : Node} (traced : Traced ts nodes rest)
    (is : t.kind = kind) (names : List Token)
    (passed : Token.behindNames ⟨kind, t.lexeme, t.span, t.line⟩ (names ++ ts) = ts := by rfl)
    (heads : Token.heading? ⟨kind, t.lexeme, t.span, t.line⟩ (names ++ ts) = node.heading? :=
      by rfl)
    (headed : node.heading? ≠ none := by exact Option.some_ne_none _)
    (same : node.line = t.line := by rfl) : Traced (t :: (names ++ ts)) (node :: nodes) rest := by
  subst is
  obtain ⟨own, rfl, follow⟩ := traced.follow
  refine ⟨?_, fun op left right line mem => ?_, t :: names ++ own, by simp, ?_⟩
  · obtain ⟨heading, is⟩ := Option.ne_none_iff_exists'.mp headed
    rw [Token.headings, heads, passed, traced.headings, List.filterMap_cons, is]
    rfl
  · obtain rfl | mem := List.mem_cons.mp mem
    · exact absurd rfl headed
    · exact traced.joined op left right line mem
  · exact .head same ((Follow.nil (t :: names)).append follow)

/-- A name heads a variable, a call or an assignment, as the token behind it decides. -/
theorem head_name {t : Token} {kind : NodeKind} {node : Node} (traced : Traced ts nodes rest)
    (is : t.kind = .identifier) (named : Token.nameHeads ts = kind)
    (heading : node.heading? = some (kind, t.line) := by rfl)
    (same : node.line = t.line := by rfl) : Traced (t :: ts) (node :: nodes) rest := by
  subst named
  exact traced.head is [] rfl heading.symm (heading ▸ Option.some_ne_none _) same

/-- A node that no token heads is on the line of the first node that it is made of. -/
theorem again {node first : Node} (unheaded : node.heading? = none) (same : node.line = first.line)
    (left : ∀ op left right line, node = .expression (.binary op left right line) →
      line = left.line ∧ line = left.leftmost.line)
    (traced : Traced ts (first :: nodes) rest) : Traced ts (node :: first :: nodes) rest := by
  obtain ⟨own, rfl, follow⟩ := traced.follow
  refine ⟨?_, fun op l r line mem => ?_, own, rfl, follow.again same⟩
  · rw [traced.headings, List.filterMap_cons_none unheaded]
  · obtain here | later := List.mem_cons.mp mem
    · exact left op l r line here.symm
    · exact traced.joined op l r line later

/-- A brace heads a block on the line of the token behind it. -/
theorem block {o t c : Token} {b : Block} (opens : o.kind = .leftBrace) (same : b.line = t.line)
    (closes : c.kind = .rightBrace) (traced : Traced (t :: ts) nodes (c :: rest)) :
    Traced (o :: t :: ts) (.block b :: nodes) rest := by
  obtain ⟨own, split, follow⟩ := traced.follow
  have inside := traced.before (t := c) (by simp [Token.IsSilent, closes])
  refine ⟨?_, fun op left right line mem => ?_, o :: (own ++ [c]), by simp [split], ?_⟩
  · have heads : o.heading? (t :: ts) = some (.block, t.line) := by
      simp [Token.heading?, opens]
    have passed : o.behindNames (t :: ts) = t :: ts := by simp [Token.behindNames, opens]
    rw [Token.headings, heads, passed, inside.headings, List.filterMap_cons, Node.heading?, same]
    rfl
  · obtain none | mem := List.mem_cons.mp mem
    · cases none
    · exact traced.joined op left right line mem
  · -- the token behind the brace is inside the block, if it does not close it
    obtain ⟨own', first⟩ : ∃ own', own ++ [c] = t :: own' := by
      cases own with
      | nil => exact ⟨[], by rw [(List.cons.inj split).1]; rfl⟩
      | cons t' own => exact ⟨own ++ [c], by rw [(List.cons.inj split).1]; rfl⟩
    have follows : Follow nodes (t :: own') := by
      simpa [first] using follow.append (.nil [c])
    rw [first]
    exact (Follow.nil [o]).append (follows.head same)

end Traced

/-! ## Expressions -/

theorem isSilent_of_kind {t : Token} {kind : TokenKind} (is : t.kind = kind)
    (silent : kind ∉ [.integer, .identifier, .leftBrace, .funWord, .varWord, .whileWord, .ifWord,
      .returnWord] := by decide) : t.IsSilent := by
  rw [Token.IsSilent, is]
  exact silent

theorem isSilent_of_operator {t : Token} {op : BinaryOp} (is : t.kind = op.tokenKind) :
    t.IsSilent :=
  isSilent_of_kind is (by cases op <;> decide)

/-- An expression is walked over from itself on. -/
theorem exists_preorder_eq_cons (e : Expr) : ∃ nodes, e.preorder = .expression e :: nodes :=
  ⟨_, Node.preorder_eq (.expression e)⟩

theorem line_eq_leftmost (e : Expr) (joined : ∀ op left right line,
    .expression (.binary op left right line) ∈ e.preorder →
      line = left.line ∧ line = left.leftmost.line) : e.line = e.leftmost.line := by
  cases e with
  | binary op left right line => exact (joined op left right line List.mem_cons_self).2
  | literal => rfl
  | identifier => rfl
  | call => rfl

mutual

theorem Level.traced {levels ts e rest} (stop : ¬ Starts [.equal] rest) :
    Level levels ts e rest → Traced ts e.preorder rest
  | .operand h => h.traced stop
  | .tighter h => h.traced stop
  | .binary (l := l) (t := t) hl _ hk hr => by
    have no_sign : t.kind ∉ [TokenKind.equal] := by
      simpa [hk] using BinaryOp.tokenKind_ne_equal _
    have left := (hl.traced (not_starts_cons no_sign)).before (isSilent_of_operator hk)
    have both := left.append (hr.traced stop)
    obtain ⟨nodes, first⟩ := exists_preorder_eq_cons l
    rw [Expr.preorder]
    rw [first, List.cons_append] at both ⊢
    refine both.again rfl rfl ?_
    rintro _ _ _ _ ⟨⟩
    exact ⟨rfl, line_eq_leftmost l (hl.traced (not_starts_cons no_sign)).joined⟩

theorem Operand.traced {ts e rest} (stop : ¬ Starts [.equal] rest) :
    Operand ts e rest → Traced ts e.preorder rest
  | .literal hk _ => (Traced.nil rest).head hk []
  | .identifier hk hp => by
    have named : Token.nameHeads rest = .identifier := by
      cases rest with
      | nil => rfl
      | cons t rest =>
        simp only [starts_cons, List.mem_singleton] at hp stop
        rw [Token.nameHeads, if_neg hp, if_neg stop]
    exact (Traced.nil rest).head_name hk named
  | .call hk ho h hc => by
    have arguments := (h.traced (not_starts_cons (hc ▸ by decide))).before (isSilent_of_kind hc)
    exact (arguments.behind (isSilent_of_kind ho)).head_name hk (Token.nameHeads_of_paren ho)
  | .grouping ho h hc =>
    ((h.traced (not_starts_cons (hc ▸ by decide))).before (isSilent_of_kind hc)).behind
      (isSilent_of_kind ho)

theorem Arguments.traced {ts es rest} (stop : ¬ Starts [.equal] rest) :
    Arguments ts es rest → Traced ts (Expr.listPreorder es) rest
  | .none => .nil _
  | .some h => h.traced stop

theorem Expressions.traced {ts es rest} (stop : ¬ Starts [.equal] rest) :
    Expressions ts es rest → Traced ts (Expr.listPreorder es) rest
  | .one h => by
    rw [Expr.listPreorder, Expr.listPreorder, List.append_nil]
    exact h.traced stop
  | .more h hc hs =>
    ((h.traced (not_starts_cons (hc ▸ by decide))).before (isSilent_of_kind hc)).append
      (hs.traced stop)

end

/-! ## Statements -/

theorem condition_traced {ts e rest} :
    Parenthesised (Level BinaryOp.levels) ts e rest → Traced ts e.preorder rest
  | .parentheses ho h hc =>
    ((h.traced (not_starts_cons (hc ▸ by decide))).before (isSilent_of_kind hc)).behind
      (isSilent_of_kind ho)

theorem Names.exists_front {ts ns rest} (h : Names ts ns rest) :
    ∃ front, ts = front ++ rest ∧ ∀ t ∈ front, t.kind ≠ .rightParen := by
  induction h with
  | @one t rest hk => exact ⟨[t], rfl, by simp [hk]⟩
  | @more t c mid ns rest hk hc _ ih =>
    obtain ⟨front, rfl, others⟩ := ih
    exact ⟨t :: c :: front, rfl, by simpa [hk, hc] using others⟩

/-- The parameters of a definition end with the first parenthesis that closes. -/
theorem parameters_front {ts ns rest} (h : Parenthesised Parameters ts ns rest) :
    ∃ front c, ts = front ++ c :: rest ∧ (∀ t ∈ front, t.kind ≠ .rightParen) ∧
      c.kind = .rightParen := by
  obtain ⟨ho, h, hc⟩ := h
  cases h with
  | none => exact ⟨[_], _, rfl, by simp [ho], hc⟩
  | some h =>
    obtain ⟨front, rfl, others⟩ := h.exists_front
    exact ⟨_ :: front, _, rfl, by simpa [ho] using others, hc⟩

mutual

theorem Statement.traced {ts s rest} (stop : ¬ Starts [.equal] rest) :
    Statement ts s rest → Traced ts s.preorder rest
  | .definition (n := n) hk hn hp hb => by
    obtain ⟨front, c, rfl, others, hc⟩ := parameters_front hp
    have names : ∀ t ∈ n :: front, (t.kind != .rightParen) = true := by simpa [hn] using others
    have ends : ¬ (c.kind != .rightParen) = true := by simp [hc]
    rw [Stmt.preorder]
    exact (hb.traced.behind (isSilent_of_kind hc)).head hk (n :: front)
      ((List.dropWhile_append_of_pos names).trans (List.dropWhile_cons_of_neg ends))
  | .declaration (n := n) hk _ => by
    rw [Stmt.preorder]
    exact (Traced.nil rest).head hk [n]
  | .initialised (n := n) hk _ hq h => by
    rw [Stmt.preorder]
    exact ((h.traced stop).behind (isSilent_of_kind hq)).head hk [n]
  | .loop hk hp hb => by
    rw [Stmt.preorder]
    exact ((condition_traced hp).append hb.traced).head hk []
  | .branch hk hp hb => by
    rw [Stmt.preorder]
    exact ((condition_traced hp).append hb.traced).head hk []
  | .alternative hk hp hb hs hb' => by
    rw [Stmt.preorder]
    have bodies := (hb.traced.before (isSilent_of_kind hs)).append hb'.traced
    exact ((condition_traced hp).append bodies).head hk []
  | .returns hk h => by
    rw [Stmt.preorder]
    exact (h.traced stop).head hk []
  | .assignment hk hq h => by
    rw [Stmt.preorder]
    exact ((h.traced stop).behind (isSilent_of_kind hq)).head_name hk (Token.nameHeads_of_equal hq)
  | .expression (e := e) h => by
    obtain ⟨nodes, first⟩ := exists_preorder_eq_cons e
    have inside := h.traced stop
    rw [Stmt.preorder]
    rw [first] at inside ⊢
    exact inside.again rfl rfl nofun

theorem Braced.traced {ts b rest} : Braced ts b rest → Traced ts b.preorder rest
  | .braces ho h hc =>
    (h.traced (.inr (starts_of_kind hc))).block ho rfl hc

theorem Statements.traced {ts ss rest} (ends : BlockEnds rest) :
    Statements ts ss rest → Traced ts (Stmt.listPreorder ss) rest
  | .none => .nil _
  | .some h all hs => by
    have going := not_continues_of_semicolons all (hs.not_starts ends (by decide))
    have first := h.traced fun sign => going (sign.mono (by decide))
    exact first.append (.silents (fun t mem => isSilent_of_kind (all t mem)) (hs.traced ends))

end

/-- A walk over a program goes from line to line as the tokens do. -/
theorem follow_of_file {mark : Token} {ts : List Token} {p : Program} (h : File mark ts p) :
    Token.headings ts = (Stmt.listPreorder p.block.statements).filterMap Node.heading? ∧
    (∀ op left right line, .expression (.binary op left right line) ∈ (Node.program p).preorder →
      line = left.line ∧ line = left.leftmost.line) ∧
    Follow (Node.program p).preorder (ts ++ [mark]) := by
  obtain ⟨h⟩ := h
  have traced := h.traced (.inl rfl)
  obtain ⟨own, same, follow⟩ := traced.follow
  rw [List.append_nil] at same
  subst same
  refine ⟨?_, fun op left right line mem => ?_, ?_⟩
  · rw [traced.headings, Token.headings, List.append_nil]
  · exact traced.joined op left right line (by simpa [Node.preorder, Block.preorder] using mem)
  · obtain ⟨more, first⟩ : ∃ more, ts ++ [mark] = ts.head?.getD mark :: more := by
      cases ts with
      | nil => exact ⟨[], rfl⟩
      | cons t ts => exact ⟨ts ++ [mark], rfl⟩
    have all := follow.append (.nil [mark])
    rw [List.append_nil, first] at all
    rw [first]
    exact (all.head rfl).head rfl

end Grammar

open Grammar

/-- Every node is on the line of its token. A program and its block are on the line of the first
token. A walk over the statements meets what the tokens head, in the order of the tokens: a
definition, a declaration, a loop, a branch, an assignment and a return statement on the line of
their first token, a literal, a variable and a call on that of their own, and a block in braces on
that of the token behind the opening brace. An operator is on the line of its left operand, and so
on that of the operand that it starts with, whatever parentheses there are.

In a program that a source text makes, a walk over all nodes hence never goes back to an earlier
line. It starts on line 1 or behind, and does not go beyond the line of the end mark. -/
theorem Program.lines_follow_tokens :
    (∀ ts mark junk p, (∀ t ∈ ts, t.kind ≠ .endMark) → ∀ hmark : mark.kind = .endMark,
      ofTokens (ts ++ mark :: junk) (.behind ts hmark junk) = .ok p →
      p.line = (ts.head?.getD mark).line ∧ p.block.line = (ts.head?.getD mark).line ∧
      (Stmt.listPreorder p.block.statements).filterMap Node.heading? = Token.headings ts ∧
      ∀ op left right line, .expression (.binary op left right line) ∈ (Node.program p).preorder →
        line = left.line ∧ line = left.leftmost.line) ∧
    ∀ source p, ofSource source = .ok p →
      ∃ ts mark, Token.scan source = .ok (ts ++ [mark]) ∧ mark.kind = .endMark ∧
        (Node.program p).preorder.Pairwise (·.line ≤ ·.line) ∧
        ∀ node ∈ (Node.program p).preorder, 1 ≤ node.line ∧ node.line ≤ mark.line := by
  constructor
  · intro ts mark junk p hts hmark read
    have file := (ofTokens_eq_ok_iff (Cursor.ofTokens_ahead hts hmark junk)).mp read
    obtain ⟨headings, joined, -⟩ := follow_of_file file
    obtain ⟨-⟩ := file
    exact ⟨rfl, rfl, headings.symm, joined⟩
  · intro source p read
    obtain ⟨tokens, scanned⟩ := exists_scan_of_ofSource read
    obtain ⟨pieces, cuts, rfl⟩ := Token.scan_eq_ok_iff.mp scanned
    have bounds {t} (mem : t ∈ Piece.tokens .origin pieces) :
        1 ≤ t.line ∧ t.line ≤ 1 + source.toList.count '\n' := by
      have whole := cuts.texts_append
      rw [List.append_nil] at whole
      simpa [whole, Mark.advance, Mark.origin] using Piece.line_bounds mem
    have real : ∀ t ∈ Piece.tokens .origin pieces, t.kind ≠ .endMark :=
      fun t mem => (cuts.token_spec mem).1
    obtain ⟨-, -, follow⟩ := follow_of_file ((ofSource_eq_ok_iff scanned real rfl).mp read)
    refine ⟨_, _, scanned, rfl, follow.ordered ?_, fun node mem => ?_⟩
    · have sorted := Piece.pairwise_lines .origin pieces
      refine List.pairwise_append.mpr ⟨sorted, List.pairwise_singleton .., ?_⟩
      rintro t mem _ (_ | ⟨_, ⟨⟩⟩)
      exact (bounds mem).2
    · obtain ⟨t, inside, same⟩ := follow.exists_token node mem
      rw [same]
      obtain earlier | rfl := List.mem_append.mp inside |>.imp_right List.mem_singleton.mp
      · exact bounds earlier
      · exact ⟨Nat.le_add_right .., Nat.le_refl _⟩

/-- An empty body and an operator behind parentheses, scattered over six lines. -/
def Grammar.scatteredTokens : List Token :=
  [⟨.funWord, "fun", ⟨0, 3⟩, 1⟩, ⟨.identifier, "f", ⟨4, 5⟩, 1⟩, ⟨.leftParen, "(", ⟨5, 6⟩, 1⟩,
    ⟨.rightParen, ")", ⟨6, 7⟩, 1⟩, ⟨.leftBrace, "\x7b", ⟨8, 9⟩, 2⟩,
    ⟨.rightBrace, "\x7d", ⟨10, 11⟩, 3⟩, ⟨.leftParen, "(", ⟨12, 13⟩, 4⟩,
    ⟨.integer, "1", ⟨14, 15⟩, 5⟩, ⟨.rightParen, ")", ⟨15, 16⟩, 5⟩, ⟨.minus, "-", ⟨17, 18⟩, 6⟩,
    ⟨.integer, "2", ⟨18, 19⟩, 6⟩]

theorem Program.lines_follow_tokens_of_scattered :
    let mark : Token := ⟨.endMark, "", ⟨19, 20⟩, 6⟩
    let difference : Expr := .binary .subtract (.literal 1 5) (.literal 2 6) 5
    let p : Program := ⟨⟨[.definition "f" [] ⟨[], 3⟩ 1, .expression difference], 1⟩, 1⟩
    (ofTokens (scatteredTokens ++ [mark]) (.behind scatteredTokens rfl []) = .ok p ∧
      Token.headings scatteredTokens =
        [(.definition, 1), (.block, 3), (.literal, 5), (.literal, 6)] ∧
      difference.line = difference.leftmost.line) ∧
    ofSource "fun f()\n\x7b\n\x7d\n(\n1)\n-2" = .ok p ∧
      (Node.program p).preorder.Pairwise (·.line ≤ ·.line) := by
  intro mark difference p
  have real : ∀ t ∈ scatteredTokens, t.kind ≠ .endMark := by decide
  have file : File mark scatteredTokens p := by
    -- subtraction is on the fifth of the six levels
    have minuend : Level (BinaryOp.levels.drop 4) (scatteredTokens.drop 6) (.literal 1 5)
        (scatteredTokens.drop 9) :=
      Operand.level (.grouping rfl (Operand.level (.literal rfl (by decide)) _) rfl) _
    have subtrahend : Level (BinaryOp.levels.drop 5) (scatteredTokens.drop 10) (.literal 2 6) [] :=
      Operand.level (.literal rfl (by decide)) _
    have whole : Level BinaryOp.levels (scatteredTokens.drop 6) difference [] :=
      .tighter (.tighter (.tighter (.tighter (.binary minuend (by decide) rfl subtrahend))))
    have definition : Statement scatteredTokens (.definition "f" [] ⟨[], 3⟩ 1)
        ([] ++ scatteredTokens.drop 6) :=
      .definition rfl rfl (.parentheses rfl .none rfl) (.braces rfl .none rfl)
    have expression : Statement (scatteredTokens.drop 6) (.expression difference) ([] ++ []) :=
      .expression whole
    exact .statements (.some definition nofun (.some expression nofun .none))
  have read : ofTokens (scatteredTokens ++ [mark]) (.behind scatteredTokens rfl []) = .ok p :=
    (ofTokens_eq_ok_iff (Cursor.ofTokens_ahead real rfl [])).mpr file
  have scanned : Token.scan "fun f()\n\x7b\n\x7d\n(\n1)\n-2" = .ok (scatteredTokens ++ [mark]) := by
    decide +kernel
  have parsed : ofSource "fun f()\n\x7b\n\x7d\n(\n1)\n-2" = .ok p := by
    rw [ofSource_eq_ofTokens scanned]
    exact read
  obtain ⟨tokens, sources⟩ := lines_follow_tokens
  obtain ⟨-, -, headings, joined⟩ := tokens _ mark [] p real rfl read
  obtain ⟨_, _, -, -, ordered, -⟩ := sources _ p parsed
  have inside : .expression difference ∈ (Node.program p).preorder := by
    simp [p, difference, Node.preorder, Block.preorder, Stmt.listPreorder, Stmt.preorder,
      Expr.preorder]
  have listed : (Stmt.listPreorder p.block.statements).filterMap Node.heading? =
      [(.definition, 1), (.block, 3), (.literal, 5), (.literal, 6)] := by decide +kernel
  exact ⟨⟨read, headings.symm.trans listed, (joined _ _ _ _ inside).2⟩, parsed, ordered⟩

end FunLanguage
