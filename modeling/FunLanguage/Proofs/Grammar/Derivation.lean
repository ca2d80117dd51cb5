import FunLanguage.Grammar.Program

/-!
# The grammar

`Derives` is the grammar as it is written down: a rule for each production, on kinds of token. It is
ambiguous, as statements need nothing between them. Next to it stand relations with the trees, in
which `rest` are the tokens behind the ones that make the tree. They have one more condition than
the grammar: no parenthesis follows an identifier that is a variable. So an identifier in front of a
parenthesis is always a call, and what has a tree is derivable (`Statements.derives`).
-/

namespace FunLanguage

/-- The token of an operator is no integer. -/
theorem BinaryOp.tokenKind_ne_integer (op : BinaryOp) : op.tokenKind ≠ .integer := by
  cases op <;> decide

namespace Grammar

/-! ## Productions -/

/-- The symbols of the grammar that stand for sequences of tokens. -/
inductive Symbol where
  | file
  | block
  | braced
  | statement
  | parameters
  | names
  /-- Expressions made with the operators of the levels, the loosest first. -/
  | level (levels : List (List BinaryOp))
  | primary
  | arguments
  | expressions

/-- An expression is made with the operators of all levels. -/
abbrev Symbol.expression : Symbol :=
  .level BinaryOp.levels

open TokenKind in
/-- The kinds of token that can be derived from a symbol. -/
inductive Derives : Symbol → List TokenKind → Prop
  | file {b} : Derives .block b → Derives .file (b ++ [endMark])
  | noStatement : Derives .block []
  | statements {s b} (semicolons : Nat) : Derives .statement s → Derives .block b →
      Derives .block (s ++ (List.replicate semicolons semicolon ++ b))
  | braced {b} : Derives .block b → Derives .braced (leftBrace :: (b ++ [rightBrace]))
  | definition {ps b} : Derives .parameters ps → Derives .braced b →
      Derives .statement (funWord :: identifier :: leftParen :: (ps ++ rightParen :: b))
  | declaration : Derives .statement [varWord, identifier]
  | initialised {e} : Derives .expression e →
      Derives .statement (varWord :: identifier :: equal :: e)
  | loop {e b} : Derives .expression e → Derives .braced b →
      Derives .statement (whileWord :: leftParen :: (e ++ rightParen :: b))
  | branch {e b} : Derives .expression e → Derives .braced b →
      Derives .statement (ifWord :: leftParen :: (e ++ rightParen :: b))
  | alternative {e b b'} : Derives .expression e → Derives .braced b → Derives .braced b' →
      Derives .statement (ifWord :: leftParen :: (e ++ rightParen :: (b ++ elseWord :: b')))
  | returns {e} : Derives .expression e → Derives .statement (returnWord :: e)
  | assignment {e} : Derives .expression e → Derives .statement (identifier :: equal :: e)
  | expression {e} : Derives .expression e → Derives .statement e
  | noParameter : Derives .parameters []
  | parameters {ns} : Derives .names ns → Derives .parameters ns
  | name : Derives .names [identifier]
  | names {ns} : Derives .names ns → Derives .names (identifier :: comma :: ns)
  | primary {p} : Derives .primary p → Derives (.level []) p
  | tighter {operators tighter e} : Derives (.level tighter) e →
      Derives (.level (operators :: tighter)) e
  | binary {operators tighter l r op} : op ∈ operators → Derives (.level (operators :: tighter)) l →
      Derives (.level tighter) r → Derives (.level (operators :: tighter)) (l ++ op.tokenKind :: r)
  | literal : Derives .primary [integer]
  | identifier : Derives .primary [identifier]
  | call {es} : Derives .arguments es →
      Derives .primary (identifier :: leftParen :: (es ++ [rightParen]))
  | grouping {e} : Derives .expression e → Derives .primary (leftParen :: (e ++ [rightParen]))
  | noArgument : Derives .arguments []
  | arguments {es} : Derives .expressions es → Derives .arguments es
  | argument {e} : Derives .expression e → Derives .expressions e
  | expressions {e es} : Derives .expression e → Derives .expressions es →
      Derives .expressions (e ++ comma :: es)

/-! ## Trees -/

/-- Whether there is a next token, which is of one of the kinds. -/
def Starts (kinds : List TokenKind) (tokens : List Token) : Prop :=
  ∃ t ts, tokens = t :: ts ∧ t.kind ∈ kinds

mutual

/-- The expression that the tokens in front of `rest` make with the operators of the levels. -/
inductive Level : List (List BinaryOp) → List Token → Expr → List Token → Prop
  | operand {ts e rest} : Operand ts e rest → Level [] ts e rest
  | tighter {operators tighter ts e rest} : Level tighter ts e rest →
      Level (operators :: tighter) ts e rest
  | binary {operators tighter op t ts l mid r rest} :
      Level (operators :: tighter) ts l (t :: mid) → op ∈ operators → t.kind = op.tokenKind →
      Level tighter mid r rest → Level (operators :: tighter) ts (.binary op l r l.line) rest

/-- The operand that the tokens in front of `rest` make. -/
inductive Operand : List Token → Expr → List Token → Prop
  | literal {t value rest} : t.kind = .integer → Text.int32? t.lexeme.toList = some value →
      Operand (t :: rest) (.literal value t.line) rest
  | identifier {t rest} : t.kind = .identifier → ¬ Starts [.leftParen] rest →
      Operand (t :: rest) (.identifier t.lexeme t.line) rest
  | call {t o c ts es rest} : t.kind = .identifier → o.kind = .leftParen →
      Arguments ts es (c :: rest) → c.kind = .rightParen →
      Operand (t :: o :: ts) (.call t.lexeme es t.line) rest
  | grouping {o c ts e rest} : o.kind = .leftParen → Level BinaryOp.levels ts e (c :: rest) →
      c.kind = .rightParen → Operand (o :: ts) e rest

/-- The arguments that the tokens in front of `rest` make. -/
inductive Arguments : List Token → List Expr → List Token → Prop
  | none {ts} : Arguments ts [] ts
  | some {ts es rest} : Expressions ts es rest → Arguments ts es rest

/-- One or more expressions, with commas between them. -/
inductive Expressions : List Token → List Expr → List Token → Prop
  | one {ts e rest} : Level BinaryOp.levels ts e rest → Expressions ts [e] rest
  | more {ts e c mid es rest} : Level BinaryOp.levels ts e (c :: mid) → c.kind = .comma →
      Expressions mid es rest → Expressions ts (e :: es) rest

end

/-- Induction over the operators of an expression, down to its operands. -/
theorem Level.induction
    {motive : ∀ levels ts e rest, Level levels ts e rest → Prop}
    (operand : ∀ {ts e rest} (h : Operand ts e rest), motive [] ts e rest (.operand h))
    (tighter : ∀ {operators tighter ts e rest} (h : Level tighter ts e rest),
      motive tighter ts e rest h → motive (operators :: tighter) ts e rest (.tighter h))
    (binary : ∀ {operators tighter op t ts l mid r rest}
      (hl : Level (operators :: tighter) ts l (t :: mid)) (hm : op ∈ operators)
      (hk : t.kind = op.tokenKind) (hr : Level tighter mid r rest),
      motive (operators :: tighter) ts l (t :: mid) hl → motive tighter mid r rest hr →
      motive (operators :: tighter) ts (.binary op l r l.line) rest (.binary hl hm hk hr))
    {levels ts e rest} (h : Level levels ts e rest) : motive levels ts e rest h :=
  @Level.rec motive (fun _ _ _ _ => True) (fun _ _ _ _ => True) (fun _ _ _ _ => True)
    (fun h _ => operand h) (fun h => tighter h) (fun hl hm hk hr => binary hl hm hk hr)
    (fun _ _ => trivial) (fun _ _ => trivial) (fun _ _ _ _ _ => trivial)
    (fun _ _ _ _ => trivial) trivial (fun _ _ => trivial) (fun _ _ => trivial)
    (fun _ _ _ _ _ => trivial) _ _ _ _ h

/-- One or more names, with commas between them. -/
inductive Names : List Token → List String → List Token → Prop
  | one {t rest} : t.kind = .identifier → Names (t :: rest) [t.lexeme] rest
  | more {t c mid ns rest} : t.kind = .identifier → c.kind = .comma → Names mid ns rest →
      Names (t :: c :: mid) (t.lexeme :: ns) rest

/-- The parameters that the tokens in front of `rest` make. -/
inductive Parameters : List Token → List String → List Token → Prop
  | none {ts} : Parameters ts [] ts
  | some {ts ns rest} : Names ts ns rest → Parameters ts ns rest

/-- A tree with parentheses around its tokens. -/
inductive Parenthesised {α : Type} (tree : List Token → α → List Token → Prop) :
    List Token → α → List Token → Prop
  | parentheses {o c ts a rest} : o.kind = .leftParen → tree ts a (c :: rest) →
      c.kind = .rightParen → Parenthesised tree (o :: ts) a rest

mutual

/-- The statement that the tokens in front of `rest` make. -/
inductive Statement : List Token → Stmt → List Token → Prop
  | definition {t n ts ns mid body rest} : t.kind = .funWord → n.kind = .identifier →
      Parenthesised Parameters ts ns mid → Braced mid body rest →
      Statement (t :: n :: ts) (.definition n.lexeme ns body t.line) rest
  | declaration {t n rest} : t.kind = .varWord → n.kind = .identifier →
      Statement (t :: n :: rest) (.declaration n.lexeme none t.line) rest
  | initialised {t n q ts e rest} : t.kind = .varWord → n.kind = .identifier → q.kind = .equal →
      Level BinaryOp.levels ts e rest →
      Statement (t :: n :: q :: ts) (.declaration n.lexeme (some e) t.line) rest
  | loop {t ts e mid body rest} : t.kind = .whileWord →
      Parenthesised (Level BinaryOp.levels) ts e mid → Braced mid body rest →
      Statement (t :: ts) (.loop e body t.line) rest
  | branch {t ts e mid body rest} : t.kind = .ifWord →
      Parenthesised (Level BinaryOp.levels) ts e mid → Braced mid body rest →
      Statement (t :: ts) (.branch e body none t.line) rest
  | alternative {t s ts e mid body mid' otherwise rest} : t.kind = .ifWord →
      Parenthesised (Level BinaryOp.levels) ts e mid → Braced mid body (s :: mid') →
      s.kind = .elseWord → Braced mid' otherwise rest →
      Statement (t :: ts) (.branch e body (some otherwise) t.line) rest
  | returns {t ts e rest} : t.kind = .returnWord → Level BinaryOp.levels ts e rest →
      Statement (t :: ts) (.returns e t.line) rest
  | assignment {t q ts e rest} : t.kind = .identifier → q.kind = .equal →
      Level BinaryOp.levels ts e rest →
      Statement (t :: q :: ts) (.assignment t.lexeme e t.line) rest
  | expression {ts e rest} : Level BinaryOp.levels ts e rest → Statement ts (.expression e) rest

/-- A block in braces, which is on the line of the token behind the opening brace. -/
inductive Braced : List Token → Block → List Token → Prop
  | braces {o t ts ss c rest} : o.kind = .leftBrace → Statements (t :: ts) ss (c :: rest) →
      c.kind = .rightBrace → Braced (o :: t :: ts) ⟨ss, t.line⟩ rest

/-- Statements, any number of semicolons behind each. -/
inductive Statements : List Token → List Stmt → List Token → Prop
  | none {ts} : Statements ts [] ts
  | some {ts s semicolons mid ss rest} : Statement ts s (semicolons ++ mid) →
      (∀ t ∈ semicolons, t.kind = .semicolon) → Statements mid ss rest →
      Statements ts (s :: ss) rest

end

/-- The program that the tokens in front of an end mark make. -/
inductive File (mark : Token) : List Token → Program → Prop
  | statements {ts ss} : Statements ts ss [] →
      File mark ts ⟨⟨ss, (ts.head?.getD mark).line⟩, (ts.head?.getD mark).line⟩

/-! ## Trees stand for derivations -/

/-- Whether every integer among the tokens has a value. -/
def Readable (tokens : List Token) : Prop :=
  ∀ t ∈ tokens, t.kind = .integer → (Text.int32? t.lexeme.toList).isSome

/-- Whether the tokens in front of `rest` have a derivation from the symbol, and all integers among
them a value. -/
def Matches (symbol : Symbol) (tokens rest : List Token) : Prop :=
  ∃ front, tokens = front ++ rest ∧ Derives symbol (front.map (·.kind)) ∧ Readable front

@[simp] theorem readable_nil : Readable [] := by
  simp [Readable]

@[simp] theorem readable_cons {t : Token} {ts : List Token} : Readable (t :: ts) ↔
    (t.kind = .integer → (Text.int32? t.lexeme.toList).isSome) ∧ Readable ts := by
  simp [Readable]

@[simp] theorem readable_append {as bs : List Token} :
    Readable (as ++ bs) ↔ Readable as ∧ Readable bs := by
  simp [Readable, or_imp, forall_and]

theorem readable_of_kind {ts : List Token} {kind : TokenKind} (h : ∀ t ∈ ts, t.kind = kind)
    (hk : kind ≠ .integer) : Readable ts :=
  fun t ht hi => absurd ((h t ht).symm.trans hi) hk

mutual

theorem Level.derives {levels ts e rest} : Level levels ts e rest → Matches (.level levels) ts rest
  | .operand h => by
    obtain ⟨front, rfl, hd, hr⟩ := h.derives
    exact ⟨front, rfl, .primary hd, hr⟩
  | .tighter h => by
    obtain ⟨front, rfl, hd, hr⟩ := h.derives
    exact ⟨front, rfl, .tighter hd, hr⟩
  | .binary (t := t) hl hm hk hr => by
    obtain ⟨left, rfl, hdl, hrl⟩ := hl.derives
    obtain ⟨right, rfl, hdr, hrr⟩ := hr.derives
    have hi : t.kind ≠ .integer := hk ▸ BinaryOp.tokenKind_ne_integer _
    refine ⟨left ++ t :: right, by simp, ?_, by simp [hrl, hrr, hi]⟩
    simpa [hk] using Derives.binary hm hdl hdr

theorem Operand.derives {ts e rest} : Operand ts e rest → Matches .primary ts rest
  | .literal (t := t) hk hv => ⟨[t], rfl, by simpa [hk] using Derives.literal, by simp [hv]⟩
  | .identifier (t := t) hk _ => ⟨[t], rfl, by simpa [hk] using Derives.identifier, by simp [hk]⟩
  | .call (t := t) (o := o) (c := c) hk ho h hc => by
    obtain ⟨front, rfl, hd, hr⟩ := h.derives
    refine ⟨t :: o :: (front ++ [c]), by simp, ?_, by simp [*]⟩
    simpa [hk, ho, hc] using Derives.call hd
  | .grouping (o := o) (c := c) ho h hc => by
    obtain ⟨front, rfl, hd, hr⟩ := h.derives
    refine ⟨o :: (front ++ [c]), by simp, ?_, by simp [*]⟩
    simpa [ho, hc] using Derives.grouping hd

theorem Arguments.derives {ts es rest} : Arguments ts es rest → Matches .arguments ts rest
  | .none => ⟨[], rfl, .noArgument, readable_nil⟩
  | .some h => by
    obtain ⟨front, rfl, hd, hr⟩ := h.derives
    exact ⟨front, rfl, .arguments hd, hr⟩

theorem Expressions.derives {ts es rest} : Expressions ts es rest → Matches .expressions ts rest
  | .one h => by
    obtain ⟨front, rfl, hd, hr⟩ := h.derives
    exact ⟨front, rfl, .argument hd, hr⟩
  | .more (c := c) h hc hs => by
    obtain ⟨first, rfl, hdf, hrf⟩ := h.derives
    obtain ⟨others, rfl, hdo, hro⟩ := hs.derives
    refine ⟨first ++ c :: others, by simp, ?_, by simp [*]⟩
    simpa [hc] using Derives.expressions hdf hdo

end

theorem Names.derives {ts ns rest} (h : Names ts ns rest) : Matches .names ts rest := by
  induction h with
  | @one t _ hk => exact ⟨[t], rfl, by simpa [hk] using Derives.name, by simp [hk]⟩
  | @more t c _ _ _ hk hc _ ih =>
    obtain ⟨front, rfl, hd, hr⟩ := ih
    exact ⟨t :: c :: front, rfl, by simpa [hk, hc] using Derives.names hd, by simp [*]⟩

theorem Parameters.derives {ts ns rest} (h : Parameters ts ns rest) :
    Matches .parameters ts rest := by
  cases h with
  | none => exact ⟨[], rfl, .noParameter, readable_nil⟩
  | some h =>
    obtain ⟨front, rfl, hd, hr⟩ := h.derives
    exact ⟨front, rfl, .parameters hd, hr⟩

theorem Parenthesised.derives {α : Type} {tree : List Token → α → List Token → Prop}
    {symbol : Symbol} (hm : ∀ {ts a rest}, tree ts a rest → Matches symbol ts rest) {ts a rest}
    (h : Parenthesised tree ts a rest) :
    ∃ o front c, ts = o :: (front ++ c :: rest) ∧ o.kind = .leftParen ∧ c.kind = .rightParen ∧
      Derives symbol (front.map (·.kind)) ∧ Readable front := by
  cases h with
  | @parentheses o c _ _ _ ho h hc =>
    obtain ⟨front, rfl, hd, hr⟩ := hm h
    exact ⟨o, front, c, rfl, ho, hc, hd, hr⟩

mutual

theorem Statement.derives {ts s rest} : Statement ts s rest → Matches .statement ts rest
  | .definition (t := t) (n := n) ht hn hps hb => by
    obtain ⟨o, ps, c, rfl, ho, hc, hdp, hrp⟩ := hps.derives Parameters.derives
    obtain ⟨body, rfl, hdb, hrb⟩ := hb.derives
    refine ⟨t :: n :: o :: (ps ++ c :: body), by simp, ?_, by simp [*]⟩
    simpa [ht, hn, ho, hc] using Derives.definition hdp hdb
  | .declaration (t := t) (n := n) ht hn =>
    ⟨[t, n], rfl, by simpa [ht, hn] using Derives.declaration, by simp [*]⟩
  | .initialised (t := t) (n := n) (q := q) ht hn hq h => by
    obtain ⟨front, rfl, hd, hr⟩ := h.derives
    exact ⟨t :: n :: q :: front, rfl, by simpa [ht, hn, hq] using Derives.initialised hd,
      by simp [*]⟩
  | .loop (t := t) ht hc hb => by
    obtain ⟨o, e, c, rfl, ho, hcl, hde, hre⟩ := hc.derives Level.derives
    obtain ⟨body, rfl, hdb, hrb⟩ := hb.derives
    refine ⟨t :: o :: (e ++ c :: body), by simp, ?_, by simp [*]⟩
    simpa [ht, ho, hcl] using Derives.loop hde hdb
  | .branch (t := t) ht hc hb => by
    obtain ⟨o, e, c, rfl, ho, hcl, hde, hre⟩ := hc.derives Level.derives
    obtain ⟨body, rfl, hdb, hrb⟩ := hb.derives
    refine ⟨t :: o :: (e ++ c :: body), by simp, ?_, by simp [*]⟩
    simpa [ht, ho, hcl] using Derives.branch hde hdb
  | .alternative (t := t) (s := s) ht hc hb hs hb' => by
    obtain ⟨o, e, c, rfl, ho, hcl, hde, hre⟩ := hc.derives Level.derives
    obtain ⟨body, rfl, hdb, hrb⟩ := hb.derives
    obtain ⟨otherwise, rfl, hdo, hro⟩ := hb'.derives
    refine ⟨t :: o :: (e ++ c :: (body ++ s :: otherwise)), by simp, ?_, by simp [*]⟩
    simpa [ht, ho, hcl, hs] using Derives.alternative hde hdb hdo
  | .returns (t := t) ht h => by
    obtain ⟨front, rfl, hd, hr⟩ := h.derives
    exact ⟨t :: front, rfl, by simpa [ht] using Derives.returns hd, by simp [*]⟩
  | .assignment (t := t) (q := q) ht hq h => by
    obtain ⟨front, rfl, hd, hr⟩ := h.derives
    exact ⟨t :: q :: front, rfl, by simpa [ht, hq] using Derives.assignment hd, by simp [*]⟩
  | .expression h => by
    obtain ⟨front, rfl, hd, hr⟩ := h.derives
    exact ⟨front, rfl, .expression hd, hr⟩

theorem Braced.derives {ts b rest} : Braced ts b rest → Matches .braced ts rest
  | .braces (o := o) (c := c) ho h hc => by
    obtain ⟨front, hts, hd, hr⟩ := h.derives
    refine ⟨o :: (front ++ [c]), by simp [hts], ?_, by simp [*]⟩
    simpa [ho, hc] using Derives.braced hd

theorem Statements.derives {ts ss rest} : Statements ts ss rest → Matches .block ts rest
  | .none => ⟨[], rfl, .noStatement, readable_nil⟩
  | @Statements.some _ _ semicolons _ _ _ h hsemi hs => by
    obtain ⟨first, rfl, hdf, hrf⟩ := h.derives
    obtain ⟨others, rfl, hdo, hro⟩ := hs.derives
    have hkinds : semicolons.map (·.kind) = List.replicate semicolons.length .semicolon := by
      rw [List.eq_replicate_iff]
      simpa using hsemi
    have hrs : Readable semicolons := readable_of_kind hsemi (by decide)
    refine ⟨first ++ (semicolons ++ others), by simp, ?_, by simp [*]⟩
    simpa [hkinds] using Derives.statements semicolons.length hdf hdo

end

end Grammar

end FunLanguage
