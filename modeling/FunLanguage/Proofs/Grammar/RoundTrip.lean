import FunLanguage.Proofs.Grammar.Acceptance
import FunLanguage.Proofs.Grammar.Lexemes

/-!
# Parsing undoes printing

The lexemes that a tree is printed as are scanned one by one, and the tokens that they make have a
tree that is the printed one but for its lines (`Expr.Written.level`, `Stmt.Written.statement`). By
`Program.ofTokens_accepts_grammar` that tree is what is read, so every text that a program may be
printed as is accepted and gives the program back (`Program.parsing_undoes_printing`).
-/

namespace FunLanguage

open Grammar

/-! ## Trees are printed as lexemes -/

/-- Whether each of the texts is a lexeme of some kind. -/
def Lexical (ls : List String) : Prop :=
  ∀ l ∈ ls, ∃ kind, IsLexeme l kind

theorem lexical_nil : Lexical [] := by
  simp [Lexical]

theorem IsLexeme.cons {l : String} {kind : TokenKind} {ls : List String} (h : IsLexeme l kind)
    (hls : Lexical ls) : Lexical (l :: ls) :=
  List.forall_mem_cons.2 ⟨⟨kind, h⟩, hls⟩

theorem Lexical.fixed {l : String} {kind : TokenKind} {ls : List String}
    (h : TokenKind.ofFixed? l = some kind) (hls : Lexical ls) : Lexical (l :: ls) :=
  (IsLexeme.fixed h).cons hls

theorem Lexical.append {as bs : List String} (ha : Lexical as) (hb : Lexical bs) :
    Lexical (as ++ bs) :=
  List.forall_mem_append.2 ⟨ha, hb⟩

theorem Lexical.parentheses {as bs : List String} (ha : Lexical as) (hb : Lexical bs) :
    Lexical ("(" :: (as ++ ")" :: bs)) :=
  .fixed rfl (ha.append (.fixed rfl hb))

theorem lexical_intersperse :
    ∀ {names : List String}, (∀ name ∈ names, IsName name) → Lexical (names.intersperse ",")
  | [], _ => lexical_nil
  | [_], h => (List.forall_mem_singleton.1 h).isLexeme.cons lexical_nil
  | _ :: _ :: _, h =>
    have h := List.forall_mem_cons.1 h
    h.1.isLexeme.cons (.fixed rfl (lexical_intersperse h.2))

mutual

theorem Expr.Written.lexical {n e ls} : Expr.Written n e ls → e.Printable → Lexical ls
  | .literal, hp => (isLexeme_ofInt32 hp).cons lexical_nil
  | .identifier, hp => IsLexeme.cons hp.isLexeme lexical_nil
  | .call hes, hp => hp.1.isLexeme.cons ((hes.lexical hp.2).parentheses lexical_nil)
  | .binary _ ha hb, hp =>
    (ha.lexical hp.1).append ((BinaryOp.isLexeme_symbol _).cons (hb.lexical hp.2))
  | .parentheses h, hp => (h.lexical hp).parentheses lexical_nil

theorem Expr.ArgumentsWritten.lexical {es ls} :
    Expr.ArgumentsWritten es ls → Expr.ListPrintable es → Lexical ls
  | .none, _ => lexical_nil
  | .one h, hp => h.lexical hp.1
  | .more h hes, hp => (h.lexical hp.1).append (.fixed rfl (hes.lexical hp.2))

end

mutual

theorem Stmt.Written.lexical {s ls} : Stmt.Written s ls → s.Printable → Lexical ls
  | .expression h, hp => Expr.Written.lexical h hp
  | .definition hb, hp =>
    .fixed rfl
      (hp.1.isLexeme.cons ((lexical_intersperse hp.2.1).parentheses (hb.lexical hp.2.2)))
  | .declaration, hp => .fixed rfl (hp.1.isLexeme.cons lexical_nil)
  | .initialised h, hp =>
    .fixed rfl (hp.1.isLexeme.cons (.fixed rfl (h.lexical (hp.2 _ rfl))))
  | .loop h hb, hp => .fixed rfl ((h.lexical hp.1).parentheses (hb.lexical hp.2))
  | .branch h hb, hp => .fixed rfl ((h.lexical hp.1).parentheses (hb.lexical hp.2))
  | .alternative h hb ho, hp =>
    .fixed rfl ((h.lexical hp.1).parentheses
      ((hb.lexical hp.2.1).append (.fixed rfl (ho.lexical hp.2.2))))
  | .assignment h, hp => hp.1.isLexeme.cons (.fixed rfl (h.lexical hp.2))
  | .returns h, hp => .fixed rfl (Expr.Written.lexical h hp)

theorem Block.Written.lexical {b ls} : Block.Written b ls → b.Printable → Lexical ls
  | .braces h, hp =>
    .fixed rfl ((h.lexical hp).append (.fixed rfl lexical_nil))

theorem Stmt.ListWritten.lexical {ss ls} :
    Stmt.ListWritten ss ls → Stmt.ListPrintable ss → Lexical ls
  | .none, _ => lexical_nil
  | .some h hss, hp => (h.lexical hp.1).append (.fixed rfl (hss.lexical hp.2))

end

/-! ## Tokens of lexemes -/

namespace Spelled

variable {l : String} {as bs ls : List String} {kind : TokenKind} {ts rest : List Token}

/-- The first token is of the kind of the first lexeme. -/
theorem uncons (h : Spelled (l :: ls) ts rest) (hl : IsLexeme l kind) :
    ∃ t mid, ts = t :: mid ∧ t.lexeme = l ∧ t.kind = kind ∧ Spelled ls mid rest := by
  obtain ⟨t, mid, rfl, rfl, hk, h⟩ := h
  exact ⟨t, mid, rfl, rfl, hk.kind_unique hl, h⟩

/-- Tokens in parentheses. -/
theorem parentheses (h : Spelled ("(" :: (as ++ ")" :: bs)) ts rest) :
    ∃ o inner c mid, ts = o :: inner ∧ o.kind = .leftParen ∧ Spelled as inner (c :: mid) ∧
      c.kind = .rightParen ∧ Spelled bs mid rest := by
  obtain ⟨o, inner, rfl, -, ho, h⟩ := h.uncons (.fixed rfl)
  obtain ⟨_, ha, h⟩ := spelled_append.1 h
  obtain ⟨c, mid, rfl, -, hc, hb⟩ := h.uncons (.fixed rfl)
  exact ⟨o, inner, c, mid, rfl, ho, ha, hc, hb⟩

/-- There is a token in front of a token. -/
theorem exists_cons {c : Token} (h : Spelled ls ts (c :: rest)) : ∃ t mid, ts = t :: mid := by
  cases ls with
  | nil => exact ⟨c, rest, h⟩
  | cons l ls =>
    obtain ⟨t, mid, rfl, -⟩ := h
    exact ⟨t, mid, rfl⟩

end Spelled

/-! ## Expressions -/

/-- The operators of a level are those of its precedence. -/
theorem BinaryOp.drop_precedence (op : BinaryOp) :
    ∃ operators, levels.drop op.precedence = operators :: levels.drop (op.precedence + 1) ∧
      op ∈ operators := by
  cases op <;> exact ⟨_, rfl, by decide⟩

/-- What is made with the operators of tighter levels is made with those of all levels. -/
theorem Grammar.Level.of_suffix {tighter levels : List (List BinaryOp)} {ts e rest}
    (h : Level tighter ts e rest) (hs : tighter <:+ levels) : Level levels ts e rest := by
  obtain ⟨looser, rfl⟩ := hs
  induction looser with
  | nil => exact h
  | cons operators looser ih => exact .tighter ih

theorem BinaryOp.tokenKind_ne_leftParen (op : BinaryOp) : op.tokenKind ≠ .leftParen := by
  cases op <;> decide

mutual

/-- The tokens of an expression that no parenthesis follows have a tree that is the expression but
for its lines. -/
theorem Expr.Written.level {n e ls ts rest} : Expr.Written n e ls → e.Printable →
    Spelled ls ts rest → ¬ Starts [.leftParen] rest →
    ∃ e', Level (BinaryOp.levels.drop n) ts e' rest ∧ e'.withoutLines = e.withoutLines
  | .literal, hp, h, _ => by
    obtain ⟨t, mid, rfl, hl, hk, rfl⟩ := h.uncons (isLexeme_ofInt32 hp)
    exact ⟨_, Operand.level (.literal hk (hl ▸ int32?_ofInt32 hp)) _, rfl⟩
  | .identifier, hp, h, hnext => by
    obtain ⟨t, mid, rfl, rfl, hk, rfl⟩ := h.uncons (IsName.isLexeme hp)
    exact ⟨_, Operand.level (.identifier hk hnext) _, rfl⟩
  | .call hes, hp, h, _ => by
    obtain ⟨t, mid, rfl, rfl, hk, h⟩ := h.uncons hp.1.isLexeme
    obtain ⟨o, inner, c, mid, rfl, ho, hin, hc, rfl⟩ := h.parentheses
    obtain ⟨es', hes', heq⟩ := hes.arguments hp.2 hin (not_starts_cons (by simp [hc]))
    exact ⟨_, Operand.level (.call hk ho hes' hc) _, by simp [Expr.withoutLines, heq]⟩
  | @Expr.Written.binary n op a b line as bs hn ha hb, hp, h, hnext => by
    obtain ⟨_, hsa, h⟩ := spelled_append.1 h
    obtain ⟨t, mid, rfl, -, hk, hsb⟩ := h.uncons op.isLexeme_symbol
    have hop : ¬ Starts [.leftParen] (t :: mid) :=
      not_starts_cons (by simp [hk, op.tokenKind_ne_leftParen])
    obtain ⟨a', ha', heqa⟩ := ha.level hp.1 hsa hop
    obtain ⟨b', hb', heqb⟩ := hb.level hp.2 hsb hnext
    -- What is made at the level of the operator may stand wherever looser ones may.
    obtain ⟨operators, hdrop, hmem⟩ := op.drop_precedence
    have hlevel : Level (BinaryOp.levels.drop op.precedence) ts (.binary op a' b' a'.line) rest :=
      hdrop ▸ .binary (hdrop ▸ ha') hmem hk hb'
    exact ⟨_, hlevel.of_suffix (List.drop_suffix_drop_left _ hn),
      by simp [Expr.withoutLines, heqa, heqb]⟩
  | .parentheses he, hp, h, _ => by
    obtain ⟨o, inner, c, mid, rfl, ho, hin, hc, rfl⟩ := h.parentheses
    obtain ⟨e', he', heq⟩ := he.level hp hin (not_starts_cons (by simp [hc]))
    exact ⟨e', Operand.level (.grouping ho he' hc) _, heq⟩

theorem Expr.ArgumentsWritten.arguments {es ls ts rest} : Expr.ArgumentsWritten es ls →
    Expr.ListPrintable es → Spelled ls ts rest → ¬ Starts [.leftParen] rest →
    ∃ es', Arguments ts es' rest ∧ Expr.listWithoutLines es' = Expr.listWithoutLines es
  | .none, _, h, _ => by
    obtain rfl := h
    exact ⟨[], .none, rfl⟩
  | .one he, hp, h, hnext => by
    obtain ⟨e', he', heq⟩ := he.level hp.1 h hnext
    exact ⟨[e'], .some (.one he'), by simp [Expr.listWithoutLines, heq]⟩
  | .more he hes, hp, h, hnext => by
    obtain ⟨_, hse, h⟩ := spelled_append.1 h
    obtain ⟨c, mid, rfl, -, hc, hses⟩ := h.uncons (.fixed rfl)
    obtain ⟨e', he', heq⟩ := he.level hp.1 hse (not_starts_cons (by simp [hc]))
    obtain ⟨es', hes', heqs⟩ := hes.arguments hp.2 hses hnext
    cases hes' with
    | none => cases heqs
    | some hes' =>
      exact ⟨e' :: es', .some (.more he' hc hes'), by
        simp only [Expr.listWithoutLines, heq] at heqs ⊢
        rw [heqs]⟩

end

/-! ## Statements -/

/-- The tokens of names with commas between them are parameters. -/
theorem Spelled.parameters : ∀ {names : List String} {ts rest : List Token},
    Spelled (names.intersperse ",") ts rest → (∀ name ∈ names, IsName name) →
    Parameters ts names rest
  | [], _, _, h, _ => by
    obtain rfl := h
    exact .none
  | [name], _, _, h, hn => by
    obtain ⟨t, mid, rfl, rfl, hk, rfl⟩ := h.uncons (hn name List.mem_cons_self).isLexeme
    exact .some (.one hk)
  | name :: _ :: _, _, _, h, hn => by
    obtain ⟨hname, hnames⟩ := List.forall_mem_cons.1 hn
    obtain ⟨t, mid, rfl, rfl, hk, h⟩ := h.uncons hname.isLexeme
    obtain ⟨c, mid', rfl, -, hc, h⟩ := h.uncons (.fixed rfl)
    cases h.parameters hnames with
    | some h => exact .some (.more hk hc h)

/-- The tokens of a condition in parentheses. -/
theorem Expr.Written.condition {e ls bs ts rest} (he : Expr.Written 0 e ls) (hp : e.Printable)
    (h : Spelled ("(" :: (ls ++ ")" :: bs)) ts rest) :
    ∃ e' mid, Parenthesised (Level BinaryOp.levels) ts e' mid ∧ Spelled bs mid rest ∧
      e'.withoutLines = e.withoutLines := by
  obtain ⟨o, inner, c, mid, rfl, ho, hin, hc, hb⟩ := h.parentheses
  obtain ⟨e', he', heq⟩ := he.level hp hin (not_starts_cons (by simp [hc]))
  exact ⟨e', mid, .parentheses ho he' hc, hb, heq⟩

mutual

/-- The tokens of a statement that no parenthesis follows have a tree that is the statement but for
its lines. -/
theorem Stmt.Written.statement {s ls ts rest} : Stmt.Written s ls → s.Printable →
    Spelled ls ts rest → ¬ Starts [.leftParen] rest →
    ∃ s', Statement ts s' rest ∧ s'.withoutLines = s.withoutLines
  | .expression he, hp, h, hnext => by
    obtain ⟨e', he', heq⟩ := Expr.Written.level he hp h hnext
    exact ⟨_, .expression he', by simp [Stmt.withoutLines, heq]⟩
  | .definition hb, hp, h, _ => by
    obtain ⟨t, mid, rfl, -, ht, h⟩ := h.uncons (.fixed rfl)
    obtain ⟨name, mid, rfl, rfl, hn, h⟩ := h.uncons hp.1.isLexeme
    obtain ⟨o, inner, c, mid, rfl, ho, hin, hc, hbody⟩ := h.parentheses
    have hps := hin.parameters hp.2.1
    obtain ⟨b', hb', heq⟩ := hb.braced hp.2.2 hbody
    exact ⟨_, .definition ht hn (.parentheses ho hps hc) hb', by simp [Stmt.withoutLines, heq]⟩
  | .declaration, hp, h, _ => by
    obtain ⟨t, mid, rfl, -, ht, h⟩ := h.uncons (.fixed rfl)
    obtain ⟨name, mid, rfl, rfl, hn, rfl⟩ := h.uncons hp.1.isLexeme
    exact ⟨_, .declaration ht hn, rfl⟩
  | .initialised he, hp, h, hnext => by
    obtain ⟨t, mid, rfl, -, ht, h⟩ := h.uncons (.fixed rfl)
    obtain ⟨name, mid, rfl, rfl, hn, h⟩ := h.uncons hp.1.isLexeme
    obtain ⟨q, mid, rfl, -, hq, h⟩ := h.uncons (.fixed rfl)
    obtain ⟨e', he', heq⟩ := he.level (hp.2 _ rfl) h hnext
    exact ⟨_, .initialised ht hn hq he', by simp [Stmt.withoutLines, heq]⟩
  | .loop he hb, hp, h, _ => by
    obtain ⟨t, mid, rfl, -, ht, h⟩ := h.uncons (.fixed rfl)
    obtain ⟨e', mid, he', hbody, heq⟩ := he.condition hp.1 h
    obtain ⟨b', hb', heqb⟩ := hb.braced hp.2 hbody
    exact ⟨_, .loop ht he' hb', by simp [Stmt.withoutLines, heq, heqb]⟩
  | .branch he hb, hp, h, _ => by
    obtain ⟨t, mid, rfl, -, ht, h⟩ := h.uncons (.fixed rfl)
    obtain ⟨e', mid, he', hbody, heq⟩ := he.condition hp.1 h
    obtain ⟨b', hb', heqb⟩ := hb.braced hp.2 hbody
    exact ⟨_, .branch ht he' hb', by simp [Stmt.withoutLines, heq, heqb]⟩
  | .alternative he hb ho, hp, h, _ => by
    obtain ⟨t, mid, rfl, -, ht, h⟩ := h.uncons (.fixed rfl)
    obtain ⟨e', mid, he', hbodies, heq⟩ := he.condition hp.1 h
    obtain ⟨mid', hbody, h⟩ := spelled_append.1 hbodies
    obtain ⟨w, mid'', rfl, -, hw, hother⟩ := h.uncons (.fixed rfl)
    obtain ⟨b', hb', heqb⟩ := hb.braced hp.2.1 hbody
    obtain ⟨o', ho', heqo⟩ := ho.braced hp.2.2 hother
    exact ⟨_, .alternative ht he' hb' hw ho', by simp [Stmt.withoutLines, heq, heqb, heqo]⟩
  | .assignment he, hp, h, hnext => by
    obtain ⟨name, mid, rfl, rfl, hn, h⟩ := h.uncons hp.1.isLexeme
    obtain ⟨q, mid, rfl, -, hq, h⟩ := h.uncons (.fixed rfl)
    obtain ⟨e', he', heq⟩ := he.level hp.2 h hnext
    exact ⟨_, .assignment hn hq he', by simp [Stmt.withoutLines, heq]⟩
  | .returns he, hp, h, hnext => by
    obtain ⟨t, mid, rfl, -, ht, h⟩ := h.uncons (.fixed rfl)
    obtain ⟨e', he', heq⟩ := Expr.Written.level he hp h hnext
    exact ⟨_, .returns ht he', by simp [Stmt.withoutLines, heq]⟩

theorem Block.Written.braced {b ls ts rest} : Block.Written b ls → b.Printable →
    Spelled ls ts rest → ∃ b', Braced ts b' rest ∧ b'.withoutLines = b.withoutLines
  | .braces hss, hp, h => by
    obtain ⟨o, mid, rfl, -, ho, h⟩ := h.uncons (.fixed rfl)
    obtain ⟨_, hin, h⟩ := spelled_append.1 h
    obtain ⟨c, mid', rfl, -, hc, rfl⟩ := h.uncons (.fixed rfl)
    obtain ⟨t, ts, rfl⟩ := hin.exists_cons
    obtain ⟨ss', hss', heq⟩ := hss.statements hp hin
    exact ⟨_, .braces ho hss' hc, by simp [Block.withoutLines, heq]⟩

theorem Stmt.ListWritten.statements {ss ls ts rest} : Stmt.ListWritten ss ls →
    Stmt.ListPrintable ss → Spelled ls ts rest →
    ∃ ss', Statements ts ss' rest ∧ Stmt.listWithoutLines ss' = Stmt.listWithoutLines ss
  | .none, _, h => by
    obtain rfl := h
    exact ⟨[], .none, rfl⟩
  | .some hs hss, hp, h => by
    obtain ⟨_, hfirst, h⟩ := spelled_append.1 h
    obtain ⟨c, mid, rfl, -, hc, hothers⟩ := h.uncons (.fixed rfl)
    obtain ⟨s', hs', heq⟩ := hs.statement hp.1 hfirst (not_starts_cons (by simp [hc]))
    obtain ⟨ss', hss', heqs⟩ := hss.statements hp.2 hothers
    have hsemicolon : Statement ts s' ([c] ++ mid) := hs'
    exact ⟨s' :: ss', .some hsemicolon (by simp [hc]) hss',
      by simp [Stmt.listWithoutLines, heq, heqs]⟩

end

/-! ## Texts -/

/-- What the tokens of a text make is read of the text. -/
theorem Program.ofSource_of_scan {source : String} {ts : List Token} {mark : Mark} {ss : List Stmt}
    (hscan : Token.scan source = .ok (ts ++ [Token.endAt mark]))
    (hts : ∀ t ∈ ts, t.kind ≠ .endMark) (h : Statements ts ss []) :
    ∃ line, ofSource source = .ok ⟨⟨ss, line⟩, line⟩ ∧
      line = (ts.head?.getD (Token.endAt mark)).line := by
  exact ⟨_, (ofSource_eq_ok_iff hscan hts rfl).2 (.statements h), rfl⟩

/-- An expression is read where a program of one expression is. -/
theorem Expr.ofSource_of_program {source : String} {p : Program} {e : Expr}
    (h : Program.ofSource source = .ok p) (hp : p.block.statements = [.expression e]) :
    Expr.ofSource source = .ok e := by
  rw [Expr.ofSource, h]
  simp [bind, Except.bind, pure, Except.pure, hp]

/-- A text that spells lexemes is accepted if the tokens that these make have a tree. -/
theorem Program.ofSource_of_spaced (property : List Stmt → Prop) {ls : List String}
    {source : String} (h : Spaced ls source.toList) (hls : Lexical ls)
    (tree : ∀ {ts}, Spelled ls ts [] → ∃ ss, Statements ts ss [] ∧ property ss) :
    ∃ p, ofSource source = .ok p ∧ property p.block.statements := by
  obtain ⟨ts, mark, hscan, hts⟩ := Token.scanFrom_spaced h hls .origin
  obtain ⟨ss, hss, hproperty⟩ := tree hts
  obtain ⟨_, hok, -⟩ := ofSource_of_scan hscan hts.ne_endMark hss
  exact ⟨_, hok, hproperty⟩

/-- A text that a program may be printed as is accepted and gives its statements back. -/
theorem Program.ofSource_of_renders {p : Program} {source : String} (hp : p.Printable)
    (h : p.Renders source) :
    ∃ p', ofSource source = .ok p' ∧
      Stmt.listWithoutLines p'.block.statements = Stmt.listWithoutLines p.block.statements := by
  obtain ⟨ls, hls, hsource⟩ := h
  exact ofSource_of_spaced _ hsource (hls.lexical hp) (hls.statements hp)

/-- A text that an expression may be printed as is accepted and gives it back. -/
theorem Expr.ofSource_of_renders {e : Expr} {source : String} (hp : e.Printable)
    (h : e.Renders source) :
    ∃ p', Program.ofSource source = .ok p' ∧
      Stmt.listWithoutLines p'.block.statements = Stmt.listWithoutLines [.expression e] := by
  obtain ⟨ls, hls, hsource⟩ := h
  refine Program.ofSource_of_spaced
    (fun ss => Stmt.listWithoutLines ss = Stmt.listWithoutLines [.expression e])
    hsource (hls.lexical hp) fun {ts} hts => ?_
  obtain ⟨e', he', heq⟩ := hls.level hp hts (by simp [Starts])
  have hstatement : Statement ts (.expression e') ([] ++ []) := .expression he'
  exact ⟨[.expression e'], .some hstatement (by simp) .none,
    by simp [Stmt.listWithoutLines, Stmt.withoutLines, heq]⟩

/-- Statements that are one expression but for its lines are one expression. -/
theorem Stmt.eq_singleton_of_withoutLines {ss : List Stmt} {e : Expr}
    (h : Stmt.listWithoutLines ss = Stmt.listWithoutLines [.expression e]) :
    ∃ e', ss = [.expression e'] ∧ e'.withoutLines = e.withoutLines := by
  match ss with
  | [] => simp [Stmt.listWithoutLines] at h
  | _ :: _ :: _ => simp [Stmt.listWithoutLines] at h
  | [.expression e'] => exact ⟨e', rfl, by simpa [Stmt.listWithoutLines, Stmt.withoutLines] using h⟩
  | [.branch _ _ none _] | [.branch _ _ (some _) _] | [.definition ..] | [.declaration ..]
  | [.loop ..] | [.assignment ..] | [.returns ..] =>
    simp [Stmt.listWithoutLines, Stmt.withoutLines] at h

/-! ### Single lexemes -/

/-- A lexeme that is an operand on its own is a program. -/
theorem Program.ofSource_of_isLexeme {l : String} {kind : TokenKind} {e : Expr}
    (hl : IsLexeme l kind) (h : ∀ span, Operand [⟨kind, l, span, 1⟩] e []) :
    ofSource l = .ok ⟨⟨[.expression e], 1⟩, 1⟩ := by
  obtain ⟨span, mark, hscan⟩ := Token.scan_of_isLexeme hl
  have hstatement : Statement [⟨kind, l, span, 1⟩] (.expression e) ([] ++ []) :=
    .expression ((h span).level _)
  have hts : ∀ t ∈ [(⟨kind, l, span, 1⟩ : Token)], t.kind ≠ .endMark := by simp [hl.ne_endMark]
  obtain ⟨_, hok, rfl⟩ := ofSource_of_scan hscan hts (.some hstatement (by simp) .none)
  exact hok

theorem IsName.ofSource {name : String} (h : IsName name) :
    Program.ofSource name = .ok ⟨⟨[.expression (.identifier name 1)], 1⟩, 1⟩ :=
  Program.ofSource_of_isLexeme h.isLexeme fun _ => .identifier rfl (by simp [Starts])

theorem Program.ofSource_ofInt32 {value : Int32} (h : 0 ≤ value) :
    ofSource (Text.ofInt32 value) = .ok ⟨⟨[.expression (.literal value 1)], 1⟩, 1⟩ :=
  ofSource_of_isLexeme (isLexeme_ofInt32 h) fun _ => .literal rfl (int32?_ofInt32 h)

/-! ### Any tree -/

/-- A program without negative literals, whose names are names, has texts that it may be printed as.
Each of them is accepted and gives the program back but for its lines. If the program is one
expression, so does reading the expression, with a semicolon behind it or not. -/
theorem Program.parsing_undoes_printing {p : Program} (hp : p.Printable) :
    (∃ source, p.Renders source) ∧
    (∀ source, p.Renders source →
      ∃ p', ofSource source = .ok p' ∧ p'.withoutLines = p.withoutLines) ∧
    ∀ e, p.block.statements = [.expression e] →
      ∀ source, p.Renders source ∨ e.Renders source →
        ∃ e', Expr.ofSource source = .ok e' ∧ e'.withoutLines = e.withoutLines := by
  refine ⟨p.exists_renders, fun source hr => ?_, fun e he source hr => ?_⟩
  · obtain ⟨p', hok, heq⟩ := ofSource_of_renders hp hr
    exact ⟨p', hok, withoutLines_eq_iff.2 heq⟩
  · have hpe : e.Printable := by
      have hstatements : Stmt.ListPrintable p.block.statements := hp
      rw [he] at hstatements
      exact hstatements.1
    obtain ⟨p', hok, heq⟩ : ∃ p', ofSource source = .ok p' ∧
        Stmt.listWithoutLines p'.block.statements = Stmt.listWithoutLines [.expression e] :=
      hr.elim (fun hr => he ▸ ofSource_of_renders hp hr) (Expr.ofSource_of_renders hpe)
    obtain ⟨e', hp', heq⟩ := Stmt.eq_singleton_of_withoutLines heq
    exact ⟨e', Expr.ofSource_of_program hok hp', heq⟩

/-- The difference of 1 and of `a` less 3, whose right operand needs parentheses. -/
def Expr.difference : Expr :=
  .binary .subtract (.literal 1 1) (.binary .subtract (.identifier "a" 1) (.literal 3 2) 1) 1

theorem Program.parsing_undoes_printing_of_difference :
    Printable ⟨⟨[.expression .difference], 1⟩, 1⟩ ∧
    Renders ⟨⟨[.expression .difference], 1⟩, 1⟩ "1 - ( ( a )\n\t- 3 ) ; " ∧
    (∃ p', ofSource "1 - ( ( a )\n\t- 3 ) ; " = .ok p' ∧
      p'.withoutLines = withoutLines ⟨⟨[.expression .difference], 1⟩, 1⟩) ∧
    ∃ e', Expr.ofSource "1 - ( ( a )\n\t- 3 ) ; " = .ok e' ∧
      e'.withoutLines = Expr.difference.withoutLines := by
  have ha : IsName "a" := ⟨⟨'a', [], rfl, by decide, by simp⟩, rfl⟩
  have hp : Printable ⟨⟨[.expression .difference], 1⟩, 1⟩ := by
    simp [Printable, Stmt.ListPrintable, Stmt.Printable, Expr.difference, Expr.Printable, ha]
  have hright : Expr.Written (BinaryOp.subtract.precedence + 1)
      (.binary .subtract (.identifier "a" 1) (.literal 3 2) 1)
      ["(", "(", "a", ")", "-", "3", ")"] :=
    .parentheses (.binary (Nat.zero_le _) (.parentheses .identifier) .literal)
  have hwritten : Stmt.ListWritten [.expression .difference]
      ["1", "-", "(", "(", "a", ")", "-", "3", ")", ";"] :=
    .some (.expression (.binary (Nat.zero_le _) .literal hright)) .none
  have hspaced := spaced_flatMap [("1", [' ']), ("-", [' ']), ("(", [' ']), ("(", [' ']),
    ("a", [' ']), (")", ['\n', '\t']), ("-", [' ']), ("3", [' ']), (")", [' ']), (";", [' '])]
    (by simp [isBlank])
  have hr : Renders ⟨⟨[.expression .difference], 1⟩, 1⟩ "1 - ( ( a )\n\t- 3 ) ; " :=
    ⟨_, hwritten, hspaced⟩
  obtain ⟨-, hprogram, hexpression⟩ := parsing_undoes_printing hp
  exact ⟨hp, hr, hprogram _ hr, hexpression .difference rfl _ (.inl hr)⟩

end FunLanguage
