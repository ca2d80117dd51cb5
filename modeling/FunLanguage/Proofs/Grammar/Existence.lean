import FunLanguage.Proofs.Grammar.Completeness

/-!
# What is derivable has a tree

Tokens that are derivable have a tree, though not always that of the derivation at hand: where a
statement ends with a variable and the next one starts with a parenthesis, the trees have a call in
their place. Nothing is lost by this, as what the two expressions make together is an expression
(`Level.call`, `Level.join`).
-/

namespace FunLanguage

namespace Grammar

open Cursor

/-! ## Joining expressions -/

/-- Whether the tokens in front of `rest` make an expression. -/
def Spans (ts rest : List Token) : Prop :=
  ∃ e, Level BinaryOp.levels ts e rest

/-- An operand is an expression of every level. -/
theorem Operand.level {ts e rest} (h : Operand ts e rest) (levels : List (List BinaryOp)) :
    Level levels ts e rest := by
  induction levels with
  | nil => exact .operand h
  | cons _ _ ih => exact .tighter ih

theorem Operand.spans {ts e rest} (h : Operand ts e rest) : Spans ts rest :=
  ⟨e, h.level _⟩

/-- An operand and an operator in front of an expression belong to it, as the operand of those of
its operators that bind tighter. -/
theorem Level.prepend {t : Token} {op : BinaryOp} {ts mid : List Token} {a : Expr}
    (ha : Operand ts a (t :: mid)) (hk : t.kind = op.tokenKind) {levels e rest}
    (hm : op ∈ levels.flatten) (h : Level levels mid e rest) : ∃ e', Level levels ts e' rest := by
  induction h using Level.induction with
  | operand _ => exact absurd hm List.not_mem_nil
  | tighter h ih =>
    -- An operator of this level takes all of the expression as its right operand.
    rcases List.mem_append.1 (List.flatten_cons ▸ hm) with hm | hm
    · exact ⟨_, .binary (.tighter (ha.level _)) hm hk h⟩
    · obtain ⟨e', h'⟩ := ih ha hm
      exact ⟨e', .tighter h'⟩
  | binary _ hm' hk' hr ihl _ =>
    obtain ⟨l, hl'⟩ := ihl ha hm
    exact ⟨_, .binary hl' hm' hk' hr⟩

/-- Two expressions with an operator between them are one. -/
theorem Level.join {t : Token} {op : BinaryOp} {mid rest : List Token} (hk : t.kind = op.tokenKind)
    (hmid : Spans mid rest) {levels ts e rest'} (h : Level levels ts e rest')
    (hrest : rest' = t :: mid) : Spans ts rest := by
  induction h using Level.induction generalizing t op mid with
  | operand h =>
    obtain ⟨e, he⟩ := hmid
    exact he.prepend (hrest ▸ h) hk op.mem_all
  | tighter _ ih => exact ih hk hmid hrest
  | binary _ _ hk' _ ihl ihr =>
    -- The right operand is joined first, and the left one to what comes of that.
    have hright : Spans _ rest := ihr hk hmid hrest
    exact ihl hk' hright rfl

/-- With a name in front, an expression that starts with a parenthesis starts with a call. -/
theorem Level.call {name : Token} (hn : name.kind = .identifier) {levels ts e rest}
    (hp : Starts [.leftParen] ts) (h : Level levels ts e rest) :
    ∃ e', Level levels (name :: ts) e' rest := by
  induction h using Level.induction with
  | operand h =>
    cases h with
    | literal hk _ => exact absurd hp (not_starts_cons (hk ▸ by decide))
    | identifier hk _ => exact absurd hp (not_starts_cons (hk ▸ by decide))
    | call hk _ _ _ => exact absurd hp (not_starts_cons (hk ▸ by decide))
    | grouping ho h hc => exact ⟨_, .operand (.call hn ho (.some (.one h)) hc)⟩
  | tighter _ ih =>
    obtain ⟨e', h'⟩ := ih hp
    exact ⟨e', .tighter h'⟩
  | binary _ hm hk hr ihl _ =>
    obtain ⟨l, hl'⟩ := ihl hp
    exact ⟨_, .binary hl' hm hk hr⟩

/-- A statement that starts with a parenthesis is an expression. -/
theorem Statement.spans {ts s rest} (h : Statement ts s rest) (hp : Starts [.leftParen] ts) :
    Spans ts rest := by
  cases h with
  | expression h => exact ⟨_, h⟩
  | definition hk => exact absurd hp (not_starts_cons (hk ▸ by decide))
  | declaration hk => exact absurd hp (not_starts_cons (hk ▸ by decide))
  | initialised hk => exact absurd hp (not_starts_cons (hk ▸ by decide))
  | loop hk => exact absurd hp (not_starts_cons (hk ▸ by decide))
  | branch hk => exact absurd hp (not_starts_cons (hk ▸ by decide))
  | alternative hk => exact absurd hp (not_starts_cons (hk ▸ by decide))
  | returns hk => exact absurd hp (not_starts_cons (hk ▸ by decide))
  | assignment hk => exact absurd hp (not_starts_cons (hk ▸ by decide))

/-! ## What is derivable has a tree -/

/-- Whether the tokens of `front` are read by themselves, whatever is behind them. Only an
expression behind them that starts with a parenthesis may be read with them instead. -/
structure Extends (reads : List Token → List Token → Prop) (front : List Token) : Prop where
  apart : ∀ rest, ¬ Starts [.leftParen] rest → reads (front ++ rest) rest
  joined : ∀ ts rest, Starts [.leftParen] ts → Spans ts rest →
    reads (front ++ ts) rest ∨ reads (front ++ ts) ts

/-- An expression in parentheses is over at the closing one. -/
theorem Extends.before_paren {front rest : List Token} {c : Token} (h : Extends Spans front)
    (hc : c.kind = .rightParen) : Spans (front ++ c :: rest) (c :: rest) :=
  h.apart _ (not_starts_cons (hc ▸ by decide))

section Extends

variable {reads reads' : List Token → List Token → Prop} {front : List Token}

/-- What ends with a parenthesis, a brace or a number is over. -/
theorem Extends.of_closed (h : ∀ rest, reads (front ++ rest) rest) : Extends reads front where
  apart rest _ := h rest
  joined ts _ _ _ := .inr (h ts)

theorem Extends.imp (h : Extends reads front) (start : List Token)
    (himp : ∀ {ts rest}, reads ts rest → reads' (start ++ ts) rest) :
    Extends reads' (start ++ front) where
  apart rest hp := by
    rw [List.append_assoc]
    exact himp (h.apart rest hp)
  joined ts rest hp hs := by
    rw [List.append_assoc]
    exact (h.joined ts rest hp hs).imp himp himp

end Extends

/-- Whether the tokens in front of `rest` make a statement. -/
def IsStatement (ts rest : List Token) : Prop :=
  ∃ s, Statement ts s rest

/-- What is known of tokens derived from a symbol. -/
def HasTree : Symbol → List Token → Prop
  | .file, _ => True
  | .block, front => ∀ rest, BlockEnds rest → ∃ ss, Statements (front ++ rest) ss rest
  | .braced, front => ∀ rest, ∃ b, Braced (front ++ rest) b rest
  | .statement, front => Extends IsStatement front
  | .parameters, front => ∀ rest, ∃ ns, Parameters (front ++ rest) ns rest
  | .names, front => ∀ rest, ∃ ns, Names (front ++ rest) ns rest
  | .level _, front => Extends Spans front
  | .primary, front => Extends Spans front
  | .arguments, front =>
    ∀ rest, ¬ Starts [.leftParen] rest → ∃ es, Arguments (front ++ rest) es rest
  | .expressions, front =>
    ∀ rest, ¬ Starts [.leftParen] rest → ∃ es, Expressions (front ++ rest) es rest

/-- An identifier is a variable, or with the parenthesis behind it a call. -/
theorem extends_identifier {t : Token} (hk : t.kind = .identifier) : Extends Spans [t] where
  apart _ hp := (Operand.identifier hk hp).spans
  joined _ _ hp hs := by
    obtain ⟨e, he⟩ := hs
    exact .inl (he.call hk hp)

theorem extends_binary {left right : List Token} {t : Token} {op : BinaryOp}
    (hk : t.kind = op.tokenKind) (hl : Extends Spans left) (hr : Extends Spans right) :
    Extends Spans (left ++ t :: right) := by
  have hop : t.kind ∉ [TokenKind.leftParen] := hk ▸ by cases op <;> decide
  have hjoin : ∀ {ts rest}, Spans ts rest → Spans ((left ++ [t]) ++ ts) rest := by
    intro ts rest hs
    obtain ⟨e, he⟩ := hl.apart _ (not_starts_cons hop)
    simpa using he.join hk hs rfl
  simpa using hr.imp (left ++ [t]) hjoin

/-- Whether all tokens of these kinds, if their integers have values, have a tree. -/
def HasTrees (symbol : Symbol) (kinds : List TokenKind) : Prop :=
  ∀ front : List Token, front.map (·.kind) = kinds → Readable front → HasTree symbol front

namespace HasTrees

open List (map_eq_nil_iff map_eq_cons_iff map_eq_singleton_iff map_eq_append_iff)
open TokenKind

/-! ### Expressions -/

theorem literal : HasTrees .primary [integer] := by
  intro front hf hr
  obtain ⟨t, rfl, ht⟩ := map_eq_singleton_iff.1 hf
  simp only [readable_cons] at hr
  obtain ⟨v, hv⟩ := Option.isSome_iff_exists.1 (hr.1 ht)
  exact .of_closed fun rest => (Operand.literal ht hv).spans

theorem identifier : HasTrees .primary [identifier] := by
  intro front hf _
  obtain ⟨t, rfl, ht⟩ := map_eq_singleton_iff.1 hf
  exact extends_identifier ht

theorem call {es : List TokenKind} (h : HasTrees .arguments es) :
    HasTrees .primary (.identifier :: leftParen :: (es ++ [rightParen])) := by
  intro front hf hr
  obtain ⟨t, _, rfl, ht, hf⟩ := map_eq_cons_iff.1 hf
  obtain ⟨o, _, rfl, ho, hf⟩ := map_eq_cons_iff.1 hf
  obtain ⟨es, _, rfl, hes, hf⟩ := map_eq_append_iff.1 hf
  obtain ⟨c, rfl, hc⟩ := map_eq_singleton_iff.1 hf
  simp only [readable_cons, readable_append] at hr
  refine .of_closed fun rest => ?_
  obtain ⟨args, hargs⟩ := h _ hes hr.2.2.1 (c :: rest) (not_starts_cons (hc ▸ by decide))
  simpa using (Operand.call ht ho hargs hc).spans

theorem grouping {e : List TokenKind} (h : HasTrees .expression e) :
    HasTrees .primary (leftParen :: (e ++ [rightParen])) := by
  intro front hf hr
  obtain ⟨o, _, rfl, ho, hf⟩ := map_eq_cons_iff.1 hf
  obtain ⟨e, _, rfl, he, hf⟩ := map_eq_append_iff.1 hf
  obtain ⟨c, rfl, hc⟩ := map_eq_singleton_iff.1 hf
  simp only [readable_cons, readable_append] at hr
  have hinner : Extends Spans e := h _ he hr.2.1
  refine .of_closed fun rest => ?_
  obtain ⟨v, hv⟩ := hinner.before_paren hc
  simpa using (Operand.grouping ho hv hc).spans

theorem binary {levels levels' : List (List BinaryOp)} {l r : List TokenKind} {op : BinaryOp}
    (hl : HasTrees (.level levels) l) (hr : HasTrees (.level levels') r) :
    HasTrees (.level levels) (l ++ op.tokenKind :: r) := by
  intro front hf hread
  obtain ⟨left, _, rfl, hleft, hf⟩ := map_eq_append_iff.1 hf
  obtain ⟨t, right, rfl, ht, hright⟩ := map_eq_cons_iff.1 hf
  simp only [readable_cons, readable_append] at hread
  exact extends_binary ht (hl _ hleft hread.1) (hr _ hright hread.2.2)

theorem noArgument : HasTrees .arguments [] := by
  intro front hf _ rest _
  obtain rfl := map_eq_nil_iff.1 hf
  exact ⟨[], .none⟩

theorem arguments {es : List TokenKind} (h : HasTrees .expressions es) :
    HasTrees .arguments es := by
  intro front hf hr rest hp
  obtain ⟨es, hes⟩ := h _ hf hr rest hp
  exact ⟨es, .some hes⟩

theorem argument {e : List TokenKind} (h : HasTrees .expression e) : HasTrees .expressions e := by
  intro front hf hr rest hp
  have hfirst : Extends Spans front := h _ hf hr
  obtain ⟨e, he⟩ := hfirst.apart rest hp
  exact ⟨[e], .one he⟩

theorem expressions {e es : List TokenKind} (he : HasTrees .expression e)
    (hes : HasTrees .expressions es) : HasTrees .expressions (e ++ comma :: es) := by
  intro front hf hr rest hp
  obtain ⟨first, _, rfl, hf₁, hf⟩ := map_eq_append_iff.1 hf
  obtain ⟨c, others, rfl, hc, hf₂⟩ := map_eq_cons_iff.1 hf
  simp only [readable_cons, readable_append] at hr
  have hfirst : Extends Spans first := he _ hf₁ hr.1
  obtain ⟨v, hv⟩ := hfirst.apart (c :: (others ++ rest)) (not_starts_cons (hc ▸ by decide))
  obtain ⟨vs, hvs⟩ := hes _ hf₂ hr.2.2 rest hp
  refine ⟨v :: vs, ?_⟩
  simpa using Expressions.more hv hc hvs

/-! ### Statements -/

theorem name : HasTrees .names [.identifier] := by
  intro front hf _ rest
  obtain ⟨t, rfl, ht⟩ := map_eq_singleton_iff.1 hf
  exact ⟨_, .one ht⟩

theorem names {ns : List TokenKind} (h : HasTrees .names ns) :
    HasTrees .names (.identifier :: comma :: ns) := by
  intro front hf hr rest
  obtain ⟨t, _, rfl, ht, hf⟩ := map_eq_cons_iff.1 hf
  obtain ⟨c, others, rfl, hc, hns⟩ := map_eq_cons_iff.1 hf
  simp only [readable_cons] at hr
  obtain ⟨ns, hns⟩ := h _ hns hr.2.2 rest
  exact ⟨_, .more ht hc hns⟩

theorem noParameter : HasTrees .parameters [] := by
  intro front hf _ rest
  obtain rfl := map_eq_nil_iff.1 hf
  exact ⟨[], .none⟩

theorem parameters {ns : List TokenKind} (h : HasTrees .names ns) : HasTrees .parameters ns := by
  intro front hf hr rest
  obtain ⟨ns, hns⟩ := h _ hf hr rest
  exact ⟨ns, .some hns⟩

/-- In front of a body, what is derivable in parentheses has a tree if it has one in front of the
closing parenthesis. -/
theorem parenthesised {α : Type} {tree : List Token → α → List Token → Prop}
    {front : List Token} {inner kinds : List TokenKind}
    (hf : front.map (·.kind) = leftParen :: (inner ++ rightParen :: kinds)) (hr : Readable front)
    (htree : ∀ {ts}, ts.map (·.kind) = inner → Readable ts → ∀ {c rest}, c.kind = .rightParen →
      ∃ a, tree (ts ++ c :: rest) a (c :: rest)) :
    ∃ part body, front = part ++ body ∧ body.map (·.kind) = kinds ∧ Readable body ∧
      ∀ rest, ∃ a, Parenthesised tree (part ++ rest) a rest := by
  obtain ⟨o, _, rfl, ho, hf⟩ := map_eq_cons_iff.1 hf
  obtain ⟨ts, _, rfl, hts, hf⟩ := map_eq_append_iff.1 hf
  obtain ⟨c, body, rfl, hc, hbody⟩ := map_eq_cons_iff.1 hf
  simp only [readable_cons, readable_append] at hr
  refine ⟨o :: (ts ++ [c]), body, by simp, hbody, hr.2.2.2, fun rest => ?_⟩
  obtain ⟨a, ha⟩ := htree hts hr.2.1 hc
  exact ⟨a, by simpa using Parenthesised.parentheses ho ha hc⟩

theorem definition {ps b : List TokenKind} (hps : HasTrees .parameters ps)
    (hb : HasTrees .braced b) :
    HasTrees .statement (funWord :: .identifier :: leftParen :: (ps ++ rightParen :: b)) := by
  intro front hf hr
  obtain ⟨t, _, rfl, ht, hf⟩ := map_eq_cons_iff.1 hf
  obtain ⟨n, _, rfl, hn, hf⟩ := map_eq_cons_iff.1 hf
  simp only [readable_cons] at hr
  obtain ⟨ps, b, rfl, hf, hrb, hps⟩ := parenthesised hf hr.2.2 fun hf hr _ _ _ => hps _ hf hr _
  refine .of_closed fun rest => ?_
  obtain ⟨names, hnames⟩ := hps (b ++ rest)
  obtain ⟨body, hbody⟩ := hb _ hf hrb rest
  refine ⟨.definition n.lexeme names body t.line, ?_⟩
  simpa using Statement.definition ht hn hnames hbody

theorem declaration : HasTrees .statement [varWord, .identifier] := by
  intro front hf _
  obtain ⟨t, _, rfl, ht, hf⟩ := map_eq_cons_iff.1 hf
  obtain ⟨n, rfl, hn⟩ := map_eq_singleton_iff.1 hf
  exact .of_closed fun rest => ⟨_, .declaration ht hn⟩

/-- Statements that have a condition and end with a body. -/
theorem conditional {word : TokenKind} {e b : List TokenKind} (he : HasTrees .expression e)
    (hb : HasTrees .braced b)
    (hstatement : ∀ {t ts v mid body rest}, t.kind = word →
      Parenthesised (Level BinaryOp.levels) ts v mid → Braced mid body rest →
      IsStatement (t :: ts) rest) :
    HasTrees .statement (word :: leftParen :: (e ++ rightParen :: b)) := by
  intro front hf hr
  obtain ⟨t, _, rfl, ht, hf⟩ := map_eq_cons_iff.1 hf
  simp only [readable_cons] at hr
  obtain ⟨e, b, rfl, hf, hrb, he⟩ :=
    parenthesised hf hr.2 fun hf hr _ _ hc => Extends.before_paren (he _ hf hr) hc
  refine .of_closed fun rest => ?_
  obtain ⟨v, hv⟩ := he (b ++ rest)
  obtain ⟨body, hbody⟩ := hb _ hf hrb rest
  simpa using hstatement ht hv hbody

theorem alternative {e b b' : List TokenKind} (he : HasTrees .expression e)
    (hb : HasTrees .braced b) (hb' : HasTrees .braced b') :
    HasTrees .statement
      (ifWord :: leftParen :: (e ++ rightParen :: (b ++ elseWord :: b'))) := by
  intro front hf hr
  obtain ⟨t, _, rfl, ht, hf⟩ := map_eq_cons_iff.1 hf
  simp only [readable_cons] at hr
  obtain ⟨e, _, rfl, hf, hrb, he⟩ :=
    parenthesised hf hr.2 fun hf hr _ _ hc => Extends.before_paren (he _ hf hr) hc
  obtain ⟨b, _, rfl, hf₁, hf⟩ := map_eq_append_iff.1 hf
  obtain ⟨w, b', rfl, hw, hf₂⟩ := map_eq_cons_iff.1 hf
  simp only [readable_cons, readable_append] at hrb
  refine .of_closed fun rest => ?_
  obtain ⟨v, hv⟩ := he (b ++ w :: (b' ++ rest))
  obtain ⟨body, hbody⟩ := hb _ hf₁ hrb.1 (w :: (b' ++ rest))
  obtain ⟨otherwise, hother⟩ := hb' _ hf₂ hrb.2.2 rest
  refine ⟨.branch v body (some otherwise) t.line, ?_⟩
  simpa using Statement.alternative ht hv hbody hw hother

/-- Statements that end with an expression, behind some tokens of their own. -/
theorem ending {kinds e : List TokenKind} (he : HasTrees .expression e)
    (hstatement : ∀ {start : List Token}, start.map (·.kind) = kinds →
      ∀ {ts v rest}, Level BinaryOp.levels ts v rest → IsStatement (start ++ ts) rest) :
    HasTrees .statement (kinds ++ e) := by
  intro front hf hr
  obtain ⟨start, e, rfl, hstart, hf⟩ := map_eq_append_iff.1 hf
  simp only [readable_append] at hr
  have hvalue : Extends Spans e := he _ hf hr.2
  refine hvalue.imp start ?_
  rintro ts rest ⟨v, hv⟩
  exact hstatement hstart hv

theorem initialised {e : List TokenKind} (he : HasTrees .expression e) :
    HasTrees .statement ([varWord, .identifier, equal] ++ e) := by
  refine he.ending fun hstart _ _ _ hv => ?_
  obtain ⟨t, _, rfl, ht, hstart⟩ := map_eq_cons_iff.1 hstart
  obtain ⟨n, _, rfl, hn, hstart⟩ := map_eq_cons_iff.1 hstart
  obtain ⟨q, rfl, hq⟩ := map_eq_singleton_iff.1 hstart
  exact ⟨_, .initialised ht hn hq hv⟩

theorem returns {e : List TokenKind} (he : HasTrees .expression e) :
    HasTrees .statement ([returnWord] ++ e) := by
  refine he.ending fun hstart _ _ _ hv => ?_
  obtain ⟨t, rfl, ht⟩ := map_eq_singleton_iff.1 hstart
  exact ⟨_, .returns ht hv⟩

theorem assignment {e : List TokenKind} (he : HasTrees .expression e) :
    HasTrees .statement ([.identifier, equal] ++ e) := by
  refine he.ending fun hstart _ _ _ hv => ?_
  obtain ⟨t, _, rfl, ht, hstart⟩ := map_eq_cons_iff.1 hstart
  obtain ⟨q, rfl, hq⟩ := map_eq_singleton_iff.1 hstart
  exact ⟨_, .assignment ht hq hv⟩

theorem expression {e : List TokenKind} (he : HasTrees .expression e) :
    HasTrees .statement ([] ++ e) := by
  refine he.ending fun hstart _ _ _ hv => ?_
  obtain rfl := map_eq_nil_iff.1 hstart
  exact ⟨_, .expression hv⟩

/-! ### Blocks -/

theorem braced {b : List TokenKind} (h : HasTrees .block b) :
    HasTrees .braced (leftBrace :: (b ++ [rightBrace])) := by
  intro front hf hr rest
  obtain ⟨o, _, rfl, ho, hf⟩ := map_eq_cons_iff.1 hf
  obtain ⟨b, _, rfl, hb, hf⟩ := map_eq_append_iff.1 hf
  obtain ⟨c, rfl, hc⟩ := map_eq_singleton_iff.1 hf
  simp only [readable_cons, readable_append] at hr
  obtain ⟨ss, hss⟩ := h _ hb hr.2.1 (c :: rest) (.inr (starts_of_kind hc))
  cases hcons : b ++ c :: rest with
  | nil => simp at hcons
  | cons t ts =>
    refine ⟨⟨ss, t.line⟩, ?_⟩
    simpa [hcons] using Braced.braces ho (hcons ▸ hss) hc

theorem noStatement : HasTrees .block [] := by
  intro front hf _ rest _
  obtain rfl := map_eq_nil_iff.1 hf
  exact ⟨[], .none⟩

/-- If a statement behind another one starts with a parenthesis, then that may be part of the one in
front, and the statements are one fewer. -/
theorem exists_statements {s ts : List Token} (hs : Extends IsStatement s) {ss rest}
    (hss : Statements ts ss rest) (hend : BlockEnds rest) (hp : Starts [.leftParen] ts) :
    ∃ ss, Statements (s ++ ts) ss rest := by
  cases hss with
  | none =>
    rcases hend with rfl | hend
    · obtain ⟨t, ts, hts, -⟩ := hp
      cases hts
    · exact absurd hp (hend.not_starts (by decide))
  | @some _ st semicolons mid ss _ hst hsemi hss =>
    -- Either the two statements have become one, or they stay apart with nothing between them.
    rcases hs.joined _ _ hp (hst.spans hp) with ⟨st', hst'⟩ | ⟨st', hst'⟩
    · exact ⟨st' :: ss, .some hst' hsemi hss⟩
    · have hst' : Statement (s ++ ts) st' ([] ++ ts) := hst'
      exact ⟨st' :: st :: ss, .some hst' (by simp) (.some hst hsemi hss)⟩

theorem statements {s b : List TokenKind} (n : Nat) (hs : HasTrees .statement s)
    (hb : HasTrees .block b) : HasTrees .block (s ++ (List.replicate n semicolon ++ b)) := by
  intro front hf hr rest hend
  obtain ⟨s, _, rfl, hs', hf⟩ := map_eq_append_iff.1 hf
  obtain ⟨semicolons, b, rfl, hsemi, hb'⟩ := map_eq_append_iff.1 hf
  simp only [readable_append] at hr
  have hfirst : Extends IsStatement s := hs _ hs' hr.1
  obtain ⟨ss, hss⟩ := hb _ hb' hr.2.2 rest hend
  have hall : ∀ t ∈ semicolons, t.kind = .semicolon := by
    intro t ht
    exact (List.mem_replicate.1 (hsemi ▸ List.mem_map_of_mem ht)).2
  simp only [List.append_assoc]
  by_cases hp : Starts [.leftParen] (semicolons ++ (b ++ rest))
  · cases semicolons with
    | nil => exact exists_statements hfirst hss hend hp
    | cons t semicolons =>
      have hk := hall t List.mem_cons_self
      exact absurd hp (not_starts_cons (hk ▸ by decide))
  · obtain ⟨st, hst⟩ := hfirst.apart _ hp
    exact ⟨st :: ss, .some hst hall hss⟩

end HasTrees

/-- Tokens whose kinds are derivable have a tree, if every integer has a value. -/
theorem Derives.hasTrees {symbol : Symbol} {kinds : List TokenKind} (h : Derives symbol kinds) :
    HasTrees symbol kinds := by
  induction h with
  | file => exact fun _ _ _ => trivial
  | noStatement => exact .noStatement
  | statements n _ _ ihs ihb => exact .statements n ihs ihb
  | braced _ ih => exact .braced ih
  | definition _ _ ihp ihb => exact .definition ihp ihb
  | declaration => exact .declaration
  | initialised _ ih => exact .initialised ih
  | loop _ _ ihe ihb => exact .conditional ihe ihb fun ht hv hb => ⟨_, .loop ht hv hb⟩
  | branch _ _ ihe ihb => exact .conditional ihe ihb fun ht hv hb => ⟨_, .branch ht hv hb⟩
  | alternative _ _ _ ihe ihb ihb' => exact .alternative ihe ihb ihb'
  | returns _ ih => exact .returns ih
  | assignment _ ih => exact .assignment ih
  | expression _ ih => exact .expression ih
  | noParameter => exact .noParameter
  | parameters _ ih => exact .parameters ih
  | name => exact .name
  | names _ ih => exact .names ih
  | primary _ ih => exact fun _ hf hr => ih _ hf hr
  | tighter _ ih => exact fun _ hf hr => ih _ hf hr
  | binary _ _ _ ihl ihr => exact .binary ihl ihr
  | literal => exact .literal
  | identifier => exact .identifier
  | call _ ih => exact .call ih
  | grouping _ ih => exact .grouping ih
  | noArgument => exact .noArgument
  | arguments _ ih => exact .arguments ih
  | argument _ ih => exact .argument ih
  | expressions _ _ ihe ihs => exact .expressions ihe ihs

end Grammar

end FunLanguage
