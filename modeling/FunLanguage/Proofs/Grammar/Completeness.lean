import FunLanguage.Proofs.Grammar.Soundness

/-!
# Every tree of the grammar is read

If tokens make a tree, then it is read from a cursor in front of them, unless what is behind them
could go on with it: an operator behind an expression, and an equals sign or an `else` behind some
statements. As reading is a function, the tokens make no other tree.
-/

namespace FunLanguage

theorem BinaryOp.tokenKind_injective {a b : BinaryOp} (h : a.tokenKind = b.tokenKind) : a = b := by
  cases a <;> cases b <;> first | rfl | cases h

theorem BinaryOp.tokenKind_ne_equal (op : BinaryOp) : op.tokenKind ≠ .equal := by
  cases op <;> decide

namespace Grammar

open Cursor

/-! ## What comes next -/

theorem starts_cons {kinds : List TokenKind} {t : Token} {ts : List Token} :
    Starts kinds (t :: ts) ↔ t.kind ∈ kinds := by
  constructor
  · rintro ⟨t', ts', heq, hk⟩
    cases heq
    exact hk
  · intro hk
    exact ⟨t, ts, rfl, hk⟩

theorem not_starts_cons {kinds : List TokenKind} {t : Token} {ts : List Token}
    (h : t.kind ∉ kinds) : ¬ Starts kinds (t :: ts) :=
  mt starts_cons.1 h

theorem starts_of_kind {k : TokenKind} {t : Token} {ts : List Token} (h : t.kind = k) :
    Starts [k] (t :: ts) :=
  starts_cons.2 (List.mem_singleton.2 h)

theorem Starts.mono {kinds kinds' : List TokenKind} {ts : List Token} (h : Starts kinds ts)
    (hsub : kinds ⊆ kinds') : Starts kinds' ts := by
  obtain ⟨t, ts', hts, hk⟩ := h
  exact ⟨t, ts', hts, hsub hk⟩

theorem Starts.not_starts {kinds kinds' : List TokenKind} {ts : List Token} (h : Starts kinds ts)
    (hd : ∀ k ∈ kinds, k ∉ kinds') : ¬ Starts kinds' ts := by
  obtain ⟨t, ts', rfl, hk⟩ := h
  rw [starts_cons]
  exact hd _ hk

/-- The kinds of operators. -/
def operatorKinds (operators : List BinaryOp) : List TokenKind :=
  operators.map BinaryOp.tokenKind

/-- The kinds of token that an expression can start with. -/
def expressionStarts : List TokenKind :=
  [.integer, .identifier, .leftParen]

/-- The kinds of token that a statement can start with. -/
def statementStarts : List TokenKind :=
  [.funWord, .varWord, .whileWord, .ifWord, .returnWord, .integer, .identifier, .leftParen]

/-- The kinds of token that can go on with a statement that could be over. -/
def continuations : List TokenKind :=
  .equal :: .elseWord :: operatorKinds BinaryOp.all

theorem Operand.starts {ts e rest} (h : Operand ts e rest) : Starts expressionStarts ts := by
  cases h with
  | literal hk => exact starts_cons.2 (hk ▸ by decide)
  | identifier hk => exact starts_cons.2 (hk ▸ by decide)
  | call hk => exact starts_cons.2 (hk ▸ by decide)
  | grouping hk => exact starts_cons.2 (hk ▸ by decide)

theorem Level.starts {levels ts e rest} (h : Level levels ts e rest) :
    Starts expressionStarts ts := by
  induction h using Level.induction with
  | operand h => exact h.starts
  | tighter _ ih => exact ih
  | binary _ _ _ _ ihl _ => exact ihl

theorem Expressions.starts {ts es rest} (h : Expressions ts es rest) :
    Starts expressionStarts ts := by
  cases h with
  | one h => exact h.starts
  | more h => exact h.starts

theorem Statement.starts {ts s rest} (h : Statement ts s rest) : Starts statementStarts ts := by
  cases h with
  | definition hk => exact starts_cons.2 (hk ▸ by decide)
  | declaration hk => exact starts_cons.2 (hk ▸ by decide)
  | initialised hk => exact starts_cons.2 (hk ▸ by decide)
  | loop hk => exact starts_cons.2 (hk ▸ by decide)
  | branch hk => exact starts_cons.2 (hk ▸ by decide)
  | alternative hk => exact starts_cons.2 (hk ▸ by decide)
  | returns hk => exact starts_cons.2 (hk ▸ by decide)
  | assignment hk => exact starts_cons.2 (hk ▸ by decide)
  | expression h => exact h.starts.mono (by decide)

/-! ## Single tokens -/

/-- Whether the reading finds the value, in front of `rest`. -/
def Gives {α : Type} {n : Nat} (r : Reading α n) (a : α) (rest : List Token) : Prop :=
  ∃ p, r = .ok p ∧ p.value = a ∧ p.next.rest = rest

theorem Gives.bind {α β : Type} {m n : Nat} {r : Reading α m} {f : Parsed α m → Reading β n}
    {a : α} {b : β} {mid rest : List Token} (hr : Gives r a mid)
    (hf : ∀ next shorter, next.rest = mid → Gives (f ⟨a, next, shorter⟩) b rest) :
    Gives (r >>= f) b rest := by
  obtain ⟨⟨_, next, shorter⟩, rfl, rfl, hn⟩ := hr
  exact hf next shorter hn

theorem Gives.weaken {α : Type} {m n : Nat} {hmn : m ≤ n} {r : Reading α m} {a : α}
    {rest : List Token} (h : Gives r a rest) : Gives (r.weaken hmn) a rest := by
  obtain ⟨p, rfl, hv, hn⟩ := h
  exact ⟨p.weaken hmn, rfl, hv, hn⟩

theorem gives_ok {α : Type} {n : Nat} {a : α} {next : Cursor} {shorter : next.size < n}
    {rest : List Token} (h : next.rest = rest) : Gives (.ok ⟨a, next, shorter⟩) a rest :=
  ⟨_, rfl, rfl, h⟩

section Tokens

variable {c : Cursor} {t : Token} {ts : List Token}

theorem read?_of_cons (h : c.rest = t :: ts) :
    ∃ next shorter, c.read? = some ⟨t, next, shorter⟩ ∧ next.rest = ts := by
  obtain ⟨more, hread, hn⟩ := exists_read?_of_cons h
  exact ⟨_, _, hread, hn⟩

theorem take?_of_cons {k : TokenKind} (h : c.rest = t :: ts) (hk : t.kind = k) :
    ∃ next shorter, c.take? k = some ⟨t, next, shorter⟩ ∧ next.rest = ts := by
  obtain ⟨next, shorter, hread, hn⟩ := read?_of_cons h
  exact ⟨next, shorter, by simp [take?, hread, hk], hn⟩

theorem take?_of_not_starts {k : TokenKind} (h : ¬ Starts [k] c.rest) : c.take? k = none := by
  cases ht : c.take? k with
  | none => rfl
  | some p =>
    obtain ⟨hrest, hk, -⟩ := take?_eq_some ht
    exact absurd ⟨_, _, hrest, List.mem_singleton.2 hk⟩ h

theorem takeOperator?_of_cons {operators : List BinaryOp} {op : BinaryOp} (h : c.rest = t :: ts)
    (hm : op ∈ operators) (hk : t.kind = op.tokenKind) :
    ∃ next shorter, c.takeOperator? operators = some ⟨(op, t), next, shorter⟩ ∧
      next.rest = ts := by
  obtain ⟨next, shorter, hread, hn⟩ := read?_of_cons h
  have hfind : operators.find? (·.tokenKind == t.kind) = some op := by
    cases hf : operators.find? (·.tokenKind == t.kind) with
    | none => exact absurd (List.find?_eq_none.1 hf op hm) (by simp [hk])
    | some op' =>
      have hop := List.find?_some hf
      rw [BinaryOp.tokenKind_injective ((eq_of_beq hop).trans hk)]
  exact ⟨next, shorter, by simp [takeOperator?, hread, hfind], hn⟩

theorem takeOperator?_of_not_starts {operators : List BinaryOp}
    (h : ¬ Starts (operatorKinds operators) c.rest) : c.takeOperator? operators = none := by
  cases ht : c.takeOperator? operators with
  | none => rfl
  | some p =>
    obtain ⟨hrest, hm, hk, -⟩ := takeOperator?_eq_some ht
    exact absurd ⟨_, _, hrest, hk ▸ List.mem_map_of_mem hm⟩ h

theorem expect_of_cons {k : TokenKind} {complaint : Complaint} (h : c.rest = t :: ts)
    (hk : t.kind = k) : Gives (c.expect k complaint) t ts := by
  obtain ⟨next, shorter, htake, hn⟩ := take?_of_cons h hk
  unfold expect
  rw [htake]
  exact gives_ok hn

theorem skip_rest {k : TokenKind} {skipped : List Token} (hc : c.rest = skipped ++ ts)
    (hall : ∀ t ∈ skipped, t.kind = k) (h : ¬ Starts [k] ts) : (c.skip k).rest = ts := by
  induction skipped generalizing c with
  | nil =>
    obtain rfl : c.rest = ts := hc
    rw [skip, take?_of_not_starts h]
  | cons t skipped ih =>
    obtain ⟨hk, hothers⟩ := List.forall_mem_cons.1 hall
    obtain ⟨next, shorter, htake, hn⟩ := take?_of_cons hc hk
    rw [skip, htake]
    exact ih hn hothers

theorem holds_iff {k : TokenKind} : c.holds k ↔ Starts [k] c.rest := by
  rw [holds_eq]
  cases c.rest with
  | nil => simp [Starts]
  | cons t ts => simp [starts_cons]

theorem not_atEnd (h : c.rest = t :: ts) : ¬ c.atEnd := by
  simp [atEnd_of_cons h]

end Tokens

/-! ## Expressions -/

/-- Whether the tokens are read as the expression at the levels. Below the operands, what is read
goes on with the expression as a chain does. -/
def Found : List (List BinaryOp) → List Token → Expr → List Token → Prop
  | [], ts, e, rest => ∀ c : Cursor, c.rest = ts → Gives c.operand e rest
  | operators :: tighter, ts, e, rest => ¬ Starts (operatorKinds tighter.flatten) rest → ∀ e' rest',
      (∀ c : Cursor, c.rest = rest → Gives (c.chain operators tighter e) e' rest') →
      ∀ c : Cursor, c.rest = ts → Gives (c.level (operators :: tighter)) e' rest'

theorem chain_of_not_starts {operators : List BinaryOp} {tighter : List (List BinaryOp)}
    {e : Expr} {c : Cursor} (h : ¬ Starts (operatorKinds operators) c.rest) :
    Gives (c.chain operators tighter e) e c.rest := by
  rw [chain, takeOperator?_of_not_starts h]
  exact gives_ok rfl

/-- Where no operator follows, the expression found is what is read. -/
theorem Found.level {levels ts e rest} (h : Found levels ts e rest)
    (hstop : ¬ Starts (operatorKinds levels.flatten) rest) {c : Cursor} (hc : c.rest = ts) :
    Gives (c.level levels) e rest := by
  cases levels with
  | nil =>
    rw [Cursor.level]
    exact h c hc
  | cons operators tighter =>
    have hkinds : operatorKinds (operators :: tighter).flatten =
        operatorKinds operators ++ operatorKinds tighter.flatten := List.map_append
    have hloose : ¬ Starts (operatorKinds operators) rest :=
      fun hs => hstop (hs.mono (hkinds ▸ List.subset_append_left ..))
    have htight : ¬ Starts (operatorKinds tighter.flatten) rest :=
      fun hs => hstop (hs.mono (hkinds ▸ List.subset_append_right ..))
    refine h htight e rest ?_ c hc
    rintro c rfl
    exact chain_of_not_starts hloose

theorem not_starts_of_nodup {operators : List BinaryOp} {tighter : List (List BinaryOp)}
    (hd : (operators :: tighter).flatten.Nodup) {op : BinaryOp} (hm : op ∈ operators) {t : Token}
    (hk : t.kind = op.tokenKind) (ts : List Token) :
    ¬ Starts (operatorKinds tighter.flatten) (t :: ts) := by
  intro hs
  obtain ⟨op', hm', hop⟩ := List.mem_map.1 (starts_cons.1 hs)
  have heq : op' = op := BinaryOp.tokenKind_injective (hop.trans hk)
  rw [List.flatten_cons, List.nodup_append] at hd
  exact hd.2.2 op hm op' hm' heq.symm

theorem nodup_levels : BinaryOp.levels.flatten.Nodup := by
  decide

mutual

theorem Level.found {levels ts e rest} (hd : levels.flatten.Nodup) :
    Level levels ts e rest → Found levels ts e rest
  | .operand h => fun _ hc => h.found hc
  | .tighter h => by
    have hd' := (List.nodup_append.1 hd).2.1
    intro hstop e' rest' hchain c hc
    rw [level]
    refine ((h.found hd').level hstop hc).bind fun next shorter hn => ?_
    exact (hchain next hn).weaken
  | .binary hl hm hk hr => by
    have hd' := (List.nodup_append.1 hd).2.1
    intro hstop e' rest' hchain c hc
    refine hl.found hd (not_starts_of_nodup hd hm hk _) e' rest' ?_ c hc
    -- the chain goes on with the operator, its right operand, and what goes on behind that
    intro c hc
    obtain ⟨next, shorter, htake, hn⟩ := takeOperator?_of_cons hc hm hk
    obtain ⟨⟨_, after, shorter'⟩, hright, rfl, ha⟩ := (hr.found hd').level hstop hn
    rw [chain, htake]
    dsimp only
    rw [hright]
    exact (hchain after ha).weaken

theorem Operand.found {ts e rest} : Operand ts e rest →
    ∀ {c : Cursor}, c.rest = ts → Gives c.operand e rest
  | .literal hk hv, c, hc => by
    obtain ⟨next, shorter, hread, hn⟩ := read?_of_cons hc
    rw [operand, hread]
    simp only [hk, hv]
    exact gives_ok hn
  | .identifier hk hp, c, hc => by
    obtain ⟨next, shorter, hread, hn⟩ := read?_of_cons hc
    rw [operand, hread]
    simp only [hk, take?_of_not_starts (hn ▸ hp)]
    exact gives_ok hn
  | .call hk ho h hcl, c, hc => by
    obtain ⟨next, shorter, hread, hn⟩ := read?_of_cons hc
    obtain ⟨inside, _, htake, hi⟩ := take?_of_cons hn ho
    rw [operand, hread]
    simp only [hk, htake]
    refine (h.found rfl hcl hi).bind fun after _ ha => ?_
    exact gives_ok ha
  | .grouping ho h hcl, c, hc => by
    obtain ⟨next, shorter, hread, hn⟩ := read?_of_cons hc
    have hfilled : ¬ Starts [.rightParen] next.rest := hn ▸ h.starts.not_starts (by decide)
    rw [operand, hread]
    simp only [ho, holds_iff, hfilled, if_false]
    have hinner := (h.found nodup_levels).level (not_starts_cons (hcl ▸ by decide)) hn
    refine hinner.bind fun unclosed _ hu => ?_
    refine (expect_of_cons hu hcl).bind fun after _ ha => ?_
    exact gives_ok ha

theorem Arguments.found {ts es rest} : Arguments ts es rest → ∀ {close rest'},
    rest = close :: rest' → close.kind = .rightParen →
    ∀ {c : Cursor}, c.rest = ts → Gives c.callArguments es rest'
  | .none, close, rest', hrest, hk, c, hc => by
    obtain ⟨next, _, htake, hn⟩ := take?_of_cons (hc.trans hrest) hk
    rw [callArguments, htake]
    exact gives_ok hn
  | .some h, close, rest', hrest, hk, c, hc => by
    have hfilled : ¬ Starts [.rightParen] c.rest := hc ▸ h.starts.not_starts (by decide)
    rw [callArguments, take?_of_not_starts hfilled]
    refine (h.found (hrest ▸ starts_of_kind hk) hc).bind fun unclosed _ hu => ?_
    refine (expect_of_cons (hu.trans hrest) hk).bind fun after _ ha => ?_
    exact gives_ok ha

theorem Expressions.found {ts es rest} : Expressions ts es rest → Starts [.rightParen] rest →
    ∀ {c : Cursor}, c.rest = ts → Gives c.arguments es rest
  | .one h, hclose, c, hc => by
    obtain ⟨t, ts', hts, -⟩ := h.starts
    have hstop : ¬ Starts (operatorKinds BinaryOp.all) rest := hclose.not_starts (by decide)
    have hend : ¬ Starts [.comma] rest := hclose.not_starts (by decide)
    rw [arguments, if_neg (not_atEnd (hc.trans hts))]
    refine ((h.found nodup_levels).level hstop hc).bind fun next _ hn => ?_
    simp only [take?_of_not_starts (hn ▸ hend)]
    exact gives_ok hn
  | .more h hcomma hs, hclose, c, hc => by
    obtain ⟨t, ts', hts, -⟩ := h.starts
    rw [arguments, if_neg (not_atEnd (hc.trans hts))]
    have hfirst := (h.found nodup_levels).level (not_starts_cons (hcomma ▸ by decide)) hc
    refine hfirst.bind fun next _ hn => ?_
    obtain ⟨mid, _, htake, hm⟩ := take?_of_cons hn hcomma
    simp only [htake]
    refine (hs.found hclose hm).bind fun after _ ha => ?_
    exact gives_ok ha

end

/-- Where no operator follows, an expression is read as what it is. -/
theorem Level.gives {ts e rest} (h : Level BinaryOp.levels ts e rest)
    (hstop : ¬ Starts (operatorKinds BinaryOp.all) rest) {c : Cursor} (hc : c.rest = ts) :
    Gives c.expression e rest :=
  (h.found nodup_levels).level hstop hc

/-! ## Parts of statements -/

theorem Names.found {ts ns rest} (h : Names ts ns rest) (hclose : Starts [.rightParen] rest)
    {c : Cursor} (hc : c.rest = ts) : Gives c.parameterNames ns rest := by
  induction h generalizing c with
  | one hk =>
    have hend : ¬ Starts [.comma] _ := hclose.not_starts (by decide)
    rw [parameterNames]
    refine (expect_of_cons hc hk).bind fun next _ hn => ?_
    simp only [take?_of_not_starts (hn ▸ hend)]
    exact gives_ok hn
  | more hk hcomma _ ih =>
    rw [parameterNames]
    refine (expect_of_cons hc hk).bind fun next _ hn => ?_
    obtain ⟨mid, _, htake, hm⟩ := take?_of_cons hn hcomma
    simp only [htake]
    refine (ih hclose hm).bind fun after _ ha => ?_
    exact gives_ok ha

theorem Names.starts {ts ns rest} (h : Names ts ns rest) : Starts [.identifier] ts := by
  cases h with
  | one hk => exact starts_of_kind hk
  | more hk _ _ => exact starts_of_kind hk

theorem parameters_found {ts ns rest} (h : Parenthesised Parameters ts ns rest) {c : Cursor}
    (hc : c.rest = ts) : Gives c.parameters ns rest := by
  obtain ⟨ho, h, hcl⟩ := h
  unfold parameters
  refine (expect_of_cons hc ho).bind fun inside _ hi => ?_
  cases h with
  | none =>
    obtain ⟨after, _, htake, ha⟩ := take?_of_cons hi hcl
    simp only [htake]
    exact gives_ok ha
  | some h =>
    have hfilled : ¬ Starts [.rightParen] inside.rest := hi ▸ h.starts.not_starts (by decide)
    simp only [take?_of_not_starts hfilled]
    refine (h.found (starts_of_kind hcl) hi).bind fun unclosed _ hu => ?_
    refine (expect_of_cons hu hcl).bind fun after _ ha => ?_
    exact gives_ok ha

theorem condition_found {ts e rest} (h : Parenthesised (Level BinaryOp.levels) ts e rest)
    (of : Conditional) {c : Cursor} (hc : c.rest = ts) : Gives (c.condition of) e rest := by
  obtain ⟨ho, h, hcl⟩ := h
  unfold condition
  refine (expect_of_cons hc ho).bind fun inside _ hi => ?_
  refine (h.gives (not_starts_cons (hcl ▸ by decide)) hi).bind fun unclosed _ hu => ?_
  refine (expect_of_cons hu hcl).bind fun after _ ha => ?_
  exact gives_ok ha

/-- In front of an equals sign, an identifier is an expression of its own. -/
theorem Level.rest_of_target {levels ts e rest} {name sign : Token} {more : List Token}
    (hn : name.kind = .identifier) (hq : sign.kind = .equal) (h : Level levels ts e rest)
    (hts : ts = name :: sign :: more) : rest = sign :: more := by
  induction h using Level.induction with
  | operand h =>
    cases h with
    | literal hk _ =>
      cases hts
      cases hk.symm.trans hn
    | identifier _ _ =>
      cases hts
      rfl
    | call _ ho _ _ =>
      cases hts
      cases ho.symm.trans hq
    | grouping ho _ _ =>
      cases hts
      cases ho.symm.trans hn
  | tighter _ ih => exact ih hts
  | binary _ _ hk _ ihl _ =>
    cases ihl hts
    exact absurd (hk.symm.trans hq) (BinaryOp.tokenKind_ne_equal _)

theorem target?_of_cons {name sign : Token} {ts : List Token} {c : Cursor}
    (h : c.rest = name :: sign :: ts) (hn : name.kind = .identifier) (hq : sign.kind = .equal) :
    ∃ next shorter, c.target? = some ⟨name, next, shorter⟩ ∧ next.rest = ts := by
  obtain ⟨next, _, hname, hnext⟩ := take?_of_cons h hn
  obtain ⟨after, _, hsign, hafter⟩ := take?_of_cons hnext hq
  exact ⟨after, after.size_lt_trans ‹_› ‹_›, by simp [target?, hname, hsign], hafter⟩

theorem target?_of_level {ts e rest} (h : Level BinaryOp.levels ts e rest)
    (hstop : ¬ Starts continuations rest) {c : Cursor} (hc : c.rest = ts) : c.target? = none := by
  cases ht : c.target? with
  | none => rfl
  | some p =>
    obtain ⟨sign, hrest, hn, hq, -⟩ := target?_eq_some ht
    have hsign := h.rest_of_target hn hq (hc.symm.trans hrest)
    exact absurd (starts_cons.2 (hq ▸ by decide)) (hsign ▸ hstop)

/-! ## Statements -/

theorem Level.gives_of_not_continues {ts e rest} (h : Level BinaryOp.levels ts e rest)
    (hstop : ¬ Starts continuations rest) {c : Cursor} (hc : c.rest = ts) :
    Gives c.expression e rest :=
  h.gives (fun hs => hstop (hs.mono (by decide))) hc

/-- Whether a block is over: there are no more tokens, or a brace closes it. -/
def BlockEnds (ts : List Token) : Prop :=
  ts = [] ∨ Starts [.rightBrace] ts

/-- A statement is followed by a statement, a semicolon or the end of the block. -/
theorem Statements.not_starts {ts ss rest} {kinds : List TokenKind} (h : Statements ts ss rest)
    (hend : BlockEnds rest) (hd : ∀ k ∈ TokenKind.rightBrace :: statementStarts, k ∉ kinds) :
    ¬ Starts kinds ts := by
  cases h with
  | none =>
    rcases hend with rfl | hend
    · rintro ⟨t, ts, h, -⟩
      cases h
    · exact hend.not_starts fun k hk => hd k (List.mem_singleton.1 hk ▸ List.mem_cons_self)
  | some h _ _ => exact h.starts.not_starts fun k hk => hd k (List.mem_cons_of_mem _ hk)

theorem not_continues_of_semicolons {semicolons ts : List Token}
    (hall : ∀ t ∈ semicolons, t.kind = .semicolon) (h : ¬ Starts continuations ts) :
    ¬ Starts continuations (semicolons ++ ts) := by
  cases semicolons with
  | nil => exact h
  | cons t semicolons =>
    have hk := hall t List.mem_cons_self
    exact not_starts_cons (hk ▸ by decide)

mutual

theorem Statement.found {ts s rest} : Statement ts s rest → ¬ Starts continuations rest →
    ∀ {c : Cursor}, c.rest = ts → Gives c.statement s rest
  | .definition hk hn hps hb, _, c, hc => by
    obtain ⟨next, shorter, hread, hnext⟩ := read?_of_cons hc
    rw [statement, hread]
    simp only [hk]
    refine (expect_of_cons hnext hn).bind fun unopened _ hu => ?_
    refine (parameters_found hps hu).bind fun unbraced _ hub => ?_
    refine (hb.found _ hub).bind fun after _ ha => ?_
    exact gives_ok ha
  | .declaration hk hn, hstop, c, hc => by
    obtain ⟨next, shorter, hread, hnext⟩ := read?_of_cons hc
    have hsign : ¬ Starts [.equal] rest := fun hs => hstop (hs.mono (by decide))
    rw [statement, hread]
    simp only [hk]
    refine Gives.weaken ?_
    unfold declaration
    refine (expect_of_cons hnext hn).bind fun after _ ha => ?_
    simp only [take?_of_not_starts (ha ▸ hsign)]
    exact gives_ok ha
  | .initialised hk hn hq h, hstop, c, hc => by
    obtain ⟨next, shorter, hread, hnext⟩ := read?_of_cons hc
    rw [statement, hread]
    simp only [hk]
    refine Gives.weaken ?_
    unfold declaration
    refine (expect_of_cons hnext hn).bind fun signed _ hs => ?_
    obtain ⟨inside, _, htake, hi⟩ := take?_of_cons hs hq
    simp only [htake]
    refine (h.gives_of_not_continues hstop hi).bind fun after _ ha => ?_
    exact gives_ok ha
  | .loop hk hcond hb, _, c, hc => by
    obtain ⟨next, shorter, hread, hnext⟩ := read?_of_cons hc
    rw [statement, hread]
    simp only [hk]
    refine (condition_found hcond _ hnext).bind fun unbraced _ hu => ?_
    refine (hb.found _ hu).bind fun after _ ha => ?_
    exact gives_ok ha
  | .branch hk hcond hb, hstop, c, hc => by
    obtain ⟨next, shorter, hread, hnext⟩ := read?_of_cons hc
    have hword : ¬ Starts [.elseWord] rest := fun hs => hstop (hs.mono (by decide))
    rw [statement, hread]
    simp only [hk]
    refine (condition_found hcond _ hnext).bind fun unbraced _ hu => ?_
    refine (hb.found _ hu).bind fun after _ ha => ?_
    simp only [take?_of_not_starts (ha ▸ hword)]
    exact gives_ok ha
  | .alternative hk hcond hb hw hb', _, c, hc => by
    obtain ⟨next, shorter, hread, hnext⟩ := read?_of_cons hc
    rw [statement, hread]
    simp only [hk]
    refine (condition_found hcond _ hnext).bind fun unbraced _ hu => ?_
    refine (hb.found _ hu).bind fun unended _ hue => ?_
    obtain ⟨unbraced', _, htake, hu'⟩ := take?_of_cons hue hw
    simp only [htake]
    refine (hb'.found _ hu').bind fun after _ ha => ?_
    exact gives_ok ha
  | .returns hk h, hstop, c, hc => by
    obtain ⟨next, shorter, hread, hnext⟩ := read?_of_cons hc
    rw [statement, hread]
    simp only [hk]
    refine Gives.weaken ?_
    unfold returns
    refine (h.gives_of_not_continues hstop hnext).bind fun after _ ha => ?_
    exact gives_ok ha
  | .assignment hk hq h, hstop, c, hc => by
    obtain ⟨next, shorter, hread, hnext⟩ := read?_of_cons hc
    obtain ⟨inside, _, htarget, hi⟩ := target?_of_cons hc hk hq
    obtain ⟨⟨_, after, _⟩, hv, rfl, ha⟩ := h.gives_of_not_continues hstop hi
    rw [statement, hread]
    simp only [hk, htarget]
    refine Gives.weaken ?_
    unfold assignment
    rw [hv]
    exact gives_ok ha
  | .expression h, hstop, c, hc => by
    obtain ⟨t, ts', rfl, hk⟩ := h.starts
    obtain ⟨next, shorter, hread, hnext⟩ := read?_of_cons hc
    have hvalue : Gives (c.expression >>= fun p => pure ⟨.expression p.value, p.next, p.shorter⟩ :
        Reading Stmt c.size) (.expression _) rest :=
      (h.gives_of_not_continues hstop hc).bind fun after _ ha => gives_ok ha
    -- With an equals sign behind it, an identifier would be the whole expression.
    have htarget := target?_of_level h hstop hc
    simp only [expressionStarts, List.mem_cons, List.not_mem_nil, or_false] at hk
    rw [statement, hread]
    rcases hk with hk | hk | hk <;> simp only [hk, htarget] <;> exact hvalue

theorem Braced.found {ts b rest} : Braced ts b rest →
    ∀ (owner : BodyOwner) {c : Cursor}, c.rest = ts → Gives (c.body owner) b rest
  | .braces ho h hcl, owner, c, hc => by
    rw [body]
    refine (expect_of_cons hc ho).bind fun inside _ hi => ?_
    refine (h.found (.inr (starts_of_kind hcl)) hi).bind fun unclosed _ hu => ?_
    refine (expect_of_cons hu hcl).bind fun after _ ha => ?_
    exact ⟨_, rfl, by simp [peek_eq, hi], ha⟩

theorem Statements.found {ts ss rest} : Statements ts ss rest → BlockEnds rest →
    ∀ {c : Cursor}, c.rest = ts → Gives c.statements ss rest
  | .none, hend, c, hc => by
    have hover : (c.atEnd || c.holds .rightBrace) = true := by
      rcases hend with rfl | hend
      · simp [atEnd_iff.2 hc]
      · simp [holds_iff.2 (hc ▸ hend)]
    rw [statements, if_pos hover]
    exact gives_ok hc
  | .some h hall hs, hend, c, hc => by
    obtain ⟨t, ts', hts, hk⟩ := h.starts
    have hbrace : ¬ Starts [.rightBrace] c.rest := hc ▸ h.starts.not_starts (by decide)
    have hgoes : ¬ (c.atEnd || c.holds .rightBrace) = true := by
      simp [not_atEnd (hc.trans hts), mt holds_iff.1 hbrace]
    have hstop := not_continues_of_semicolons hall (hs.not_starts hend (by decide))
    have hsemi : ¬ Starts [.semicolon] _ := hs.not_starts hend (by decide)
    rw [statements, if_neg hgoes]
    refine (h.found hstop hc).bind fun next _ hn => ?_
    have hskip := skip_rest hn hall hsemi
    refine (hs.found hend hskip).bind fun after _ ha => ?_
    exact gives_ok ha

end

end Grammar

end FunLanguage
