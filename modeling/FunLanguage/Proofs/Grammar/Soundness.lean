import FunLanguage.Proofs.Grammar.Cursors
import FunLanguage.Proofs.Grammar.Derivation

/-!
# What is read is a tree of the grammar

A value that is read from a cursor is a tree of the tokens between the cursor and the one behind it,
and both have the same end mark (`Reads`). So no cursor leaves the tokens that it started on
(`Visits.behind`).
-/

namespace FunLanguage

theorem Except.bind_eq_ok {ε α β : Type} {x : Except ε α} {f : α → Except ε β} {b : β}
    (h : x >>= f = .ok b) : ∃ a, x = .ok a ∧ f a = .ok b := by
  cases x with
  | error e => cases h
  | ok a => exact ⟨a, rfl, h⟩

namespace Cursor

/-- Whether the cursor `d` is behind `c` or at the same place, in front of the same end mark of the
same tokens. -/
structure Behind (d c : Cursor) : Prop where
  tokens : d.tokens = c.tokens
  rest : d.rest <:+ c.rest
  stop : d.stop = c.stop
  position : d.position + d.rest.length = c.position + c.rest.length

theorem Behind.refl (c : Cursor) : c.Behind c :=
  ⟨rfl, List.suffix_rfl, rfl, rfl⟩

theorem Behind.trans {a b c : Cursor} (hab : a.Behind b) (hbc : b.Behind c) : a.Behind c :=
  ⟨hab.tokens.trans hbc.tokens, hab.rest.trans hbc.rest, hab.stop.trans hbc.stop,
    hab.position.trans hbc.position⟩

/-! ## Single tokens -/

variable {c : Cursor}

theorem read?_eq_some {p : Parsed Token c.size} (h : c.read? = some p) :
    c.rest = p.value :: p.next.rest ∧ p.next.Behind c := by
  obtain ⟨more, rfl⟩ := exists_advance_of_read? h
  have hrest := rest_of_more more
  refine ⟨hrest, rfl, hrest ▸ List.suffix_cons .., stop_advance more, ?_⟩
  have hposition : (c.advance more).position = c.position + 1 := rfl
  rw [hrest, List.length_cons]
  dsimp only
  omega

theorem take?_eq_some {kind : TokenKind} {p : Parsed Token c.size} (h : c.take? kind = some p) :
    c.rest = p.value :: p.next.rest ∧ p.value.kind = kind ∧ p.next.Behind c := by
  obtain ⟨hr, hk⟩ := Option.filter_eq_some_iff.1 h
  obtain ⟨hrest, hs⟩ := read?_eq_some hr
  exact ⟨hrest, by simpa using hk, hs⟩

theorem take?_eq_none {kind : TokenKind} (h : c.take? kind = none) :
    ¬ Grammar.Starts [kind] c.rest := by
  rintro ⟨t, ts, hrest, hk⟩
  obtain ⟨more, hread, -⟩ := exists_read?_of_cons hrest
  simp [take?, hread, List.mem_singleton.1 hk] at h

theorem takeOperator?_eq_some {operators : List BinaryOp} {p : Parsed (BinaryOp × Token) c.size}
    (h : c.takeOperator? operators = some p) :
    c.rest = p.value.2 :: p.next.rest ∧ p.value.1 ∈ operators ∧
      p.value.2.kind = p.value.1.tokenKind ∧ p.next.Behind c := by
  obtain ⟨q, hq, h⟩ := Option.bind_eq_some_iff.1 h
  obtain ⟨op, hop, rfl⟩ := Option.map_eq_some_iff.1 h
  obtain ⟨hrest, hs⟩ := read?_eq_some hq
  have hk := List.find?_some hop
  exact ⟨hrest, List.mem_of_find?_eq_some hop, by simpa using (eq_of_beq hk).symm, hs⟩

theorem expect_eq_ok {kind : TokenKind} {complaint : Complaint} {p : Parsed Token c.size}
    (h : c.expect kind complaint = .ok p) :
    c.rest = p.value :: p.next.rest ∧ p.value.kind = kind ∧ p.next.Behind c := by
  unfold expect at h
  split at h
  · next q hq =>
    obtain rfl := Except.ok.inj h
    exact take?_eq_some hq
  · cases h

/-- What is passed over are tokens of the kind. -/
theorem skip_spec (kind : TokenKind) (c : Cursor) :
    ∃ skipped, c.rest = skipped ++ (c.skip kind).rest ∧ (∀ t ∈ skipped, t.kind = kind) ∧
      (c.skip kind).Behind c := by
  induction c using skip.induct kind with
  | case1 c hnone =>
    rw [skip, hnone]
    exact ⟨[], rfl, by simp, .refl c⟩
  | case2 c t next shorter htaken ih =>
    rw [skip, htaken]
    obtain ⟨hrest, hk, hs⟩ := take?_eq_some htaken
    obtain ⟨skipped, hnext, hall, hs'⟩ := ih
    exact ⟨t :: skipped, hrest.trans (congrArg (t :: ·) hnext), by simpa using ⟨hk, hall⟩,
      hs'.trans hs⟩

end Cursor

theorem Reading.weaken_eq_ok {α : Type} {m n : Nat} {hmn : m ≤ n} {r : Reading α m}
    {p : Parsed α n} (h : r.weaken hmn = .ok p) :
    ∃ q, r = .ok q ∧ q.value = p.value ∧ q.next = p.next := by
  cases r with
  | error e => cases h
  | ok q =>
    obtain rfl := Except.ok.inj h
    exact ⟨q, rfl, rfl, rfl⟩

namespace Grammar

/-- Whether `p` was read from `c`: its value is a tree of the tokens between `c` and the cursor
behind it, which has the same end mark. -/
structure Reads {α : Type} {n : Nat} (tree : List Token → α → List Token → Prop) (c : Cursor)
    (p : Parsed α n) : Prop where
  tree : tree c.rest p.value p.next.rest
  behind : p.next.Behind c

open Cursor

/-! ## Expressions -/

/-- Trees in front of a closing parenthesis, which belongs to what is read. -/
def Closed {α : Type} (tree : List Token → α → List Token → Prop) (ts : List Token) (a : α)
    (rest : List Token) : Prop :=
  ∃ c, tree ts a (c :: rest) ∧ c.kind = .rightParen

mutual

theorem level_reads (levels : List (List BinaryOp)) (c : Cursor) {p : Parsed Expr c.size}
    (h : c.level levels = .ok p) : Reads (Level levels) c p := by
  cases levels with
  | nil =>
    rw [level] at h
    obtain ⟨ht, hs⟩ := operand_reads c h
    exact ⟨.operand ht, hs⟩
  | cons operators tighter =>
    rw [level] at h
    obtain ⟨⟨first, next, shorter⟩, hf, h⟩ := Except.bind_eq_ok h
    obtain ⟨q, hq, hv, hn⟩ := Reading.weaken_eq_ok h
    obtain ⟨ht, hs⟩ := level_reads tighter c hf
    obtain ⟨ht', hs'⟩ := chain_reads operators tighter first next hq
    exact ⟨hv ▸ hn ▸ ht' c.rest (.tighter ht), hn ▸ hs'.trans hs⟩
termination_by (c.size, levels.length + 1)

/-- A chain goes on with the tree that its first part makes. -/
theorem chain_reads (operators : List BinaryOp) (tighter : List (List BinaryOp)) (left : Expr)
    (c : Cursor) {p : Parsed Expr (c.size + 1)} (h : c.chain operators tighter left = .ok p) :
    (∀ ts, Level (operators :: tighter) ts left c.rest →
      Level (operators :: tighter) ts p.value p.next.rest) ∧ p.next.Behind c := by
  rw [chain] at h
  split at h
  · obtain rfl := Except.ok.inj h
    exact ⟨fun _ hl => hl, .refl c⟩
  · next operator token next shorter hop =>
    obtain ⟨hrest, hm, hk, hs⟩ := takeOperator?_eq_some hop
    split at h
    · cases h
    · next right after shorter' hr =>
      obtain ⟨q, hq, hv, hn⟩ := Reading.weaken_eq_ok h
      obtain ⟨htr, hsr⟩ := level_reads tighter next hr
      obtain ⟨ht, hs'⟩ := chain_reads operators tighter _ after hq
      refine ⟨fun ts hl => ?_, hn ▸ hs'.trans (hsr.trans hs)⟩
      -- The invariant of the chain: what has been read so far is the left operand.
      have hl' : Level (operators :: tighter) ts (.binary operator left right left.line)
          after.rest := .binary (hrest ▸ hl) hm hk htr
      exact hv ▸ hn ▸ ht ts hl'
termination_by (c.size, 0)

theorem operand_reads (c : Cursor) {p : Parsed Expr c.size} (h : c.operand = .ok p) :
    Reads Operand c p := by
  rw [operand] at h
  split at h
  · cases h
  · next token next started hread =>
    obtain ⟨hrest, hs⟩ := read?_eq_some hread
    split at h
    · next hk =>
      split at h
      · next value hv =>
        obtain rfl := Except.ok.inj h
        exact ⟨hrest ▸ .literal hk hv, hs⟩
      · cases h
    · next hk =>
      split at h
      · next hopen =>
        obtain rfl := Except.ok.inj h
        exact ⟨hrest ▸ .identifier hk (take?_eq_none hopen), hs⟩
      · next opening inside _ hopen =>
        obtain ⟨hrest', ho, hs'⟩ := take?_eq_some hopen
        obtain ⟨⟨es, after, _⟩, hes, h⟩ := Except.bind_eq_ok h
        obtain rfl := Except.ok.inj h
        obtain ⟨⟨closing, ht, hc⟩, hs''⟩ := callArguments_reads inside hes
        have hts : c.rest = token :: opening :: inside.rest := hrest.trans (by rw [hrest'])
        exact ⟨hts ▸ .call hk ho ht hc, hs''.trans (hs'.trans hs)⟩
    · next hk =>
      split at h
      · cases h
      · obtain ⟨⟨inner, unclosed, _⟩, hi, h⟩ := Except.bind_eq_ok h
        obtain ⟨⟨closing, after, _⟩, hclose, h⟩ := Except.bind_eq_ok h
        obtain rfl := Except.ok.inj h
        obtain ⟨ht, hs'⟩ := level_reads BinaryOp.levels next hi
        obtain ⟨hrest', hc, hs''⟩ := expect_eq_ok hclose
        have ht' : Level BinaryOp.levels next.rest inner (closing :: after.rest) := hrest' ▸ ht
        exact ⟨hrest ▸ .grouping hk ht' hc, hs''.trans (hs'.trans hs)⟩
    · cases h
termination_by (c.size, 0)

theorem callArguments_reads (c : Cursor) {p : Parsed (List Expr) c.size}
    (h : c.callArguments = .ok p) : Reads (Closed Arguments) c p := by
  rw [callArguments] at h
  split at h
  · next closing next _ hclose =>
    obtain rfl := Except.ok.inj h
    obtain ⟨hrest, hc, hs⟩ := take?_eq_some hclose
    exact ⟨⟨closing, hrest ▸ .none, hc⟩, hs⟩
  · obtain ⟨⟨es, unclosed, _⟩, hes, h⟩ := Except.bind_eq_ok h
    obtain ⟨⟨closing, after, _⟩, hclose, h⟩ := Except.bind_eq_ok h
    obtain rfl := Except.ok.inj h
    obtain ⟨ht, hs⟩ := arguments_reads c hes
    obtain ⟨hrest, hc, hs'⟩ := expect_eq_ok hclose
    have ht' : Expressions c.rest es (closing :: after.rest) := hrest ▸ ht
    exact ⟨⟨closing, .some ht', hc⟩, hs'.trans hs⟩
termination_by (c.size, BinaryOp.levels.length + 3)

theorem arguments_reads (c : Cursor) {p : Parsed (List Expr) c.size}
    (h : c.arguments = .ok p) : Reads Expressions c p := by
  rw [arguments] at h
  split at h
  · cases h
  · obtain ⟨⟨first, next, _⟩, hf, h⟩ := Except.bind_eq_ok h
    obtain ⟨ht, hs⟩ := level_reads BinaryOp.levels c hf
    dsimp only at h
    split at h
    · obtain rfl := Except.ok.inj h
      exact ⟨.one ht, hs⟩
    · next comma mid _ hcomma =>
      obtain ⟨⟨others, after, _⟩, ho, h⟩ := Except.bind_eq_ok h
      obtain rfl := Except.ok.inj h
      obtain ⟨hrest, hc, hs'⟩ := take?_eq_some hcomma
      obtain ⟨ht', hs''⟩ := arguments_reads mid ho
      have hfirst : Level BinaryOp.levels c.rest first (comma :: mid.rest) := hrest ▸ ht
      exact ⟨.more hfirst hc ht', hs''.trans (hs'.trans hs)⟩
termination_by (c.size, BinaryOp.levels.length + 2)

end

/-! ## Parts of statements -/

theorem parameterNames_reads (c : Cursor) {p : Parsed (List String) c.size}
    (h : c.parameterNames = .ok p) : Reads Names c p := by
  rw [parameterNames] at h
  obtain ⟨⟨first, next, _⟩, hf, h⟩ := Except.bind_eq_ok h
  obtain ⟨hrest, hk, hs⟩ := expect_eq_ok hf
  dsimp only at h
  split at h
  · obtain rfl := Except.ok.inj h
    exact ⟨hrest ▸ .one hk, hs⟩
  · next comma mid _ hcomma =>
    obtain ⟨⟨others, after, _⟩, ho, h⟩ := Except.bind_eq_ok h
    obtain rfl := Except.ok.inj h
    obtain ⟨hrest', hc, hs'⟩ := take?_eq_some hcomma
    obtain ⟨ht, hs''⟩ := parameterNames_reads mid ho
    have hts : c.rest = first :: comma :: mid.rest := hrest.trans (by rw [hrest'])
    exact ⟨hts ▸ .more hk hc ht, hs''.trans (hs'.trans hs)⟩
termination_by c.size

theorem parameters_reads (c : Cursor) {p : Parsed (List String) c.size}
    (h : c.parameters = .ok p) : Reads (Parenthesised Parameters) c p := by
  unfold parameters at h
  obtain ⟨⟨opening, inside, _⟩, hopen, h⟩ := Except.bind_eq_ok h
  obtain ⟨hrest, ho, hs⟩ := expect_eq_ok hopen
  dsimp only at h
  split at h
  · next closing after _ hclose =>
    obtain rfl := Except.ok.inj h
    obtain ⟨hrest', hc, hs'⟩ := take?_eq_some hclose
    exact ⟨hrest ▸ .parentheses ho (hrest' ▸ .none) hc, hs'.trans hs⟩
  · obtain ⟨⟨names, unclosed, _⟩, hn, h⟩ := Except.bind_eq_ok h
    obtain ⟨⟨closing, after, _⟩, hclose, h⟩ := Except.bind_eq_ok h
    obtain rfl := Except.ok.inj h
    obtain ⟨ht, hs'⟩ := parameterNames_reads inside hn
    obtain ⟨hrest', hc, hs''⟩ := expect_eq_ok hclose
    have ht' : Names inside.rest names (closing :: after.rest) := hrest' ▸ ht
    exact ⟨hrest ▸ .parentheses ho (.some ht') hc, hs''.trans (hs'.trans hs)⟩

theorem condition_reads {of : Conditional} (c : Cursor) {p : Parsed Expr c.size}
    (h : c.condition of = .ok p) : Reads (Parenthesised (Level BinaryOp.levels)) c p := by
  unfold condition at h
  obtain ⟨⟨opening, inside, _⟩, hopen, h⟩ := Except.bind_eq_ok h
  obtain ⟨⟨value, unclosed, _⟩, hv, h⟩ := Except.bind_eq_ok h
  obtain ⟨⟨closing, after, _⟩, hclose, h⟩ := Except.bind_eq_ok h
  obtain rfl := Except.ok.inj h
  obtain ⟨hrest, ho, hs⟩ := expect_eq_ok hopen
  obtain ⟨ht, hs'⟩ := level_reads BinaryOp.levels inside hv
  obtain ⟨hrest', hc, hs''⟩ := expect_eq_ok hclose
  have ht' : Level BinaryOp.levels inside.rest value (closing :: after.rest) := hrest' ▸ ht
  exact ⟨hrest ▸ .parentheses ho ht' hc, hs''.trans (hs'.trans hs)⟩

theorem declaration_reads (line : Nat) (c : Cursor) {p : Parsed Stmt c.size}
    (h : c.declaration line = .ok p) :
    (∀ keyword : Token, keyword.kind = .varWord → keyword.line = line →
      Statement (keyword :: c.rest) p.value p.next.rest) ∧ p.next.Behind c := by
  unfold declaration at h
  obtain ⟨⟨name, next, _⟩, hname, h⟩ := Except.bind_eq_ok h
  obtain ⟨hrest, hn, hs⟩ := expect_eq_ok hname
  dsimp only at hrest h
  rw [hrest]
  split at h
  · obtain rfl := Except.ok.inj h
    refine ⟨?_, hs⟩
    rintro keyword hk rfl
    exact .declaration hk hn
  · next sign inside _ hsign =>
    obtain ⟨⟨value, after, _⟩, hv, h⟩ := Except.bind_eq_ok h
    obtain rfl := Except.ok.inj h
    obtain ⟨hrest', hq, hs'⟩ := take?_eq_some hsign
    obtain ⟨ht, hs''⟩ := level_reads BinaryOp.levels inside hv
    refine ⟨?_, hs''.trans (hs'.trans hs)⟩
    rintro keyword hk rfl
    exact hrest' ▸ .initialised hk hn hq ht

theorem returns_reads (line : Nat) (c : Cursor) {p : Parsed Stmt c.size}
    (h : c.returns line = .ok p) :
    (∀ keyword : Token, keyword.kind = .returnWord → keyword.line = line →
      Statement (keyword :: c.rest) p.value p.next.rest) ∧ p.next.Behind c := by
  unfold returns at h
  obtain ⟨⟨value, after, _⟩, hv, h⟩ := Except.bind_eq_ok h
  obtain rfl := Except.ok.inj h
  obtain ⟨ht, hs⟩ := level_reads BinaryOp.levels c hv
  refine ⟨?_, hs⟩
  rintro keyword hk rfl
  exact .returns hk ht

theorem target?_eq_some {c : Cursor} {p : Parsed Token c.size} (h : c.target? = some p) :
    ∃ sign, c.rest = p.value :: sign :: p.next.rest ∧ p.value.kind = .identifier ∧
      sign.kind = .equal ∧ p.next.Behind c := by
  obtain ⟨⟨name, next, _⟩, hname, h⟩ := Option.bind_eq_some_iff.1 h
  obtain ⟨⟨sign, after, _⟩, hsign, h⟩ := Option.bind_eq_some_iff.1 h
  obtain rfl := Option.some.inj h
  obtain ⟨hrest, hn, hs⟩ := take?_eq_some hname
  obtain ⟨hrest', hq, hs'⟩ := take?_eq_some hsign
  exact ⟨sign, hrest.trans (by rw [hrest']), hn, hq, hs'.trans hs⟩

theorem assignment_reads (target : Token) (c : Cursor) {p : Parsed Stmt c.size}
    (h : c.assignment target = .ok p) :
    (∀ sign : Token, target.kind = .identifier → sign.kind = .equal →
      Statement (target :: sign :: c.rest) p.value p.next.rest) ∧ p.next.Behind c := by
  unfold assignment at h
  split at h
  · cases h
  · next value after _ hv =>
    obtain rfl := Except.ok.inj h
    obtain ⟨ht, hs⟩ := level_reads BinaryOp.levels c hv
    refine ⟨?_, hs⟩
    intro sign hk hq
    exact .assignment hk hq ht

/-! ## Statements -/

mutual

theorem statement_reads (c : Cursor) {p : Parsed Stmt c.size} (h : c.statement = .ok p) :
    Reads Statement c p := by
  rw [statement] at h
  split at h
  · cases h
  · next token next _ hread =>
    obtain ⟨hrest, hs⟩ := read?_eq_some hread
    dsimp only at hrest
    split at h
    · next hk =>
      obtain ⟨⟨name, unopened, _⟩, hname, h⟩ := Except.bind_eq_ok h
      obtain ⟨⟨names, unbraced, _⟩, hnames, h⟩ := Except.bind_eq_ok h
      obtain ⟨⟨body, after, _⟩, hbody, h⟩ := Except.bind_eq_ok h
      obtain rfl := Except.ok.inj h
      obtain ⟨hrest', hn, hs'⟩ := expect_eq_ok hname
      obtain ⟨hps, hs''⟩ := parameters_reads unopened hnames
      obtain ⟨hb, hs'''⟩ := body_reads _ unbraced hbody
      have hts : c.rest = token :: name :: unopened.rest := hrest.trans (by rw [hrest'])
      exact ⟨hts ▸ .definition hk hn hps hb, hs'''.trans (hs''.trans (hs'.trans hs))⟩
    · next hk =>
      obtain ⟨q, hq, hv, hn⟩ := Reading.weaken_eq_ok h
      obtain ⟨ht, hs'⟩ := declaration_reads token.line next hq
      exact ⟨hrest ▸ hv ▸ hn ▸ ht token hk rfl, hn ▸ hs'.trans hs⟩
    · next hk =>
      obtain ⟨⟨test, unbraced, _⟩, htest, h⟩ := Except.bind_eq_ok h
      obtain ⟨⟨body, after, _⟩, hbody, h⟩ := Except.bind_eq_ok h
      obtain rfl := Except.ok.inj h
      obtain ⟨he, hs'⟩ := condition_reads next htest
      obtain ⟨hb, hs''⟩ := body_reads _ unbraced hbody
      exact ⟨hrest ▸ .loop hk he hb, hs''.trans (hs'.trans hs)⟩
    · next hk =>
      obtain ⟨⟨test, unbraced, _⟩, htest, h⟩ := Except.bind_eq_ok h
      obtain ⟨⟨body, after, _⟩, hbody, h⟩ := Except.bind_eq_ok h
      obtain ⟨he, hs'⟩ := condition_reads next htest
      obtain ⟨hb, hs''⟩ := body_reads _ unbraced hbody
      dsimp only at h
      split at h
      · obtain rfl := Except.ok.inj h
        exact ⟨hrest ▸ .branch hk he hb, hs''.trans (hs'.trans hs)⟩
      · next word unbraced' _ hword =>
        obtain ⟨⟨otherwise, after', _⟩, hother, h⟩ := Except.bind_eq_ok h
        obtain rfl := Except.ok.inj h
        obtain ⟨hrest', hw, hs₁⟩ := take?_eq_some hword
        obtain ⟨hb', hs₂⟩ := body_reads _ unbraced' hother
        have hb'' : Braced unbraced.rest body (word :: unbraced'.rest) := hrest' ▸ hb
        exact ⟨hrest ▸ .alternative hk he hb'' hw hb',
          hs₂.trans (hs₁.trans (hs''.trans (hs'.trans hs)))⟩
    · next hk =>
      obtain ⟨q, hq, hv, hn⟩ := Reading.weaken_eq_ok h
      obtain ⟨ht, hs'⟩ := returns_reads token.line next hq
      exact ⟨hrest ▸ hv ▸ hn ▸ ht token hk rfl, hn ▸ hs'.trans hs⟩
    · split at h
      · next target inside _ htarget =>
        obtain ⟨sign, hts, hk, hsign, hs'⟩ := target?_eq_some htarget
        obtain ⟨q, hq, hv, hn⟩ := Reading.weaken_eq_ok h
        obtain ⟨ht, hs''⟩ := assignment_reads target inside hq
        exact ⟨hts ▸ hv ▸ hn ▸ ht sign hk hsign, hn ▸ hs''.trans hs'⟩
      · obtain ⟨⟨value, after, _⟩, hv, h⟩ := Except.bind_eq_ok h
        obtain rfl := Except.ok.inj h
        obtain ⟨ht, hs'⟩ := level_reads BinaryOp.levels c hv
        exact ⟨.expression ht, hs'⟩
termination_by (c.size, 0)

theorem body_reads (owner : BodyOwner) (c : Cursor) {p : Parsed Block c.size}
    (h : c.body owner = .ok p) : Reads Braced c p := by
  rw [body] at h
  obtain ⟨⟨opening, inside, _⟩, hopen, h⟩ := Except.bind_eq_ok h
  obtain ⟨⟨ss, unclosed, _⟩, hss, h⟩ := Except.bind_eq_ok h
  obtain ⟨⟨closing, after, _⟩, hclose, h⟩ := Except.bind_eq_ok h
  obtain rfl := Except.ok.inj h
  obtain ⟨hrest, ho, hs⟩ := expect_eq_ok hopen
  obtain ⟨ht, hs'⟩ := statements_reads inside hss
  obtain ⟨hrest', hc, hs''⟩ := expect_eq_ok hclose
  dsimp only at hrest hrest' ht
  rw [hrest'] at ht
  refine ⟨?_, hs''.trans (hs'.trans hs)⟩
  rw [hrest]
  -- there is a token behind the opening brace, if only the closing one
  obtain ⟨front, hfront, -, -⟩ := ht.derives
  cases hin : inside.rest with
  | nil => simp [hin] at hfront
  | cons t ts =>
    have hline : inside.peek = t := by simp [peek_eq, hin]
    rw [hline]
    exact .braces ho (hin ▸ ht) hc
termination_by (c.size, 0)

theorem statements_reads (c : Cursor) {p : Parsed (List Stmt) (c.size + 1)}
    (h : c.statements = .ok p) : Reads Statements c p := by
  rw [statements] at h
  split at h
  · obtain rfl := Except.ok.inj h
    exact ⟨.none, .refl c⟩
  · obtain ⟨⟨first, next, shorter⟩, hf, h⟩ := Except.bind_eq_ok h
    obtain ⟨⟨others, after, _⟩, ho, h⟩ := Except.bind_eq_ok h
    obtain rfl := Except.ok.inj h
    have hle := next.skip_size_le .semicolon
    obtain ⟨ht, hs⟩ := statement_reads c hf
    obtain ⟨skipped, hrest, hall, hs'⟩ := next.skip_spec .semicolon
    obtain ⟨ht', hs''⟩ := statements_reads (next.skip .semicolon) ho
    have hfirst : Statement c.rest first (skipped ++ (next.skip .semicolon).rest) := hrest ▸ ht
    exact ⟨.some hfirst hall ht', hs''.trans (hs'.trans hs)⟩
termination_by (c.size, 1)

end

/-! ## Where reading goes -/

/-- The cursors that reading comes to from `start`: those behind any token and behind any part of a
program that is read from such a cursor. -/
inductive Visits (start : Cursor) : Cursor → Prop
  | start : Visits start start
  | read {c p} : Visits start c → c.read? = some p → Visits start p.next
  | take {c kind p} : Visits start c → c.take? kind = some p → Visits start p.next
  | takeOperator {c operators p} : Visits start c → c.takeOperator? operators = some p →
      Visits start p.next
  | expect {c kind complaint p} : Visits start c → c.expect kind complaint = .ok p →
      Visits start p.next
  | skip {c} (kind : TokenKind) : Visits start c → Visits start (c.skip kind)
  | level {c levels p} : Visits start c → c.level levels = .ok p → Visits start p.next
  | chain {c operators tighter left p} : Visits start c → c.chain operators tighter left = .ok p →
      Visits start p.next
  | operand {c p} : Visits start c → c.operand = .ok p → Visits start p.next
  | callArguments {c p} : Visits start c → c.callArguments = .ok p → Visits start p.next
  | arguments {c p} : Visits start c → c.arguments = .ok p → Visits start p.next
  | parameterNames {c p} : Visits start c → c.parameterNames = .ok p → Visits start p.next
  | parameters {c p} : Visits start c → c.parameters = .ok p → Visits start p.next
  | condition {c of p} : Visits start c → c.condition of = .ok p → Visits start p.next
  | declaration {c line p} : Visits start c → c.declaration line = .ok p → Visits start p.next
  | returns {c line p} : Visits start c → c.returns line = .ok p → Visits start p.next
  | assignment {c target p} : Visits start c → c.assignment target = .ok p → Visits start p.next
  | target {c p} : Visits start c → c.target? = some p → Visits start p.next
  | statement {c p} : Visits start c → c.statement = .ok p → Visits start p.next
  | body {c owner p} : Visits start c → c.body owner = .ok p → Visits start p.next
  | statements {c p} : Visits start c → c.statements = .ok p → Visits start p.next

/-- No cursor leaves the tokens in front of the end mark. -/
theorem Visits.behind {start c : Cursor} (h : Visits start c) : c.Behind start := by
  induction h with
  | start => exact .refl start
  | read _ h ih => exact (read?_eq_some h).2.trans ih
  | take _ h ih => exact (take?_eq_some h).2.2.trans ih
  | takeOperator _ h ih => exact (takeOperator?_eq_some h).2.2.2.trans ih
  | expect _ h ih => exact (expect_eq_ok h).2.2.trans ih
  | skip kind _ ih =>
    obtain ⟨_, _, _, hs⟩ := skip_spec kind _
    exact hs.trans ih
  | level _ h ih => exact (level_reads _ _ h).behind.trans ih
  | chain _ h ih => exact (chain_reads _ _ _ _ h).2.trans ih
  | operand _ h ih => exact (operand_reads _ h).behind.trans ih
  | callArguments _ h ih => exact (callArguments_reads _ h).behind.trans ih
  | arguments _ h ih => exact (arguments_reads _ h).behind.trans ih
  | parameterNames _ h ih => exact (parameterNames_reads _ h).behind.trans ih
  | parameters _ h ih => exact (parameters_reads _ h).behind.trans ih
  | condition _ h ih => exact (condition_reads _ h).behind.trans ih
  | declaration _ h ih => exact (declaration_reads _ _ h).2.trans ih
  | returns _ h ih => exact (returns_reads _ _ h).2.trans ih
  | assignment _ h ih => exact (assignment_reads _ _ h).2.trans ih
  | target _ h ih =>
    obtain ⟨_, _, _, _, hs⟩ := target?_eq_some h
    exact hs.trans ih
  | statement _ h ih => exact (statement_reads _ h).behind.trans ih
  | body _ h ih => exact (body_reads _ _ h).behind.trans ih
  | statements _ h ih => exact (statements_reads _ h).behind.trans ih

end Grammar

end FunLanguage
