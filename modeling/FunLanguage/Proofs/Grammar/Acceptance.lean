import FunLanguage.Proofs.Grammar.Existence
import FunLanguage.Proofs.Grammar.Lines

/-!
# What is accepted is the grammar

`Program.ofTokens` accepts what is derivable and nothing else (`Program.ofTokens_accepts_grammar`).
-/

namespace FunLanguage

namespace Grammar

open Cursor

/-! ## Programs -/

section Tokens

variable {ts : List Token} {mark : Token}

theorem ofTokens_eq_ok_iff {tokens : List Token} {marked : Token.Marked tokens} {p : Program}
    (hstart : (Cursor.ofTokens tokens marked).rest = ts ∧
      (Cursor.ofTokens tokens marked).stop = mark) :
    Program.ofTokens tokens marked = .ok p ↔ File mark ts p := by
  obtain ⟨hrest, hstop⟩ := hstart
  have hpeek : (Cursor.ofTokens tokens marked).peek = ts.head?.getD mark := by
    rw [peek_eq, hrest, hstop]
  unfold Program.ofTokens
  constructor
  · intro h
    obtain ⟨⟨ss, next, _⟩, hss, h⟩ := Except.bind_eq_ok h
    obtain ⟨ht, -⟩ := statements_reads _ hss
    dsimp only at h ht
    split at h
    · next hread =>
      obtain rfl := Except.ok.inj h
      rw [hpeek]
      rw [hrest, read?_eq_none_iff.1 hread] at ht
      exact .statements ht
    · cases h
  · rintro ⟨h⟩
    obtain ⟨⟨_, next, _⟩, hss, rfl, hn⟩ := h.found (.inl rfl) hrest
    dsimp only
    rw [hss]
    simp only [bind, Except.bind, read?_eq_none_iff.2 hn, hpeek]
    rfl

/-- A source text is read as the program that its tokens make. -/
theorem ofSource_eq_ok_iff {source : String} {p : Program}
    (hscan : Token.scan source = .ok (ts ++ [mark])) (hts : ∀ t ∈ ts, t.kind ≠ .endMark)
    (hmark : mark.kind = .endMark) : Program.ofSource source = .ok p ↔ File mark ts p := by
  rw [Program.ofSource_eq_ofTokens hscan]
  exact ofTokens_eq_ok_iff (Cursor.ofTokens_ahead hts hmark [])

/-- Tokens behind the first end mark play no part. -/
theorem ofTokens_behind (hts : ∀ t ∈ ts, t.kind ≠ .endMark) (hmark : mark.kind = .endMark)
    (junk : List Token) : Program.ofTokens (ts ++ mark :: junk) (.behind ts hmark junk) =
      Program.ofTokens (ts ++ [mark]) (.behind ts hmark []) := by
  obtain ⟨hrest, hstop⟩ := Cursor.ofTokens_ahead hts hmark junk
  obtain ⟨hrest', hstop'⟩ := Cursor.ofTokens_ahead hts hmark []
  have halike : (Cursor.ofTokens (ts ++ mark :: junk) (.behind ts hmark junk)).Alike .same
      (.ofTokens (ts ++ [mark]) (.behind ts hmark [])) := by
    refine ⟨?_, ?_, .none⟩
    · rw [hrest, hrest']
      exact List.forall₂_same.2 fun t _ => .refl t
    · rw [hstop, hstop']
      exact .refl mark
  obtain ⟨p, hok, -⟩ | ⟨e, e', herror, herror', hsame⟩ := Program.ofTokens_alike halike
  · have hfile := (ofTokens_eq_ok_iff ⟨hrest, hstop⟩).1 hok
    rw [hok, (ofTokens_eq_ok_iff ⟨hrest', hstop'⟩).2 hfile]
  · rw [herror, herror', hsame.eq]

/-- A program is what the tokens make if they are derivable. -/
theorem exists_file_iff (hmark : mark.kind = .endMark) :
    (∃ p, File mark ts p) ↔ Readable ts ∧ Derives .file ((ts ++ [mark]).map (·.kind)) := by
  simp only [List.map_append, List.map_cons, List.map_nil, hmark]
  constructor
  · rintro ⟨_, ⟨h⟩⟩
    obtain ⟨front, hts, hd, hr⟩ := h.derives
    rw [List.append_nil] at hts
    subst hts
    exact ⟨hr, .file hd⟩
  · rintro ⟨hr, hd⟩
    have hblock : ∀ {kinds}, Derives .file (kinds ++ [.endMark]) → Derives .block kinds := by
      intro kinds h
      generalize hk : kinds ++ [.endMark] = ks at h
      cases h with
      | file h => exact List.append_cancel_right hk ▸ h
    obtain ⟨ss, hss⟩ := (hblock hd).hasTrees ts rfl hr [] (.inl rfl)
    rw [List.append_nil] at hss
    exact ⟨_, .statements hss⟩

end Tokens

end Grammar

open Grammar

/-- A list of tokens with an end mark is read as a program if and only if the tokens in front of the
first end mark are derivable and their integers have values. The program is then that of the tree in
which an identifier in front of a parenthesis is a call, and no other. Tokens behind the end mark
play no part, and no cursor of the reading goes behind it, so there always is a token at it. As
every part of a program that is read uses up tokens (`Parsed.shorter`), reading always ends. -/
theorem Program.ofTokens_accepts_grammar {ts : List Token} {mark : Token}
    (hts : ∀ t ∈ ts, t.kind ≠ .endMark) (hmark : mark.kind = .endMark) (junk : List Token) :
    ((∃ p, ofTokens (ts ++ mark :: junk) (.behind ts hmark junk) = .ok p) ↔
      Readable ts ∧ Derives .file ((ts ++ [mark]).map (·.kind))) ∧
    (∀ p, ofTokens (ts ++ mark :: junk) (.behind ts hmark junk) = .ok p ↔ File mark ts p) ∧
    ofTokens (ts ++ mark :: junk) (.behind ts hmark junk) =
      ofTokens (ts ++ [mark]) (.behind ts hmark []) ∧
    ∀ c, Visits (.ofTokens (ts ++ mark :: junk) (.behind ts hmark junk)) c →
      c.tokens.toList = ts ++ mark :: junk ∧ c.position ≤ ts.length ∧
        c.rest = ts.drop c.position ∧ c.tokens[c.position]? = some c.peek := by
  have hstart := Cursor.ofTokens_ahead hts hmark junk
  have hfile := fun p => ofTokens_eq_ok_iff (p := p) hstart
  refine ⟨?_, hfile, ?_, ?_⟩
  · simp only [hfile]
    exact exists_file_iff hmark
  · exact ofTokens_behind hts hmark junk
  · intro c hc
    obtain ⟨htokens, ⟨front, hfront⟩, -, hposition⟩ := hc.behind
    rw [hstart.1] at hfront hposition
    have hfirst : (Cursor.ofTokens (ts ++ mark :: junk) (.behind ts hmark junk)).position = 0 := rfl
    rw [hfirst, Nat.zero_add, ← hfront, List.length_append] at hposition
    refine ⟨congrArg Array.toList htokens, ?_, ?_, Array.getElem?_eq_getElem c.position_lt⟩
    · rw [← hfront, List.length_append]
      omega
    · rw [← hfront, Nat.add_right_cancel hposition, List.drop_left]

/-- The tokens of `f` and, on the next line, of `(1)`, which are derivable as two statements too. -/
def Grammar.callTokens : List Token :=
  [⟨.identifier, "f", .single 0, 1⟩, ⟨.leftParen, "(", .single 2, 2⟩, ⟨.integer, "1", .single 3, 2⟩,
    ⟨.rightParen, ")", .single 4, 2⟩]

theorem Program.ofTokens_accepts_grammar_of_call :
    (∀ t ∈ callTokens, t.kind ≠ .endMark) ∧ (Token.endAt .origin).kind = .endMark ∧
    (Readable callTokens ∧ Derives .file ((callTokens ++ [Token.endAt .origin]).map (·.kind))) ∧
    ofTokens (callTokens ++ .endAt .origin :: callTokens) (.behind callTokens rfl callTokens) =
      .ok ⟨⟨[.expression (.call "f" [.literal 1 2] 1)], 1⟩, 1⟩ := by
  have hts : ∀ t ∈ callTokens, t.kind ≠ .endMark := by decide
  have hmark : (Token.endAt .origin).kind = .endMark := rfl
  obtain ⟨haccepts, htree, -, -⟩ := ofTokens_accepts_grammar hts hmark callTokens
  have hliteral : Level BinaryOp.levels (callTokens.drop 2) (.literal 1 2) (callTokens.drop 3) :=
    Operand.level (.literal rfl (by decide)) _
  have hcall : Level BinaryOp.levels callTokens (.call "f" [.literal 1 2] 1) [] :=
    Operand.level (.call rfl rfl (.some (.one hliteral)) rfl) _
  have hstatement : Statement callTokens (.expression _) ([] ++ []) := .expression hcall
  have hfile : File (.endAt .origin) callTokens ⟨⟨[.expression _], 1⟩, 1⟩ :=
    .statements (.some hstatement (by simp) .none)
  have hok := (htree _).2 hfile
  exact ⟨hts, hmark, haccepts.1 ⟨_, hok⟩, hok⟩

end FunLanguage
