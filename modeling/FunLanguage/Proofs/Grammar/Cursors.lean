import FunLanguage.Grammar.Cursor

/-!
# The tokens ahead of a cursor

All that a cursor will come to are the tokens in front of the next end mark (`Cursor.rest`) and the
mark itself (`Cursor.stop`). Reading a token takes the first of them off and keeps the mark
(`Cursor.read?_of_cons`); at the mark nothing is read (`Cursor.read?_eq_none_iff`). So what is read
can be told from these tokens alone, without positions.
-/

namespace FunLanguage

/-- Marked tokens have a first end mark. -/
theorem Token.Marked.exists_find? {tokens : List Token} (marked : Token.Marked tokens) :
    ∃ mark, tokens.find? (·.kind == .endMark) = some mark := by
  obtain ⟨mark, mem, ends⟩ := marked
  exact Option.isSome_iff_exists.mp (List.find?_isSome.mpr ⟨mark, mem, by simp [ends]⟩)

/-- Tokens with an end mark among them are marked. -/
theorem Token.Marked.behind (ts : List Token) {mark : Token} (ends : mark.kind = .endMark)
    (junk : List Token) : Token.Marked (ts ++ mark :: junk) :=
  ⟨mark, by simp, ends⟩

namespace Cursor

/-- The tokens still to be read: those from the cursor on that stand in front of an end mark. -/
def rest (c : Cursor) : List Token :=
  (c.tokens.toList.drop c.position).takeWhile (·.kind != .endMark)

/-- The end mark in front of which reading ends. -/
def stop (c : Cursor) : Token :=
  ((c.tokens.toList.drop c.position).find? (·.kind == .endMark)).getD c.peek

variable {c : Cursor} {t : Token} {ts : List Token}

/-! ## Where the next token is -/

theorem rest_of_atEnd (ends : c.atEnd = true) : c.rest = [] := by
  rw [rest, drop_position, List.takeWhile_cons_of_neg]
  simpa [atEnd] using ends

theorem stop_of_atEnd (ends : c.atEnd = true) : c.stop = c.peek := by
  rw [stop, drop_position, List.find?_cons, show (c.peek.kind == .endMark) = true from ends]
  rfl

theorem rest_of_more (more : c.atEnd = false) : c.rest = c.peek :: (c.advance more).rest := by
  rw [rest, drop_position, List.takeWhile_cons_of_pos]
  · rfl
  · simpa [atEnd] using more

theorem stop_advance (more : c.atEnd = false) : (c.advance more).stop = c.stop := by
  obtain ⟨mark, found⟩ := (marked_succ more).exists_find?
  rw [stop, stop, drop_position c, List.find?_cons,
    show (c.peek.kind == .endMark) = false from more]
  simp only [advance, found]
  rfl

theorem previous?_advance (more : c.atEnd = false) : (c.advance more).previous? = some c.peek :=
  Array.getElem?_eq_getElem c.position_lt

theorem atEnd_iff : c.atEnd = true ↔ c.rest = [] := by
  refine ⟨rest_of_atEnd, fun none => Bool.of_not_eq_false fun more => ?_⟩
  rw [rest_of_more more] at none
  cases none

theorem atEnd_of_cons (h : c.rest = t :: ts) : c.atEnd = false := by
  refine Bool.eq_false_iff.mpr fun ends => ?_
  rw [rest_of_atEnd ends] at h
  cases h

/-- The next token is the first that is still to be read, or else the end mark. -/
theorem peek_eq (c : Cursor) : c.peek = c.rest.head?.getD c.stop := by
  cases ends : c.atEnd with
  | true => rw [rest_of_atEnd ends, stop_of_atEnd ends]; rfl
  | false => rw [rest_of_more ends]; rfl

theorem holds_eq (c : Cursor) (kind : TokenKind) :
    c.holds kind = c.rest.head?.any (·.kind == kind) := by
  cases ends : c.atEnd with
  | true => rw [holds, ends, rest_of_atEnd ends]; rfl
  | false => rw [holds, ends, rest_of_more ends]; rfl

/-! ## Reading one token -/

theorem read?_eq_none_iff : c.read? = none ↔ c.rest = [] := by
  rw [← atEnd_iff, read?]
  split
  · next ends => exact iff_of_true rfl ends
  · next more => exact iff_of_false nofun (Bool.eq_false_iff.mp more)

/-- Reading takes the first token off, and keeps the end mark. -/
theorem exists_read?_of_cons (h : c.rest = t :: ts) : ∃ more : c.atEnd = false,
    c.read? = some ⟨t, c.advance more, size_advance_lt more⟩ ∧ (c.advance more).rest = ts := by
  have more := atEnd_of_cons h
  rw [rest_of_more more] at h
  obtain ⟨rfl, rfl⟩ := List.cons.inj h
  refine ⟨more, ?_, rfl⟩
  rw [read?]
  split
  · next ends => cases ends.symm.trans more
  · rfl

theorem exists_advance_of_read? {p : Parsed Token c.size} (h : c.read? = some p) :
    ∃ more : c.atEnd = false, p = ⟨c.peek, c.advance more, size_advance_lt more⟩ := by
  rw [read?] at h
  split at h
  · cases h
  · next more => exact ⟨more, (Option.some.inj h).symm⟩

/-! ## All tokens of a list -/

/-- From the front of a list the tokens in front of the first end mark are still to be read. -/
theorem ofTokens_ahead {mark : Token} (unmarked : ∀ t ∈ ts, t.kind ≠ .endMark)
    (ends : mark.kind = .endMark) (junk : List Token) :
    (ofTokens (ts ++ mark :: junk) (.behind ts ends junk)).rest = ts ∧
      (ofTokens (ts ++ mark :: junk) (.behind ts ends junk)).stop = mark := by
  have all : ∀ t ∈ ts, (t.kind != TokenKind.endMark) = true := by simpa using unmarked
  constructor
  · simp [rest, ofTokens, List.takeWhile_append_of_pos all, ends]
  · have none : ts.find? (·.kind == .endMark) = none := by simpa using unmarked
    simp [stop, ofTokens, none, ends]

end Cursor

end FunLanguage
