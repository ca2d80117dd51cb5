import FunLanguage.Proofs.Splitting
import FunLanguage.Span
import Mathlib.Data.List.Infix

/-!
# The spans of lines

The number of a line can be told from two sides: it is one more than the number of line feeds in
front of a character on the line, and it is the place of the line among the pieces of the text. Both
agree (`Text.exists_line`, `Text.hasLine_iff`), so the span of a line covers all characters with its
number but for those that end it (`Span.within_ofLine`). The spans of lines stand one behind the
other, and none is empty.
-/

namespace FunLanguage

open Text (byteLength)

namespace Text

variable {cs before after : List Char} {c : Char} {number : Nat}

/-- A character of the text is on the line: it stands behind as many line feeds as there are lines
in front of this one. -/
def HasLine (cs : List Char) (number : Nat) : Prop :=
  ∃ before c after, cs = before ++ c :: after ∧ number = 1 + before.count '\n'

/-- A character in front of `after` is part of what ends its line: the line feed, or one of the
carriage returns in front of it or in front of the end of the text. -/
def EndsLine (c : Char) (after : List Char) : Prop :=
  c = '\n' ∨ c = '\r' ∧ ∃ n rest, after = List.replicate n '\r' ++ rest ∧
    (rest = [] ∨ ∃ others, rest = '\n' :: others)

/-! ## Lines as pieces -/

theorem lines_last (nonempty : cs ≠ []) (none : '\n' ∉ cs) : lines cs = [cs] :=
  splitAfter_eq_singleton nonempty none

theorem lines_append_cons {front : List Char} (none : '\n' ∉ front) (rest : List Char) :
    lines (front ++ '\n' :: rest) = (front ++ ['\n']) :: lines rest :=
  splitAfter_append_cons none rest

/-- There are as many line feeds in front of a line as lines. -/
theorem count_take_lines {n : Nat} (lt : n < (lines cs).length) :
    ((lines cs).take n).flatten.count '\n' = n := by
  induction cs using terminator_induction '\n' generalizing n with
  | nil => cases lt
  | last cs nonempty none =>
    rw [lines_last nonempty none] at lt ⊢
    obtain rfl : n = 0 := Nat.lt_one_iff.mp lt
    rfl
  | piece front rest none ih =>
    rw [lines_append_cons none] at lt ⊢
    cases n with
    | zero => rfl
    | succ n =>
      rw [List.take_succ_cons, List.flatten_cons, List.count_append,
        ih (Nat.lt_of_succ_lt_succ lt), List.count_append, List.count_eq_zero_of_not_mem none]
      simp [Nat.add_comm]

/-- What is behind a character on its line: nothing behind the line feed; and otherwise characters
up to the line feed, or up to the end of the text if there is none. -/
def LineRest (c : Char) (back rest : List Char) : Prop :=
  (c = '\n' ∧ back = []) ∨ (∃ others, '\n' ∉ others ∧ back = others ++ ['\n']) ∨
    ('\n' ∉ back ∧ rest = [])

/-- The line of a character that no line feed stands in front of is the first one. -/
theorem lines_first {front : List Char} (none : '\n' ∉ front) (c : Char) (after : List Char) :
    ∃ back rest, lines (front ++ c :: after) = (front ++ c :: back) :: lines rest ∧
      after = back ++ rest ∧ LineRest c back rest := by
  by_cases feed : c = '\n'
  · obtain rfl := feed
    exact ⟨[], after, lines_append_cons none after, rfl, .inl ⟨rfl, rfl⟩⟩
  · have none' : '\n' ∉ front ++ [c] := by simp [none, Ne.symm feed]
    induction after using terminator_induction '\n' with
    | nil => exact ⟨[], [], lines_last (by simp) none', rfl, .inr (.inr ⟨List.not_mem_nil, rfl⟩)⟩
    | last after _ alone =>
      exact ⟨after, [], lines_last (by simp) (by simp [none, Ne.symm feed, alone]), by simp,
        .inr (.inr ⟨alone, rfl⟩)⟩
    | piece others rest alone _ =>
      have without : '\n' ∉ front ++ c :: others := by simp [none, Ne.symm feed, alone]
      have first := lines_append_cons without rest
      refine ⟨others ++ ['\n'], rest, ?_, by simp, .inr (.inl ⟨others, alone, rfl⟩)⟩
      simpa using first

/-- A character stands on the line that has as many lines in front of it as there are line feeds in
front of the character. -/
theorem exists_line (before : List Char) (c : Char) (after : List Char) : ∃ front back rest,
    before = ((lines (before ++ c :: after)).take (before.count '\n')).flatten ++ front ∧
    (lines (before ++ c :: after))[before.count '\n']? = some (front ++ c :: back) ∧
    after = back ++ rest ∧ LineRest c back rest := by
  have first (before : List Char) (none : '\n' ∉ before) : ∃ front back rest,
      before = ((lines (before ++ c :: after)).take (before.count '\n')).flatten ++ front ∧
      (lines (before ++ c :: after))[before.count '\n']? = some (front ++ c :: back) ∧
      after = back ++ rest ∧ LineRest c back rest := by
    obtain ⟨back, rest, cut, whole, behind⟩ := lines_first none c after
    refine ⟨before, back, rest, ?_, ?_, whole, behind⟩
    · rw [List.count_eq_zero_of_not_mem none]
      rfl
    · rw [List.count_eq_zero_of_not_mem none, cut]
      rfl
  induction before using terminator_induction '\n' with
  | nil => exact first [] List.not_mem_nil
  | last before _ none => exact first before none
  | piece line before none ih =>
    obtain ⟨front, back, rest, same, there, whole, behind⟩ := ih
    have feeds : (line ++ '\n' :: before).count '\n' = before.count '\n' + 1 := by
      simp [List.count_eq_zero_of_not_mem none]
    refine ⟨front, back, rest, ?_, ?_, whole, behind⟩
    · rw [feeds, List.append_assoc, List.cons_append, lines_append_cons none, List.take_succ_cons,
        List.flatten_cons, List.append_assoc, List.append_assoc, ← same]
      rfl
    · rw [feeds, List.append_assoc, List.cons_append, lines_append_cons none]
      exact there

theorem byteLength_le_of_prefix {ds : List Char} (begins : cs <+: ds) :
    byteLength cs ≤ byteLength ds := by
  obtain ⟨es, rfl⟩ := begins
  rw [byteLength_append]
  exact Nat.le_add_right ..

/-- A text is what stands in front of a line, the line, and what stands behind it. -/
theorem flatten_take_append {n : Nat} (lt : n < (lines cs).length) :
    ((lines cs).take n).flatten ++ ((lines cs)[n] ++ ((lines cs).drop (n + 1)).flatten) = cs := by
  rw [← List.flatten_cons, ← List.drop_eq_getElem_cons lt, ← List.flatten_append,
    List.take_append_drop]
  exact flatten_splitAfter _ cs

/-- The lines are numbered from 1 on. -/
theorem hasLine_iff : HasLine cs number ↔ 1 ≤ number ∧ number ≤ (lines cs).length := by
  constructor
  · rintro ⟨before, c, after, rfl, rfl⟩
    obtain ⟨front, back, rest, -, there, -⟩ := exists_line before c after
    have lt := (List.getElem?_eq_some_iff.mp there).1
    omega
  · rintro ⟨positive, le⟩
    obtain ⟨n, rfl⟩ := Nat.exists_eq_add_of_le positive
    have lt : n < (lines cs).length := by omega
    obtain ⟨c, back, line⟩ :=
      List.exists_cons_of_ne_nil (ne_nil_of_mem_splitAfter (List.getElem_mem lt))
    refine ⟨_, c, back ++ ((lines cs).drop (n + 1)).flatten, ?_, by rw [count_take_lines lt]⟩
    have whole := flatten_take_append lt
    rw [line] at whole
    exact whole.symm

theorem eq_replicate {back : List Char} (none : '\n' ∉ back)
    (ends : ∀ d ∈ back, isLineEnd d = true) : back = List.replicate back.length '\r' := by
  refine List.eq_replicate_of_mem fun d mem => ?_
  have kind := ends d mem
  simp only [isLineEnd, Bool.or_eq_true, beq_iff_eq] at kind
  exact kind.resolve_right fun feed => none (feed ▸ mem)

/-- A character that ends its line has only such characters behind it on the line, and no
other has. -/
theorem endsLine_of_forall {back rest : List Char} (behind : LineRest c back rest)
    (ends : ∀ d ∈ c :: back, isLineEnd d = true) : EndsLine c (back ++ rest) := by
  obtain ⟨first, others⟩ := List.forall_mem_cons.mp ends
  by_cases feed : c = '\n'
  · exact .inl feed
  · refine .inr ⟨by simpa [isLineEnd, feed] using first, ?_⟩
    rcases behind with ⟨rfl, -⟩ | ⟨front, none, rfl⟩ | ⟨none, rfl⟩
    · exact absurd rfl feed
    · refine ⟨front.length, '\n' :: rest, ?_, .inr ⟨rest, rfl⟩⟩
      rw [← eq_replicate none fun d mem => others d (List.mem_append_left _ mem)]
      simp
    · refine ⟨back.length, [], ?_, .inl rfl⟩
      rw [← eq_replicate none others]

end Text

namespace Span

/-! ## Spans -/

/-- The first span is a part of the second. -/
def Within (s t : Span) : Prop :=
  t.start ≤ s.start ∧ s.stop ≤ t.stop

variable {source : String} {n j k : Nat}

theorem ofLineFrom_eq (offset : Nat) {lines : List (List Char)} (lt : n < lines.length) :
    ofLineFrom offset lines n = ⟨offset + byteLength (lines.take n).flatten,
      offset + byteLength (lines.take n).flatten +
        max 1 (byteLength (Text.trimEnd Text.isLineEnd lines[n]))⟩ := by
  induction lines generalizing offset n with
  | nil => cases lt
  | cons line lines ih =>
    cases n with
    | zero => rfl
    | succ n =>
      rw [ofLineFrom, ih _ (Nat.lt_of_succ_lt_succ lt)]
      simp [Nat.add_assoc]

theorem ofLineFrom_of_length_le (offset : Nat) {lines : List (List Char)} (le : lines.length ≤ n) :
    ofLineFrom offset lines n = single (offset + byteLength lines.flatten) := by
  induction lines generalizing offset n with
  | nil => rw [ofLineFrom]; rfl
  | cons line lines ih =>
    cases n with
    | zero => cases le
    | succ n =>
      rw [ofLineFrom, ih _ (Nat.le_of_succ_le_succ le)]
      simp [Nat.add_assoc]

/-- The span of a line starts behind the lines in front of it. -/
theorem ofLine_eq (lt : n < (Text.lines source.toList).length) : ofLine source (1 + n) =
    ⟨byteLength ((Text.lines source.toList).take n).flatten,
      byteLength ((Text.lines source.toList).take n).flatten +
        max 1 (byteLength (Text.trimEnd Text.isLineEnd (Text.lines source.toList)[n]))⟩ := by
  rw [Nat.add_comm, ofLine, ofLineFrom_eq 0 lt, Nat.zero_add]

/-- A line that does not exist has the span of the byte behind the text. -/
theorem ofLine_of_not_hasLine (none : ¬ Text.HasLine source.toList k) :
    ofLine source k = single (byteLength source.toList) := by
  rw [Text.hasLine_iff] at none
  cases k with
  | zero => rfl
  | succ n =>
    rw [ofLine, ofLineFrom_of_length_le 0 (by omega), Nat.zero_add, Text.lines,
      Text.flatten_splitAfter]

theorem exists_lt_of_hasLine (has : Text.HasLine source.toList k) :
    ∃ n, n < (Text.lines source.toList).length ∧ k = 1 + n := by
  obtain ⟨positive, le⟩ := Text.hasLine_iff.mp has
  exact ⟨k - 1, by omega, by omega⟩

/-- The span of a line ends in front of the lines behind it. -/
theorem ofLine_stop_le (lt : n < (Text.lines source.toList).length) :
    (ofLine source (1 + n)).stop ≤
      byteLength ((Text.lines source.toList).take (n + 1)).flatten := by
  have nonempty : 1 ≤ byteLength (Text.lines source.toList)[n] := by
    refine Nat.le_trans ?_ (Text.length_le_byteLength _)
    exact List.length_pos_iff.mpr (Text.ne_nil_of_mem_splitAfter (List.getElem_mem lt))
  have kept : byteLength (Text.trimEnd Text.isLineEnd (Text.lines source.toList)[n]) ≤
      byteLength (Text.lines source.toList)[n] :=
    Text.byteLength_le_of_prefix (List.rdropWhile_prefix Text.isLineEnd _)
  rw [ofLine_eq lt, List.take_add_one, List.getElem?_eq_getElem lt]
  simp only [Option.toList_some, List.flatten_append, List.flatten_singleton,
    Text.byteLength_append]
  omega

/-- Spans of lines are not empty, and lie in the text. -/
theorem ofLine_bounds (has : Text.HasLine source.toList k) :
    (ofLine source k).start < (ofLine source k).stop ∧
      (ofLine source k).stop ≤ byteLength source.toList := by
  obtain ⟨n, lt, rfl⟩ := exists_lt_of_hasLine has
  refine ⟨?_, (ofLine_stop_le lt).trans ?_⟩
  · rw [ofLine_eq lt]
    exact Nat.lt_add_of_pos_right (Nat.lt_of_lt_of_le Nat.one_pos (Nat.le_max_left 1 _))
  · have inside := List.IsPrefix.flatten (List.take_prefix (n + 1) (Text.lines source.toList))
    rw [show (Text.lines source.toList).flatten = _ from Text.flatten_splitAfter ..] at inside
    exact Text.byteLength_le_of_prefix inside

/-- The span of a line stands in front of the spans of later lines. -/
theorem ofLine_stop_le_start (has : Text.HasLine source.toList j)
    (has' : Text.HasLine source.toList k) (lt : j < k) :
    (ofLine source j).stop ≤ (ofLine source k).start := by
  obtain ⟨m, ltm, rfl⟩ := exists_lt_of_hasLine has
  obtain ⟨n, ltn, rfl⟩ := exists_lt_of_hasLine has'
  refine (ofLine_stop_le ltm).trans ?_
  have le : m + 1 ≤ n := by omega
  rw [ofLine_eq ltn]
  exact Text.byteLength_le_of_prefix (List.IsPrefix.flatten (List.take_prefix_take_left le))

/-- The span of the line of a character covers the character, unless it ends the line. -/
theorem within_ofLine {before after : List Char} {c : Char}
    (whole : source.toList = before ++ c :: after) (stays : ¬ Text.EndsLine c after) :
    Within ⟨byteLength before, byteLength before + c.utf8Size⟩
      (ofLine source (1 + before.count '\n')) := by
  obtain ⟨front, back, rest, same, there, behind, line⟩ := Text.exists_line before c after
  rw [← whole] at same there
  obtain ⟨lt, here⟩ := List.getElem?_eq_some_iff.mp there
  obtain ⟨d, mem, keeps⟩ : ∃ d ∈ c :: back, Text.isLineEnd d = false := by
    by_contra none
    refine stays (behind ▸ Text.endsLine_of_forall line fun d mem => ?_)
    exact Bool.of_not_eq_false fun keeps => none ⟨d, mem, keeps⟩
  have reaches : front ++ [c] <+: Text.trimEnd Text.isLineEnd (front ++ c :: back) :=
    Text.prefix_trimEnd mem keeps
  have kept := Text.byteLength_le_of_prefix reaches
  rw [Text.byteLength_append, Text.byteLength_cons, Text.byteLength_nil] at kept
  have place := congrArg byteLength same
  rw [Text.byteLength_append] at place
  rw [ofLine_eq lt, here]
  simp only [Within]
  omega

/-- The span of a line covers all of a part of the text that starts on the line and holds nothing
that ends a line. -/
theorem part_within_ofLine {before text after : List Char}
    (whole : source.toList = before ++ text ++ after) (nonempty : text ≠ [])
    (stays : ∀ c ∈ text, Text.isLineEnd c = false) :
    Within ⟨byteLength before, byteLength before + byteLength text⟩
      (ofLine source (1 + before.count '\n')) := by
  have inside (c : Char) (mem : c ∈ text) (after : List Char) : ¬ Text.EndsLine c after := by
    rintro (rfl | ⟨rfl, -⟩)
    · exact absurd (stays _ mem) (by decide)
    · exact absurd (stays _ mem) (by decide)
  obtain ⟨first, others, here⟩ := List.exists_cons_of_ne_nil nonempty
  obtain ⟨front, last, there⟩ := (List.eq_nil_or_concat' text).resolve_left nonempty
  constructor
  · have start : source.toList = before ++ first :: (others ++ after) := by
      rw [whole, here, List.append_assoc, List.cons_append]
    exact (within_ofLine start (inside first (here ▸ List.mem_cons_self) _)).1
  · have none : front.count '\n' = 0 := by
      refine List.count_eq_zero_of_not_mem fun mem => ?_
      exact absurd (stays '\n' (there ▸ List.mem_append_left _ mem)) (by decide)
    have stop : source.toList = before ++ front ++ last :: after := by
      rw [whole, there, List.append_assoc, List.append_assoc, List.append_assoc,
        List.singleton_append]
    have within := within_ofLine stop (inside last (by simp [there]) _)
    rw [List.count_append, none, Nat.add_zero] at within
    refine Nat.le_trans (Nat.le_of_eq ?_) within.2
    simp [there, Nat.add_assoc]

end Span

end FunLanguage
