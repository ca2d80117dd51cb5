import FunLanguage.Diagnostic
import FunLanguage.Proofs.LineSpans

/-!
# What a diagnostic shows

The lines that are shown make up the text (`Text.flatten_shownLines`), and a line is found for each
offset up to the end of the text (`ShownLine.exists_find?`). So the location of a diagnostic is that
of the character whose number is the start of the fault's span (`Fault.exists_location?`), and the
characters marked are those with the numbers in the span, as long as the text has that many
(`Fault.label?_eq`). Both take the offsets of the span for numbers of characters.
-/

namespace FunLanguage

namespace Text

/-- The lines that are shown, in order, are the whole text. -/
theorem flatten_shownLines (cs : List Char) : (shownLines cs).flatten = cs := by
  induction cs using shownLines.induct with
  | case1 => rfl
  | case2 cs ih => simp [shownLines, ih]
  | case3 c cs other ends ih =>
    rw [shownLines, if_pos ends, List.flatten_cons, ih, List.singleton_append]
    exact other
  | case4 c cs other stays none ih =>
    rw [shownLines, if_neg stays, none]
    · rw [none] at ih
      rw [← ih]
      rfl
    · exact other
  | case5 c cs other stays line lines more ih =>
    rw [shownLines, if_neg stays, more]
    · rw [more] at ih
      rw [← ih]
      rfl
    · exact other

/-- The character at an offset is shown on the line with a number, at a column, both counted from 1.
The end of the text is shown behind the last line. -/
def ShownAt (cs : List Char) (offset number column : Nat) : Prop :=
  ∃ above line below, shownLines cs = above ++ line :: below ∧ number = above.length + 1 ∧
    above.flatten.length + column = offset + 1 ∧ 1 ≤ column ∧
    (column ≤ line.length ∨ below = [] ∧ column = line.length + 1)

end Text

namespace ShownLine

/-- The line is one of the lines, behind the ones above it. -/
def Of (lines : List (List Char)) (l : ShownLine) : Prop :=
  ∃ above line below, lines = above ++ line :: below ∧
    l = ⟨above.length + 1, above.flatten.length, above.flatten.length + line.length⟩

variable {lines : List (List Char)} {l l' : ShownLine} {number start offset : Nat}

theorem Of.stop_le (h : Of lines l) : l.stop ≤ lines.flatten.length := by
  obtain ⟨above, line, below, rfl, rfl⟩ := h
  simp

/-- Lines are told apart by their numbers. -/
theorem Of.eq_of_number (h : Of lines l) (h' : Of lines l') (same : l.number = l'.number) :
    l = l' := by
  obtain ⟨above, line, below, rfl, rfl⟩ := h
  obtain ⟨above', line', below', whole, rfl⟩ := h'
  obtain ⟨rfl, rest⟩ := List.append_inj whole (Nat.succ_inj.mp same)
  obtain ⟨rfl, -⟩ := List.cons.inj rest
  rfl

/-- A line is found for every offset from the start of the lines to their end. -/
theorem exists_find? (some : lines ≠ []) (ge : start ≤ offset)
    (le : offset ≤ start + lines.flatten.length) : ∃ above line below,
      lines = above ++ line :: below ∧
      find? number start offset lines = .some ⟨number + above.length, start + above.flatten.length,
        start + above.flatten.length + line.length⟩ ∧
      start + above.flatten.length ≤ offset ∧
      (offset < start + above.flatten.length + line.length ∨
        below = [] ∧ offset = start + above.flatten.length + line.length) := by
  induction lines generalizing number start with
  | nil => exact absurd rfl some
  | cons line lines ih =>
    rcases lines with _ | ⟨second, lines⟩
    · have last : offset ≤ start + line.length := by simpa using le
      refine ⟨[], line, [], rfl, ?_, ge, ?_⟩
      · rw [find?, if_pos last]
        rfl
      · rcases Nat.lt_or_eq_of_le last with inside | here
        · exact .inl inside
        · exact .inr ⟨rfl, here⟩
    · rw [find?]
      · by_cases inside : offset < start + line.length
        · exact ⟨[], line, second :: lines, rfl, if_pos inside, ge, .inl inside⟩
        · obtain ⟨above, line', below, whole, found, low, high⟩ :=
            @ih (number + 1) (start + line.length) nofun (Nat.le_of_not_lt inside)
              (by rw [List.flatten_cons, List.length_append] at le; omega)
          refine ⟨line :: above, line', below, by rw [whole, List.cons_append], ?_⟩
          rw [if_neg inside, found]
          simp only [List.length_cons, List.flatten_cons, List.length_append]
          refine ⟨?_, by omega, ?_⟩
          · simp only [Option.some.injEq, mk.injEq]
            omega
          · rcases high with high | ⟨none, high⟩
            · exact .inl (by omega)
            · exact .inr ⟨none, by omega⟩
      · exact nofun

/-- No line is found for an offset behind the end. -/
theorem find?_eq_none (gt : start + lines.flatten.length < offset) :
    find? number start offset lines = none := by
  induction lines generalizing number start with
  | nil => rfl
  | cons line lines ih =>
    rw [List.flatten_cons, List.length_append] at gt
    rcases lines with _ | ⟨second, lines⟩
    · rw [find?, if_neg (by omega)]
    · rw [find?, if_neg (by omega)]
      · exact ih (by omega)
      · exact nofun

/-- The line found for an offset in a text, and the place of the character there. -/
theorem exists_find?_shownLines {cs : List Char} (nonempty : cs ≠ []) (le : offset ≤ cs.length) :
    ∃ l, find? 1 0 offset (Text.shownLines cs) = some l ∧ Of (Text.shownLines cs) l ∧
      (offset < cs.length → offset < l.stop) ∧
      Text.ShownAt cs offset l.number (offset - l.start + 1) := by
  have flat := Text.flatten_shownLines cs
  have some : Text.shownLines cs ≠ [] := by
    intro none
    rw [none] at flat
    exact nonempty flat.symm
  obtain ⟨above, line, below, whole, found, low, high⟩ :=
    @exists_find? _ 1 0 offset some (Nat.zero_le _) (by rw [flat, Nat.zero_add]; exact le)
  simp only [Nat.zero_add] at found low high
  refine ⟨_, found, ⟨above, line, below, whole, by rw [Nat.add_comm 1]⟩, fun lt => ?_,
    above, line, below, whole, Nat.add_comm .., by simp only; omega, by simp only; omega, ?_⟩
  · rcases high with high | ⟨rfl, here⟩
    · exact high
    · rw [← flat, whole] at lt
      simp only [List.flatten_append, List.flatten_singleton, List.length_append] at lt
      omega
  · rcases high with high | ⟨none, here⟩
    · exact .inl (by simp only; omega)
    · exact .inr ⟨none, by simp only; omega⟩

end ShownLine

namespace Fault

variable {fault : Fault} {source : String} {filename? : Option String}

/-- The location is that of the character whose number is the start of the span. -/
theorem exists_location? (nonempty : source.toList ≠ [])
    (proper : (fault.span source).start < (fault.span source).stop)
    (le : (fault.span source).stop ≤ source.length + 1) :
    ∃ number column, Text.ShownAt source.toList (fault.span source).start number column ∧
      (fault.diagnostic source filename?).location? = some (filename?.getD "<input>" ++ ":" ++
        toString number ++ ":" ++ toString column) := by
  have length : source.toList.length = source.length := String.length_toList
  obtain ⟨first, found, -, -, shown⟩ :=
    @ShownLine.exists_find?_shownLines (fault.span source).start _ nonempty (by omega)
  obtain ⟨last, found', -⟩ :=
    @ShownLine.exists_find?_shownLines ((fault.span source).stop - 1) _ nonempty (by omega)
  refine ⟨_, _, shown, ?_⟩
  simp only [diagnostic, found, found', if_pos proper]

/-- Only the headline is shown of a fault whose span reaches further than the end of the text. -/
theorem diagnostic_of_lt (proper : (fault.span source).start < (fault.span source).stop)
    (lt : source.length + 1 < (fault.span source).stop) :
    fault.diagnostic source filename? = { headline := fault.headline } := by
  have length : source.toList.length = source.length := String.length_toList
  have none : ShownLine.find? 1 0 ((fault.span source).stop - 1)
      (Text.shownLines source.toList) = none :=
    ShownLine.find?_eq_none (by rw [Text.flatten_shownLines]; omega)
  simp only [diagnostic, none, if_pos proper]
  split
  · next same => cases same
  · rfl

/-- The characters with the numbers in the span are marked if the text has that many. -/
theorem label?_eq (proper : (fault.span source).start < (fault.span source).stop) :
    (fault.diagnostic source filename?).label? =
      if (fault.span source).stop ≤ source.length then some ⟨fault.span source, fault.label⟩
      else none := by
  have length : source.toList.length = source.length := String.length_toList
  rcases Nat.lt_or_ge (source.length + 1) (fault.span source).stop with lt | le
  · rw [diagnostic_of_lt proper lt, if_neg (by omega)]
  · by_cases nonempty : source.toList = []
    · rw [nonempty, List.length_nil] at length
      rw [if_neg (by omega)]
      simp only [diagnostic, nonempty, Text.shownLines, ShownLine.find?]
    · obtain ⟨first, found, isFirst, -⟩ :=
        @ShownLine.exists_find?_shownLines (fault.span source).start _ nonempty (by omega)
      obtain ⟨last, found', isLast, within, -⟩ :=
        @ShownLine.exists_find?_shownLines ((fault.span source).stop - 1) _ nonempty (by omega)
      have stop_le := isFirst.stop_le
      rw [Text.flatten_shownLines] at stop_le
      simp only [diagnostic, found, found', if_pos proper]
      by_cases same : first.number = last.number
      · obtain rfl := isFirst.eq_of_number isLast same
        simp only [if_pos, decide_eq_true_eq]
        congr 1
        exact propext ⟨by omega, by omega⟩
      · simp only [if_neg same, decide_eq_true_eq]
        congr 1
        exact propext ⟨by omega, by omega⟩

end Fault

/-- The diagnostic marks characters: they are among those that its label is put at. -/
def Diagnostic.Marks (d : Diagnostic) (characters : Span) : Prop :=
  ∃ label, d.label? = some label ∧ characters.Within label.place

theorem Fault.marks_iff {fault : Fault} {source : String} {filename? : Option String}
    (proper : (fault.span source).start < (fault.span source).stop) (characters : Span) :
    (fault.diagnostic source filename?).Marks characters ↔
      (fault.span source).stop ≤ source.length ∧ characters.Within (fault.span source) := by
  rw [Diagnostic.Marks, label?_eq proper]
  constructor
  · rintro ⟨label, shown, within⟩
    obtain ⟨le, same⟩ := Option.ite_none_right_eq_some.mp shown
    cases same
    exact ⟨le, within⟩
  · rintro ⟨le, within⟩
    exact ⟨_, if_pos le, within⟩

end FunLanguage
