import FunLanguage.Command
import FunLanguage.Proofs.Splitting

/-!
# Parts of a line that white space keeps apart

A line is laid out in parts (`Input.LaidOut`): white space may stand before the first part and
behind the last, and some must stand between two parts. The reader of words takes off the first part
if this is a word (`Input.laidOut_word_iff`), and what is left on the line without the white space
around it is a part with white space inside (`Input.remainder_eq_iff_laidOut`). Every line is laid
out in words (`Input.exists_words`).
-/

namespace FunLanguage.Input

open Text (dropWhile_of_head? of_mem_head?_dropWhile rdropWhile_append_of_pos)
open Unicode (isWhiteSpace)

/-! ## Blanks and words -/

/-- The text is nothing but white space. -/
def IsBlank (cs : List Char) : Prop :=
  ∀ c ∈ cs, isWhiteSpace c = true

/-- The text is empty or starts with white space. -/
def StartsBlank (cs : List Char) : Prop :=
  ∀ c ∈ cs.head?, isWhiteSpace c = true

/-- The text is not empty, and none of it is white space. -/
structure IsWord (cs : List Char) : Prop where
  ne_nil : cs ≠ []
  solid : ∀ c ∈ cs, isWhiteSpace c = false

/-- There is no white space at the ends of the text. -/
structure Trimmed (cs : List Char) : Prop where
  first : ∀ c ∈ cs.head?, isWhiteSpace c = false
  last : ∀ c ∈ cs.getLast?, isWhiteSpace c = false

theorem isBlank_nil : IsBlank [] :=
  nofun

theorem isWord_iff {cs : List Char} : IsWord cs ↔ cs ≠ [] ∧ cs.any isWhiteSpace = false := by
  rw [List.any_eq_false]
  constructor
  · rintro ⟨nonempty, solid⟩
    exact ⟨nonempty, fun c mem => by simp [solid c mem]⟩
  · rintro ⟨nonempty, solid⟩
    exact ⟨nonempty, fun c mem => by simpa using solid c mem⟩

instance (cs : List Char) : Decidable (IsWord cs) :=
  decidable_of_iff' _ isWord_iff

theorem IsBlank.startsBlank {cs : List Char} (blank : IsBlank cs) : StartsBlank cs :=
  fun c mem => blank c (List.mem_of_mem_head? mem)

/-- Of the characters of ASCII only control characters and the space are white space. -/
theorem isWhiteSpace_eq_false {c : Char} (low : 0x20 < c.toNat) (high : c.toNat < 0x80) :
    isWhiteSpace c = false := by
  refine Bool.eq_false_iff.mpr fun blank => ?_
  obtain ⟨r, mem, start, stop⟩ := Unicode.CodeTable.contains_iff.mp blank
  simp only [Unicode.whiteSpace, List.mem_cons, List.not_mem_nil, or_false] at mem
  rcases mem with rfl | rfl | rfl | rfl | rfl | rfl | rfl | rfl | rfl | rfl <;>
    simp only at start stop <;> omega

theorem hasMore_eq_false_iff {cs : List Char} : hasMore cs = false ↔ IsBlank cs := by
  simp [hasMore, IsBlank]

/-! ## The first word -/

/-- The first word of the text is `word`, and `rest` stands behind it. -/
def FirstWord (cs word rest : List Char) : Prop :=
  IsWord word ∧ StartsBlank rest ∧ ∃ blank, IsBlank blank ∧ cs = blank ++ word ++ rest

theorem word?_eq_none_iff {cs : List Char} : word? cs = none ↔ IsBlank cs := by
  rw [IsBlank, ← List.dropWhile_eq_nil_iff, word?]
  split
  · next empty => exact iff_of_true rfl empty
  · next start =>
    rw [start]
    exact iff_of_false (Option.some_ne_none _) (List.cons_ne_nil _ _)

/-- A word in front of white space or the end is taken whole. -/
theorem takeWhile_word {word rest : List Char} (isWord : IsWord word) (behind : StartsBlank rest) :
    (word ++ rest).takeWhile (!isWhiteSpace ·) = word := by
  rw [List.takeWhile_append_of_pos (by simpa using isWord.solid)]
  cases rest with
  | nil => exact List.append_nil word
  | cons c rest =>
    have blank : isWhiteSpace c = true := behind c rfl
    rw [List.takeWhile_cons_of_neg (by simp [blank]), List.append_nil]

theorem dropWhile_word {word rest : List Char} (isWord : IsWord word) (behind : StartsBlank rest) :
    (word ++ rest).dropWhile (!isWhiteSpace ·) = rest := by
  rw [List.dropWhile_append_of_pos (by simpa using isWord.solid)]
  exact dropWhile_of_head? fun c mem => by simp [behind c mem]

theorem word?_eq_some_iff {cs word rest : List Char} :
    word? cs = some (word, rest) ↔ FirstWord cs word rest := by
  constructor
  · intro read
    rw [word?] at read
    split at read
    · cases read
    · next c cs' start =>
      cases read
      have solid : isWhiteSpace c = false := of_mem_head?_dropWhile (by rw [start]; rfl)
      refine ⟨⟨?_, fun d mem => ?_⟩, fun d mem => ?_, cs.takeWhile isWhiteSpace, fun d mem => ?_,
        ?_⟩
      · rw [List.takeWhile_cons_of_pos (by simp [solid])]
        exact List.cons_ne_nil _ _
      · simpa using List.mem_takeWhile_imp mem
      · simpa using of_mem_head?_dropWhile mem
      · exact List.mem_takeWhile_imp mem
      · rw [List.append_assoc, List.takeWhile_append_dropWhile, ← start,
          List.takeWhile_append_dropWhile]
  · rintro ⟨isWord, behind, blank, before, rfl⟩
    obtain ⟨c, word, rfl⟩ := List.exists_cons_of_ne_nil isWord.ne_nil
    have skipped : (blank ++ (c :: word) ++ rest).dropWhile isWhiteSpace = c :: (word ++ rest) := by
      rw [List.append_assoc, List.dropWhile_append_of_pos before]
      refine dropWhile_of_head? fun d mem => ?_
      cases mem
      exact isWord.solid c List.mem_cons_self
    rw [word?, skipped]
    dsimp only
    rw [← List.cons_append, takeWhile_word isWord behind, dropWhile_word isWord behind]

/-- Behind the first word, less of the text is left. -/
theorem FirstWord.length_lt {cs word rest : List Char} (first : FirstWord cs word rest) :
    rest.length < cs.length := by
  obtain ⟨isWord, -, blank, -, rfl⟩ := first
  have := List.length_pos_of_ne_nil isWord.ne_nil
  simp only [List.length_append]
  omega

/-! ## Texts without the white space around them -/

/-- What is left of a text that is trimmed is trimmed, and only white space has gone. -/
theorem trim_eq_iff {cs text : List Char} :
    Text.trim isWhiteSpace cs = text ↔
      Trimmed text ∧ ∃ before behind, IsBlank before ∧ IsBlank behind ∧
        cs = before ++ text ++ behind := by
  rw [Text.trim, Text.trimEnd_eq_rdropWhile]
  constructor
  · rintro rfl
    refine ⟨⟨fun c mem => ?_, fun c mem => ?_⟩, cs.takeWhile isWhiteSpace,
      (cs.dropWhile isWhiteSpace).rtakeWhile isWhiteSpace, fun c mem => ?_, fun c mem => ?_, ?_⟩
    · obtain ⟨cut, whole⟩ : (cs.dropWhile isWhiteSpace).rdropWhile isWhiteSpace <+: _ :=
        List.rdropWhile_prefix isWhiteSpace _
      have first : c ∈ (cs.dropWhile isWhiteSpace).head? := by
        rw [← whole, Option.mem_def, List.head?_append, Option.mem_def.mp mem]
        rfl
      exact of_mem_head?_dropWhile first
    · obtain ⟨nonempty, rfl⟩ := List.mem_getLast?_eq_getLast mem
      simpa using List.rdropWhile_last_not isWhiteSpace _ nonempty
    · exact List.mem_takeWhile_imp mem
    · exact List.mem_rtakeWhile_imp mem
    · rw [List.append_assoc, List.rdropWhile_append_rtakeWhile, List.takeWhile_append_dropWhile]
  · rintro ⟨trimmed, before, behind, blank, blank', rfl⟩
    rw [List.append_assoc, List.dropWhile_append_of_pos blank]
    cases text with
    | nil => rw [List.nil_append, List.dropWhile_eq_nil_iff.mpr blank', List.rdropWhile_nil]
    | cons c cs =>
      have starts : (c :: cs ++ behind).dropWhile isWhiteSpace = c :: cs ++ behind :=
        dropWhile_of_head? trimmed.first
      rw [starts, rdropWhile_append_of_pos blank', List.rdropWhile_eq_self_iff]
      intro nonempty
      simpa using trimmed.last _ (List.getLast?_eq_some_getLast nonempty)

theorem remainder_eq_iff {cs : List Char} {text : String} :
    remainder cs = text ↔
      Trimmed text.toList ∧ ∃ before behind, IsBlank before ∧ IsBlank behind ∧
        cs = before ++ text.toList ++ behind := by
  rw [← trim_eq_iff, remainder]
  constructor
  · rintro rfl
    exact String.toList_ofList.symm
  · intro same
    rw [same, String.ofList_toList]

theorem remainder_eq_self_iff {text : String} :
    remainder text.toList = text ↔ Trimmed text.toList := by
  rw [remainder_eq_iff]
  constructor
  · exact And.left
  · intro trimmed
    exact ⟨trimmed, [], [], isBlank_nil, isBlank_nil, by simp⟩

theorem remainder_eq_empty_iff {cs : List Char} : remainder cs = "" ↔ IsBlank cs := by
  rw [remainder_eq_iff]
  constructor
  · rintro ⟨-, before, behind, blank, blank', rfl⟩ c mem
    rw [String.toList_empty, List.append_nil] at mem
    exact (List.mem_append.mp mem).elim (blank c) (blank' c)
  · intro blank
    exact ⟨⟨nofun, nofun⟩, cs, [], blank, isBlank_nil, by simp⟩

/-! ## Layouts -/

/-- The parts stand on the line in this order. White space stands between any two of them, and may
stand before the first and behind the last. -/
inductive LaidOut : List (List Char) → List Char → Prop
  | nil {blank : List Char} (h : IsBlank blank) : LaidOut [] blank
  | cons {blank part rest : List Char} {parts : List (List Char)} (before : IsBlank blank)
      (apart : StartsBlank rest) (behind : LaidOut parts rest) :
      LaidOut (part :: parts) (blank ++ part ++ rest)

theorem laidOut_nil_iff {cs : List Char} : LaidOut [] cs ↔ IsBlank cs := by
  constructor
  · rintro ⟨blank⟩
    exact blank
  · exact .nil

theorem laidOut_cons_iff {part cs : List Char} {parts : List (List Char)} :
    LaidOut (part :: parts) cs ↔
      ∃ blank rest, IsBlank blank ∧ StartsBlank rest ∧ LaidOut parts rest ∧
        cs = blank ++ part ++ rest := by
  constructor
  · rintro (_ | ⟨before, apart, behind⟩)
    exact ⟨_, _, before, apart, behind, rfl⟩
  · rintro ⟨blank, rest, before, apart, behind, rfl⟩
    exact .cons before apart behind

/-- If the first part is a word, then it is the first word of the line. -/
theorem laidOut_word_iff {word cs : List Char} {parts : List (List Char)} (isWord : IsWord word) :
    LaidOut (word :: parts) cs ↔ ∃ rest, word? cs = some (word, rest) ∧ LaidOut parts rest := by
  simp only [laidOut_cons_iff, word?_eq_some_iff, FirstWord]
  constructor
  · rintro ⟨blank, rest, before, apart, behind, whole⟩
    exact ⟨rest, ⟨isWord, apart, blank, before, whole⟩, behind⟩
  · rintro ⟨rest, ⟨-, apart, blank, before, whole⟩, behind⟩
    exact ⟨blank, rest, before, apart, behind, whole⟩

/-- The parts with a space between any two of them are laid out. -/
theorem laidOut_intercalate (parts : List (List Char)) :
    LaidOut parts (List.intercalate [' '] parts) := by
  induction parts with
  | nil => exact .nil isBlank_nil
  | cons part parts ih =>
    cases parts with
    | nil => exact laidOut_cons_iff.mpr ⟨[], [], isBlank_nil, nofun, .nil isBlank_nil, by simp⟩
    | cons next parts =>
      have space : IsBlank [' '] := List.forall_mem_singleton.mpr rfl
      obtain ⟨blank, rest, before, apart, behind, whole⟩ := laidOut_cons_iff.mp ih
      have later : LaidOut (next :: parts) ([' '] ++ List.intercalate [' '] (next :: parts)) := by
        refine laidOut_cons_iff.mpr ⟨[' '] ++ blank, rest, ?_, apart, behind, ?_⟩
        · exact List.forall_mem_append.mpr ⟨space, before⟩
        · rw [whole, List.append_assoc, List.append_assoc, List.append_assoc]
      refine laidOut_cons_iff.mpr ⟨[], _, isBlank_nil, fun c mem => ?_, later, ?_⟩
      · cases mem
        rfl
      · rw [List.intercalate_cons_cons, List.nil_append, List.append_assoc]

/-- The parts of a line that a text makes. The empty text makes none. -/
def textParts (text : String) : List (List Char) :=
  if text = "" then [] else [text.toList]

/-- What is left of a line without the white space around it is the text that is laid out on it. -/
theorem remainder_eq_iff_laidOut {text : String} {cs : List Char} :
    remainder cs = text ↔ Trimmed text.toList ∧ LaidOut (textParts text) cs := by
  by_cases empty : text = ""
  · subst empty
    rw [textParts, if_pos rfl, remainder_eq_empty_iff, laidOut_nil_iff]
    exact ⟨fun blank => ⟨⟨nofun, nofun⟩, blank⟩, And.right⟩
  · rw [textParts, if_neg empty, remainder_eq_iff]
    simp only [laidOut_cons_iff, laidOut_nil_iff]
    constructor
    · rintro ⟨trimmed, blank, rest, before, behind, whole⟩
      exact ⟨trimmed, blank, rest, before, behind.startsBlank, behind, whole⟩
    · rintro ⟨trimmed, blank, rest, before, -, behind, whole⟩
      exact ⟨trimmed, blank, rest, before, behind, whole⟩

/-- By induction on the length of the line, word by word. -/
theorem exists_words (cs : List Char) :
    ∃ words, (∀ word ∈ words, IsWord word) ∧ LaidOut words cs := by
  induction length : cs.length using Nat.strongRecOn generalizing cs with
  | _ n ih =>
    subst length
    cases read : word? cs with
    | none => exact ⟨[], nofun, .nil (word?_eq_none_iff.mp read)⟩
    | some first =>
      obtain ⟨word, rest⟩ := first
      have first := word?_eq_some_iff.mp read
      obtain ⟨words, areWords, behind⟩ := ih rest.length first.length_lt rest rfl
      exact ⟨word :: words, List.forall_mem_cons.mpr ⟨first.1, areWords⟩,
        (laidOut_word_iff first.1).mpr ⟨rest, read, behind⟩⟩

/-- There is more than white space on a line exactly if words are laid out on it. -/
theorem LaidOut.hasMore_iff {words : List (List Char)} {cs : List Char}
    (areWords : ∀ word ∈ words, IsWord word) (layout : LaidOut words cs) :
    hasMore cs = true ↔ words ≠ [] := by
  cases words with
  | nil => simpa using hasMore_eq_false_iff.mpr (laidOut_nil_iff.mp layout)
  | cons word words =>
    obtain ⟨rest, read, -⟩ := (laidOut_word_iff (areWords word List.mem_cons_self)).mp layout
    refine iff_of_true ?_ (List.cons_ne_nil _ _)
    rw [← Bool.not_eq_false, hasMore_eq_false_iff, ← word?_eq_none_iff, read]
    nofun

end FunLanguage.Input
