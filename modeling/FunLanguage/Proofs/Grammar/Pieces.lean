import Mathlib.Data.List.TakeWhile
import FunLanguage.Proofs.Grammar.Lexemes

/-!
# What stands at the front of a text

Every piece of a text has a form: it is a blank, a comment, or a lexeme of some kind (`Piece.Form`).
Of all the forms that a text starts with, the longest is cut off (`Piece.cut_eq_ok_iff`), and it is
only one. Nothing is cut off if no form stands there, or if the longest is an integer that is too
large (`Piece.cut_eq_error_iff`).

Where a run of characters ends, and that a comment goes before a slash and a sign of two characters
before one of one, all comes from that rule.
-/

namespace FunLanguage

open Text (int32? int32Limit)

namespace Piece

/-! ## Forms -/

/-- What a text can be cut into, whatever is around it. A word is an identifier unless it is
reserved. -/
inductive Form : Piece → Prop
  | blank {c} (blank : isBlank c = true) : Form (.gap [c])
  | comment {text} (oneLine : '\n' ∉ text) : Form (.gap ('/' :: '/' :: text))
  | integer {c cs} (digits : ∀ d ∈ c :: cs, d.isDigit = true) :
      Form (.lexeme .integer (c :: cs))
  | word {c cs} (start : isWordStart c = true) (parts : ∀ d ∈ cs, isWordPart d = true) :
      Form (.lexeme (.ofWord (String.ofList (c :: cs))) (c :: cs))
  | sign {c kind} (sign : TokenKind.ofSign? c = some kind) : Form (.lexeme kind [c])
  | doubleSign {c d kind} (sign : TokenKind.ofDoubleSign? c d = some kind) :
      Form (.lexeme kind [c, d])

/-- The text starts with nothing longer that has a form. -/
def Longest (piece : Piece) (rest : List Char) : Prop :=
  ∀ other : Piece, other.Form → other.text <+: piece.text ++ rest →
    other.text.length ≤ piece.text.length

/-- If the piece is made of digits, then of those of a signed 32-bit value. -/
def Fits (piece : Piece) : Prop :=
  (∀ d ∈ piece.text, d.isDigit = true) → Nat.ofDigitChars 10 piece.text 0 ≤ int32Limit

/-- The piece is what is cut off, or would be if it were not too large. -/
inductive Leads (c : Char) (cs : List Char) : Piece → Prop
  | fits {piece rest} : cut c cs = .ok (piece, rest) → Leads c cs piece
  | tooLarge {digits} : cut c cs = .error ⟨.integerOutOfRange (String.ofList digits), digits⟩ →
      Leads c cs (.lexeme .integer digits)

end Piece

/-- The obstacle is at the front of the text: a character that no form starts with, or the longest
form, which is an integer that is too large. -/
inductive Obstacle.Blocks : Obstacle → List Char → Prop
  | unexpected {c cs} (none : ∀ piece : Piece, piece.Form → ¬ piece.text <+: c :: cs) :
      Blocks ⟨.unexpectedCharacter c, [c]⟩ (c :: cs)
  | outOfRange {digits rest} (form : (Piece.lexeme .integer digits).Form)
      (longest : (Piece.lexeme .integer digits).Longest rest)
      (large : ¬ (Piece.lexeme .integer digits).Fits) :
      Blocks ⟨.integerOutOfRange (String.ofList digits), digits⟩ (digits ++ rest)

namespace Piece

variable {c : Char} {cs rest : List Char} {piece : Piece} {obstacle : Obstacle}

theorem Form.text_ne_nil (form : piece.Form) : piece.text ≠ [] := by
  cases form <;> nofun

theorem fits_of_not_isDigit (first : piece.text.head? = some c) (h : c.isDigit = false) :
    piece.Fits := by
  obtain ⟨cs, same⟩ := List.head?_eq_some_iff.mp first
  intro all
  rw [same] at all
  rw [all c List.mem_cons_self] at h
  cases h

theorem isSome_int32?_iff (digits : ∀ d ∈ c :: cs, d.isDigit = true) :
    (int32? (c :: cs)).isSome = true ↔ (lexeme .integer (c :: cs)).Fits := by
  have value : Text.natural? (c :: cs) = some (Nat.ofDigitChars 10 (c :: cs) 0) :=
    Text.natural?_eq_some_iff.mpr (Text.digits_of_isDigit (List.cons_ne_nil c cs) digits)
  rw [int32?_of_digits digits, Option.isSome_map, Text.naturalUpTo?, value, Option.filter_some]
  simp only [Fits, text, forall_prop_of_true digits, decide_eq_true_eq]
  split
  · next small => exact iff_of_true rfl small
  · next large => exact iff_of_false Bool.false_ne_true large

/-! ## What is cut off -/

theorem cut_blank (h : isBlank c = true) (cs : List Char) : cut c cs = .ok (gap [c], cs) := by
  rw [cut, if_pos h]

theorem cut_digit (h : c.isDigit = true) (cs : List Char) :
    cut c cs = if (int32? (c :: cs.takeWhile Char.isDigit)).isSome then
      .ok (lexeme .integer (c :: cs.takeWhile Char.isDigit), cs.dropWhile Char.isDigit)
    else .error ⟨.integerOutOfRange (String.ofList (c :: cs.takeWhile Char.isDigit)),
      c :: cs.takeWhile Char.isDigit⟩ := by
  simp only [cut, not_isBlank_of_isDigit h, h, Bool.false_eq_true, if_false, if_true]

theorem cut_word (h : isWordStart c = true) (cs : List Char) :
    cut c cs = .ok (lexeme (.ofWord (String.ofList (c :: cs.takeWhile isWordPart)))
      (c :: cs.takeWhile isWordPart), cs.dropWhile isWordPart) := by
  simp only [cut, not_isBlank_of_isWordStart h, not_isDigit_of_isWordStart h, h,
    Bool.false_eq_true, if_false, if_true]

theorem cut_comment (cs : List Char) :
    cut '/' ('/' :: cs) = .ok (gap ('/' :: '/' :: cs.takeWhile (· != '\n')),
      cs.dropWhile (· != '\n')) := by
  have slash : isBlank '/' = false ∧ '/'.isDigit = false ∧ isWordStart '/' = false := by decide
  simp [cut, slash]

theorem cut_doubleSign {d : Char} {kind : TokenKind} (h : TokenKind.ofDoubleSign? c d = some kind)
    (cs : List Char) : cut c (d :: cs) = .ok (lexeme kind [c, d], cs) := by
  obtain ⟨blank, digit, word, -, slash⟩ := TokenKind.ofDoubleSign?_other h
  simp [cut, blank, digit, word, slash, h]

/-- A sign is cut off alone unless it starts a comment or a sign of two characters. -/
theorem cut_sign {kind : TokenKind} (h : TokenKind.ofSign? c = some kind) (cs : List Char) :
    ∃ piece rest, cut c cs = .ok (piece, rest) ∧
      (lexeme kind [c] = piece ∨ 1 < piece.text.length) := by
  obtain ⟨blank, digit, word⟩ := TokenKind.ofSign?_other h
  by_cases comment : c = '/' ∧ cs.head? = some '/'
  · obtain ⟨rfl, second⟩ := comment
    obtain ⟨cs, rfl⟩ := List.head?_eq_some_iff.mp second
    exact ⟨_, _, cut_comment cs, .inr (by simp [text])⟩
  · cases double : cs.head?.bind (TokenKind.ofDoubleSign? c) with
    | none => exact ⟨lexeme kind [c], cs, by simp [cut, blank, digit, word, comment, double, h],
        .inl rfl⟩
    | some kind' =>
      obtain ⟨d, second, double⟩ := Option.bind_eq_some_iff.mp double
      obtain ⟨cs, rfl⟩ := List.head?_eq_some_iff.mp second
      exact ⟨_, _, cut_doubleSign double cs, .inr (by simp [text])⟩

/-- What comes of cutting. The cases are those of `cut`: a blank, digits, a word, a comment, a sign
of two characters, a sign of one, or nothing. -/
theorem cut_cases (c : Char) (cs : List Char) :
    (∃ piece rest, cut c cs = .ok (piece, rest) ∧ piece.Form ∧ piece.Fits) ∨
    (∃ digits rest, cut c cs = .error ⟨.integerOutOfRange (String.ofList digits), digits⟩ ∧
      c :: cs = digits ++ rest ∧ (lexeme .integer digits).Form ∧
      ¬ (lexeme .integer digits).Fits) ∨
    cut c cs = .error ⟨.unexpectedCharacter c, [c]⟩ := by
  by_cases blank : isBlank c = true
  · exact .inl ⟨_, _, cut_blank blank cs, .blank blank,
      fits_of_not_isDigit rfl (not_isDigit_of_isBlank blank)⟩
  by_cases digit : c.isDigit = true
  · have digits : ∀ d ∈ c :: cs.takeWhile Char.isDigit, d.isDigit = true :=
      List.forall_mem_cons.mpr ⟨digit, fun _ => List.mem_takeWhile_imp⟩
    by_cases small : (int32? (c :: cs.takeWhile Char.isDigit)).isSome = true
    · exact .inl ⟨_, _, by rw [cut_digit digit, if_pos small], .integer digits,
        (isSome_int32?_iff digits).mp small⟩
    · refine .inr (.inl ⟨_, cs.dropWhile Char.isDigit, by rw [cut_digit digit, if_neg small], ?_,
        .integer digits, fun fits => small ((isSome_int32?_iff digits).mpr fits)⟩)
      rw [List.cons_append, List.takeWhile_append_dropWhile]
  have no_digit : c.isDigit = false := Bool.eq_false_iff.mpr digit
  by_cases word : isWordStart c = true
  · exact .inl ⟨_, _, cut_word word cs, .word word fun _ => List.mem_takeWhile_imp,
      fits_of_not_isDigit rfl no_digit⟩
  by_cases comment : c = '/' ∧ cs.head? = some '/'
  · obtain ⟨rfl, second⟩ := comment
    obtain ⟨cs, rfl⟩ := List.head?_eq_some_iff.mp second
    refine .inl ⟨_, _, cut_comment cs, .comment fun mem => ?_, fits_of_not_isDigit rfl no_digit⟩
    simpa using List.mem_takeWhile_imp mem
  rw [cut, if_neg blank, if_neg digit, if_neg word, if_neg comment]
  split
  · next kind double =>
    obtain ⟨d, second, double⟩ := Option.bind_eq_some_iff.mp double
    obtain ⟨cs, rfl⟩ := List.head?_eq_some_iff.mp second
    exact .inl ⟨_, _, rfl, .doubleSign double, fits_of_not_isDigit rfl no_digit⟩
  · next kind _ sign => exact .inl ⟨_, _, rfl, .sign sign, fits_of_not_isDigit rfl no_digit⟩
  · exact .inr (.inr rfl)

/-- What is cut off has a form, and is not too large. -/
theorem cut_form (h : cut c cs = .ok (piece, rest)) : piece.Form ∧ piece.Fits := by
  obtain ⟨_, _, cut, spec⟩ | ⟨_, _, cut, -⟩ | cut := cut_cases c cs
  · cases cut.symm.trans h
    exact spec
  · cases cut.symm.trans h
  · cases cut.symm.trans h

/-- If nothing can be cut off, it is because of an integer that is too large or of the character. -/
theorem cut_error (h : cut c cs = .error obstacle) :
    (∃ digits rest, obstacle = ⟨.integerOutOfRange (String.ofList digits), digits⟩ ∧
      c :: cs = digits ++ rest ∧ (lexeme .integer digits).Form ∧
      ¬ (lexeme .integer digits).Fits) ∨
    obstacle = ⟨.unexpectedCharacter c, [c]⟩ := by
  obtain ⟨_, _, cut, -⟩ | ⟨digits, rest, cut, spec⟩ | cut := cut_cases c cs
  · cases cut.symm.trans h
  · exact .inl ⟨digits, rest, (Except.error.inj (cut.symm.trans h)).symm, spec⟩
  · exact .inr (Except.error.inj (cut.symm.trans h)).symm

/-! ## The longest form -/

/-- A run of characters that goes on is a part of the whole run. -/
theorem run_eq_or_shorter {p : Char → Bool} {run : List Char} (all : ∀ d ∈ run, p d = true)
    (front : run <+: cs) : run = cs.takeWhile p ∨ run.length < (cs.takeWhile p).length := by
  obtain ⟨after, rfl⟩ := front
  rw [List.takeWhile_append_of_pos all]
  cases after.takeWhile p with
  | nil => exact .inl (List.append_nil run).symm
  | cons d ds => exact .inr (by simp)

/-- Whatever form the text starts with is the piece that leads, or is shorter. -/
theorem Form.eq_or_shorter {other : Piece} (form : other.Form) (front : other.text <+: c :: cs) :
    ∃ piece, Leads c cs piece ∧ (other = piece ∨ other.text.length < piece.text.length) := by
  cases form with
  | @blank b blank =>
    obtain ⟨rfl, -⟩ := List.cons_prefix_cons.mp front
    exact ⟨_, .fits (cut_blank blank cs), .inl rfl⟩
  | @comment body oneLine =>
    obtain ⟨rfl, tail⟩ := List.cons_prefix_cons.mp front
    obtain ⟨after, rfl⟩ := tail
    refine ⟨_, .fits (cut_comment (body ++ after)), ?_⟩
    have all : ∀ d ∈ body, (d != '\n') = true := fun d mem =>
      bne_iff_ne.mpr fun same => oneLine (same ▸ mem)
    obtain same | shorter := run_eq_or_shorter all (List.prefix_append body after)
    · exact .inl (by rw [← same])
    · exact .inr (by simpa [text] using shorter)
  | @integer d ds digits =>
    obtain ⟨rfl, tail⟩ := List.cons_prefix_cons.mp front
    obtain ⟨digit, others⟩ := List.forall_mem_cons.mp digits
    -- the whole run leads also if it is too large: no part of it is cut off in its place
    have leads : Leads d cs (.lexeme .integer (d :: cs.takeWhile Char.isDigit)) := by
      by_cases small : (int32? (d :: cs.takeWhile Char.isDigit)).isSome = true
      · exact .fits (by rw [cut_digit digit, if_pos small])
      · exact .tooLarge (by rw [cut_digit digit, if_neg small])
    refine ⟨_, leads, ?_⟩
    obtain same | shorter := run_eq_or_shorter others tail
    · exact .inl (by rw [← same])
    · exact .inr (Nat.succ_lt_succ shorter)
  | @word d ds start parts =>
    obtain ⟨rfl, tail⟩ := List.cons_prefix_cons.mp front
    refine ⟨_, .fits (cut_word start cs), ?_⟩
    obtain same | shorter := run_eq_or_shorter parts tail
    · exact .inl (by rw [← same])
    · exact .inr (Nat.succ_lt_succ shorter)
  | @sign d kind sign =>
    obtain ⟨rfl, -⟩ := List.cons_prefix_cons.mp front
    obtain ⟨piece, rest, cut, longer⟩ := cut_sign sign cs
    exact ⟨piece, .fits cut, longer⟩
  | @doubleSign d e kind sign =>
    obtain ⟨rfl, tail⟩ := List.cons_prefix_cons.mp front
    obtain ⟨cs, rfl⟩ := tail
    exact ⟨_, .fits (cut_doubleSign sign cs), .inl rfl⟩

theorem Leads.form_prefix (h : Leads c cs piece) : piece.Form ∧ piece.text <+: c :: cs := by
  cases h with
  | @fits _ rest cut => exact ⟨(cut_form cut).1, rest, cut_text cut⟩
  | tooLarge cut =>
    obtain ⟨digits, rest, same, whole, form, -⟩ | none := cut_error cut
    · obtain rfl := congrArg Obstacle.text same
      exact ⟨form, rest, whole.symm⟩
    · cases none

theorem Leads.unique {other : Piece} (h : Leads c cs piece) (h' : Leads c cs other) :
    piece = other := by
  cases h with
  | fits cut =>
    cases h' with
    | fits cut' =>
      cases cut.symm.trans cut'
      rfl
    | tooLarge cut' => cases cut.symm.trans cut'
  | tooLarge cut =>
    cases h' with
    | fits cut' => cases cut.symm.trans cut'
    | tooLarge cut' =>
      have same := Except.error.inj (cut.symm.trans cut')
      exact congrArg (fun obstacle => lexeme .integer obstacle.text) same

/-- The piece that leads is the longest form that the text starts with. -/
theorem leads_iff (whole : c :: cs = piece.text ++ rest) :
    Leads c cs piece ↔ piece.Form ∧ piece.Longest rest := by
  constructor
  · intro leads
    refine ⟨leads.form_prefix.1, fun other form front => ?_⟩
    rw [← whole] at front
    obtain ⟨first, leads', same | shorter⟩ := form.eq_or_shorter front
    · rw [same, leads.unique leads']
    · rw [leads.unique leads']
      exact Nat.le_of_lt shorter
  · rintro ⟨form, longest⟩
    obtain ⟨first, leads, same | shorter⟩ := form.eq_or_shorter ⟨rest, whole.symm⟩
    · rwa [same]
    · obtain ⟨form', front⟩ := leads.form_prefix
      rw [whole] at front
      exact absurd (longest first form' front) (Nat.not_le_of_lt shorter)

/-- What is cut off is the longest form, if it is not too large. -/
theorem cut_eq_ok_iff : cut c cs = .ok (piece, rest) ↔
    c :: cs = piece.text ++ rest ∧ piece.Form ∧ piece.Longest rest ∧ piece.Fits := by
  constructor
  · intro h
    have whole := (cut_text h).symm
    obtain ⟨form, longest⟩ := (leads_iff whole).mp (.fits h)
    exact ⟨whole, form, longest, (cut_form h).2⟩
  · rintro ⟨whole, form, longest, fits⟩
    cases (leads_iff whole).mpr ⟨form, longest⟩ with
    | @fits _ rest' cut =>
      have same := (cut_text cut).trans whole
      rw [cut, List.append_cancel_left same]
    | tooLarge cut =>
      obtain ⟨digits, rest, same, -, -, large⟩ | none := cut_error cut
      · obtain rfl := congrArg Obstacle.text same
        exact absurd fits large
      · cases none

/-- Nothing is cut off in front of an obstacle. -/
theorem cut_eq_error_iff : cut c cs = .error obstacle ↔ obstacle.Blocks (c :: cs) := by
  constructor
  · intro h
    obtain ⟨digits, rest, rfl, whole, form, large⟩ | rfl := cut_error h
    · obtain ⟨-, longest⟩ := (leads_iff whole).mp (.tooLarge h)
      rw [whole]
      exact .outOfRange form longest large
    · refine .unexpected fun piece form front => ?_
      obtain ⟨first, leads, -⟩ := form.eq_or_shorter front
      cases leads with
      | fits cut => cases cut.symm.trans h
      | tooLarge cut => cases cut.symm.trans h
  · intro blocks
    generalize whole : c :: cs = text at blocks
    cases blocks with
    | unexpected none =>
      cases whole
      cases cut : Piece.cut c cs with
      | ok first =>
        obtain ⟨form, front⟩ := Leads.form_prefix (.fits cut)
        exact absurd front (none _ form)
      | error obstacle =>
        obtain ⟨digits, rest, rfl, whole, form, -⟩ | rfl := cut_error cut
        · exact absurd ⟨rest, whole.symm⟩ (none _ form)
        · rfl
    | outOfRange form longest large =>
      cases (leads_iff whole).mpr ⟨form, longest⟩ with
      | fits cut => exact absurd (cut_form cut).2 large
      | tooLarge cut => exact cut

end Piece

end FunLanguage
