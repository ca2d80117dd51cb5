import FunLanguage.Proofs.Grammar.Pieces

/-!
# The one cut of a text

To scan a text is to cut it into pieces, each the longest form at its place (`Cuts`), up to the end
or to an obstacle. There is no other way to cut it so (`Cuts.unique`). The tokens are the lexemes
among the pieces, each with the place that it stands at (`Token.StandsIn`).
-/

namespace FunLanguage

open Text (byteLength)

/-! ## Cuts -/

/-- The text is made of the pieces, each the longest form where it stands, and of what is left. -/
inductive Cuts : (text : List Char) → (pieces : List Piece) → (left : List Char) → Prop
  | nothing {text} : Cuts text [] text
  | piece {piece rest pieces left} (form : piece.Form) (longest : piece.Longest rest)
      (fits : piece.Fits) (cuts : Cuts rest pieces left) :
      Cuts (piece.text ++ rest) (piece :: pieces) left

/-- Nothing is left, or only what starts with an obstacle. -/
def IsUncut (left : List Char) : Prop :=
  left = [] ∨ ∃ obstacle : Obstacle, obstacle.Blocks left

/-- The text of the pieces. -/
def Piece.texts (pieces : List Piece) : List Char :=
  pieces.flatMap text

theorem Piece.texts_cons (piece : Piece) (pieces : List Piece) :
    texts (piece :: pieces) = piece.text ++ texts pieces :=
  rfl

theorem Piece.exists_cut {piece : Piece} {rest : List Char} (form : piece.Form)
    (longest : piece.Longest rest) (fits : piece.Fits) :
    ∃ c cs, piece.text ++ rest = c :: cs ∧ cut c cs = .ok (piece, rest) := by
  obtain ⟨c, cs, same⟩ := List.exists_cons_of_ne_nil form.text_ne_nil
  refine ⟨c, cs ++ rest, by rw [same]; rfl, cut_eq_ok_iff.mpr ⟨?_, form, longest, fits⟩⟩
  rw [same]
  rfl

theorem Piece.not_isUncut {piece : Piece} {rest : List Char} (form : piece.Form)
    (longest : piece.Longest rest) (fits : piece.Fits) : ¬ IsUncut (piece.text ++ rest) := by
  obtain ⟨c, cs, whole, cut⟩ := exists_cut form longest fits
  rw [whole]
  rintro (none | ⟨obstacle, blocks⟩)
  · cases none
  · cases cut.symm.trans (cut_eq_error_iff.mpr blocks)

theorem Obstacle.Blocks.ne_nil {obstacle : Obstacle} {text : List Char} (h : obstacle.Blocks text) :
    text ≠ [] := by
  cases h with
  | unexpected => exact List.cons_ne_nil _ _
  | outOfRange form => exact List.append_ne_nil_of_left_ne_nil form.text_ne_nil _

/-- Only one obstacle is at the front of a text. -/
theorem Obstacle.Blocks.unique {obstacle other : Obstacle} {text : List Char}
    (h : obstacle.Blocks text) (h' : other.Blocks text) : obstacle = other := by
  obtain ⟨c, cs, rfl⟩ := List.exists_cons_of_ne_nil h.ne_nil
  exact Except.error.inj
    ((Piece.cut_eq_error_iff.mpr h).symm.trans (Piece.cut_eq_error_iff.mpr h'))

namespace Cuts

variable {text left : List Char} {pieces : List Piece}

theorem texts_append (h : Cuts text pieces left) : Piece.texts pieces ++ left = text := by
  induction h with
  | nothing => rfl
  | piece form longest fits cuts ih => rw [Piece.texts_cons, List.append_assoc, ih]

/-- A text that is cut to its end is made of its pieces. -/
theorem texts_eq (h : Cuts text pieces []) : Piece.texts pieces = text := by
  simpa using h.texts_append

/-- There is only one way to cut a text for as long as it goes. -/
theorem unique {pieces' : List Piece} {left' : List Char} (h : Cuts text pieces left)
    (uncut : IsUncut left) (h' : Cuts text pieces' left') (uncut' : IsUncut left') :
    pieces = pieces' ∧ left = left' := by
  induction h generalizing pieces' with
  | nothing =>
    cases h' with
    | nothing => exact ⟨rfl, rfl⟩
    | piece form longest fits _ => exact absurd uncut (Piece.not_isUncut form longest fits)
  | @piece piece rest pieces left form longest fits cuts ih =>
    generalize whole : piece.text ++ rest = text at h'
    cases h' with
    | nothing => exact absurd (whole ▸ uncut') (Piece.not_isUncut form longest fits)
    | @piece piece' rest' pieces' _ form' longest' fits' cuts' =>
      -- both first pieces are what is cut off the same text
      obtain ⟨c, cs, same, cut⟩ := Piece.exists_cut form longest fits
      obtain ⟨c', cs', same', cut'⟩ := Piece.exists_cut form' longest' fits'
      obtain ⟨rfl, rfl⟩ := List.cons.inj (same.symm.trans (whole.trans same'))
      cases cut.symm.trans cut'
      obtain ⟨rfl, rfl⟩ := ih uncut cuts'
      exact ⟨rfl, rfl⟩

end Cuts

/-! ## Tokens -/

namespace Mark

theorem advance_nil (m : Mark) : m.advance [] = m := by
  simp [advance]

theorem advance_append (m : Mark) (front back : List Char) :
    m.advance (front ++ back) = (m.advance front).advance back := by
  simp [advance, Nat.add_assoc]

end Mark

/-- The tokens of pieces that stand one behind the other from the mark on. -/
def Piece.tokens (m : Mark) : List Piece → List Token
  | [] => []
  | piece :: pieces => (Token.ofPiece? m piece).toList ++ tokens (m.advance piece.text) pieces

/-- The lexeme is the part of the source that the span covers, and the line is where this part
starts. -/
def Token.StandsIn (source : List Char) (t : Token) : Prop :=
  ∃ before after, source = before ++ t.lexeme.toList ++ after ∧
    t.span = ⟨byteLength before, byteLength before + byteLength t.lexeme.toList⟩ ∧
    t.line = 1 + before.count '\n'

theorem Piece.Form.kind_ne_endMark {kind : TokenKind} {text : List Char}
    (form : (Piece.lexeme kind text).Form) : kind ≠ .endMark := by
  cases form with
  | integer => exact nofun
  | word => exact TokenKind.ofWord_ne_endMark _
  | sign sign =>
    rintro rfl
    exact TokenKind.ofSign?_ne_endMark _ sign
  | doubleSign sign =>
    rintro rfl
    exact TokenKind.ofDoubleSign?_ne_endMark _ _ sign

namespace Piece

/-- Every token is that of a lexeme among the pieces, at the place behind the pieces before it. -/
theorem exists_of_mem_tokens {m : Mark} {pieces : List Piece} {t : Token}
    (mem : t ∈ tokens m pieces) : ∃ front kind text back,
      pieces = front ++ lexeme kind text :: back ∧
        t = ⟨kind, String.ofList text, (m.advance (texts front)).spanOf text,
          (m.advance (texts front)).line⟩ := by
  induction pieces generalizing m with
  | nil => cases mem
  | cons piece pieces ih =>
    obtain here | later := List.mem_append.mp mem
    · cases piece with
      | gap text => cases here
      | lexeme kind text =>
        obtain rfl := List.mem_singleton.mp here
        exact ⟨[], kind, text, pieces, rfl, by rw [show texts [] = [] from rfl, m.advance_nil]⟩
    · obtain ⟨front, kind, text, back, rfl, rfl⟩ := ih later
      exact ⟨piece :: front, kind, text, back, rfl, by rw [texts_cons, m.advance_append]⟩

theorem offset_le_start {m : Mark} {pieces : List Piece} {t : Token} (mem : t ∈ tokens m pieces) :
    m.offset ≤ t.span.start := by
  obtain ⟨front, kind, text, back, -, rfl⟩ := exists_of_mem_tokens mem
  exact Nat.le_add_right ..

/-- No token starts before those in front of it have stopped. -/
theorem pairwise_tokens (m : Mark) (pieces : List Piece) :
    (tokens m pieces).Pairwise fun t t' => t.span.stop ≤ t'.span.start := by
  induction pieces generalizing m with
  | nil => exact .nil
  | cons piece pieces ih =>
    cases piece with
    | gap text => exact ih (m.advance text)
    | lexeme kind text => exact .cons (fun t mem => offset_le_start mem) (ih (m.advance text))

/-- Every token is on a line that the pieces come to. -/
theorem line_bounds {m : Mark} {pieces : List Piece} {t : Token} (mem : t ∈ tokens m pieces) :
    m.line ≤ t.line ∧ t.line ≤ (m.advance (texts pieces)).line := by
  obtain ⟨front, kind, text, back, rfl, rfl⟩ := exists_of_mem_tokens mem
  have split : texts (front ++ lexeme kind text :: back) =
      texts front ++ texts (lexeme kind text :: back) := List.flatMap_append
  rw [split, m.advance_append]
  exact ⟨Nat.le_add_right .., Nat.le_add_right ..⟩

/-- No token is on a line above those in front of it. -/
theorem pairwise_lines (m : Mark) (pieces : List Piece) :
    (tokens m pieces).Pairwise fun t t' => t.line ≤ t'.line := by
  induction pieces generalizing m with
  | nil => exact .nil
  | cons piece pieces ih =>
    cases piece with
    | gap text => exact ih (m.advance text)
    | lexeme kind text =>
      refine .cons (fun t mem => ?_) (ih (m.advance text))
      exact Nat.le_trans (Nat.le_add_right ..) (line_bounds mem).1

end Piece

namespace Cuts

variable {source : List Char} {pieces : List Piece} {t : Token}

theorem standsIn (h : Cuts source pieces []) (mem : t ∈ Piece.tokens .origin pieces) :
    t.StandsIn source := by
  obtain ⟨front, kind, text, back, rfl, rfl⟩ := Piece.exists_of_mem_tokens mem
  refine ⟨Piece.texts front, Piece.texts back, ?_, ?_, rfl⟩
  · rw [← h.texts_append, Piece.texts, List.flatMap_append, List.append_nil, String.toList_ofList,
      List.append_assoc]
    rfl
  · simp [Mark.spanOf, Mark.advance, Mark.origin]

theorem form_of_mem {text left : List Char} (h : Cuts text pieces left) {piece : Piece}
    (mem : piece ∈ pieces) : piece.Form := by
  induction h with
  | nothing => cases mem
  | piece form longest fits cuts ih =>
    obtain rfl | later := List.mem_cons.mp mem
    · exact form
    · exact ih later

/-- A token is never an end mark, and never empty, and it stands in the source where it says. -/
theorem token_spec (h : Cuts source pieces []) (mem : t ∈ Piece.tokens .origin pieces) :
    t.kind ≠ .endMark ∧ t.StandsIn source ∧ t.span.start < t.span.stop ∧
      t.span.stop ≤ byteLength source := by
  have stands := h.standsIn mem
  obtain ⟨front, kind, text, back, rfl, rfl⟩ := Piece.exists_of_mem_tokens mem
  have form := h.form_of_mem (List.mem_append_right front List.mem_cons_self)
  refine ⟨form.kind_ne_endMark, stands, Nat.lt_add_of_pos_right ?_, ?_⟩
  · exact Nat.lt_of_lt_of_le (List.length_pos_iff.mpr form.text_ne_nil)
      (Text.length_le_byteLength _)
  · obtain ⟨before, after, same, span, -⟩ := stands
    rw [same, span, Text.byteLength_append, Text.byteLength_append]
    exact Nat.le_add_right _ _

end Cuts

/-! ## Scanning -/

namespace Token

theorem scanFrom_nil (m : Mark) : scanFrom m [] = .ok [endAt m] := by
  rw [scanFrom]

theorem scanFrom_blocked {m : Mark} {text : List Char} {obstacle : Obstacle}
    (h : obstacle.Blocks text) : scanFrom m text =
      .error (obstacle.complaint.toError m.line (m.spanOf obstacle.text)) := by
  obtain ⟨c, cs, rfl⟩ := List.exists_cons_of_ne_nil h.ne_nil
  have cut := Piece.cut_eq_error_iff.mpr h
  rw [scanFrom]
  split
  · next cut' =>
    cases cut.symm.trans cut'
    rfl
  · next cut' => cases cut.symm.trans cut'

/-- Scanning cuts the text for as long as it goes. -/
theorem scanFrom_spec (m : Mark) (text : List Char) :
    ∃ pieces left, Cuts text pieces left ∧
      ((left = [] ∧ scanFrom m text =
          .ok (Piece.tokens m pieces ++ [endAt (m.advance (Piece.texts pieces))])) ∨
        ∃ obstacle : Obstacle, obstacle.Blocks left ∧ scanFrom m text =
          .error (obstacle.complaint.toError (m.advance (Piece.texts pieces)).line
            ((m.advance (Piece.texts pieces)).spanOf obstacle.text))) := by
  cases text with
  | nil => exact ⟨[], [], .nothing, .inl ⟨rfl, by rw [scanFrom_nil]; rfl⟩⟩
  | cons c cs =>
    cases cut : Piece.cut c cs with
    | error obstacle =>
      have blocks := Piece.cut_eq_error_iff.mp cut
      refine ⟨[], c :: cs, .nothing, .inr ⟨obstacle, blocks, ?_⟩⟩
      rw [scanFrom_blocked blocks, show Piece.texts [] = [] from rfl, m.advance_nil]
    | ok first =>
      obtain ⟨piece, rest⟩ := first
      obtain ⟨whole, form, longest, fits⟩ := Piece.cut_eq_ok_iff.mp cut
      obtain ⟨pieces, left, cuts, scanned⟩ := scanFrom_spec (m.advance piece.text) rest
      refine ⟨piece :: pieces, left, whole ▸ .piece form longest fits cuts, ?_⟩
      rw [scanFrom_cons cut, Piece.texts_cons, m.advance_append]
      obtain ⟨rfl, scanned⟩ | ⟨obstacle, blocks, scanned⟩ := scanned
      · rw [scanned]
        exact .inl ⟨rfl, by simp [Except.map, Piece.tokens]⟩
      · rw [scanned]
        exact .inr ⟨obstacle, blocks, rfl⟩
termination_by text.length
decreasing_by exact Piece.cut_shorter cut

/-- Scanning cuts a source text for as long as it goes. -/
theorem scan_spec (source : String) : ∃ pieces left, Cuts source.toList pieces left ∧
    ((left = [] ∧ scan source = .ok (Piece.tokens .origin pieces ++
        [⟨.endMark, "", .single (byteLength source.toList), 1 + source.toList.count '\n'⟩])) ∨
      ∃ obstacle : Obstacle, obstacle.Blocks left ∧ scan source =
        .error (obstacle.complaint.toError (1 + (Piece.texts pieces).count '\n')
          ⟨byteLength (Piece.texts pieces),
            byteLength (Piece.texts pieces) + byteLength obstacle.text⟩)) := by
  have place (text : List Char) :
      Mark.origin.advance text = ⟨byteLength text, 1 + text.count '\n'⟩ := by
    simp [Mark.advance, Mark.origin]
  obtain ⟨pieces, left, cuts, scanned⟩ := scanFrom_spec .origin source.toList
  rw [← scan] at scanned
  simp only [place, Mark.spanOf] at scanned
  refine ⟨pieces, left, cuts, ?_⟩
  obtain ⟨rfl, ok⟩ | ⟨obstacle, blocks, error⟩ := scanned
  · have whole := cuts.texts_append
    rw [List.append_nil] at whole
    rw [whole] at ok
    exact .inl ⟨rfl, ok⟩
  · exact .inr ⟨obstacle, blocks, error⟩

theorem scan_eq_ok_iff {source : String} {tokens : List Token} :
    scan source = .ok tokens ↔ ∃ pieces, Cuts source.toList pieces [] ∧
      tokens = Piece.tokens .origin pieces ++
        [⟨.endMark, "", .single (byteLength source.toList), 1 + source.toList.count '\n'⟩] := by
  obtain ⟨pieces, left, cuts, ⟨rfl, ok⟩ | ⟨obstacle, blocks, error⟩⟩ := scan_spec source
  · constructor
    · intro ok'
      cases ok.symm.trans ok'
      exact ⟨pieces, cuts, rfl⟩
    · rintro ⟨pieces', cuts', rfl⟩
      obtain ⟨rfl, -⟩ := cuts.unique (.inl rfl) cuts' (.inl rfl)
      exact ok
  · constructor
    · intro ok
      cases error.symm.trans ok
    · rintro ⟨pieces', cuts', -⟩
      obtain ⟨rfl, rfl⟩ := cuts.unique (.inr ⟨obstacle, blocks⟩) cuts' (.inl rfl)
      exact absurd rfl blocks.ne_nil

theorem scan_eq_error_iff {source : String} {e : SyntaxError} :
    scan source = .error e ↔ ∃ pieces left, ∃ obstacle : Obstacle,
      Cuts source.toList pieces left ∧ obstacle.Blocks left ∧
        e = obstacle.complaint.toError (1 + (Piece.texts pieces).count '\n')
          ⟨byteLength (Piece.texts pieces),
            byteLength (Piece.texts pieces) + byteLength obstacle.text⟩ := by
  obtain ⟨pieces, left, cuts, ⟨rfl, ok⟩ | ⟨obstacle, blocks, error⟩⟩ := scan_spec source
  · constructor
    · intro error
      cases ok.symm.trans error
    · rintro ⟨pieces', left', obstacle', cuts', blocks', -⟩
      obtain ⟨rfl, rfl⟩ := cuts.unique (.inl rfl) cuts' (.inr ⟨obstacle', blocks'⟩)
      exact absurd rfl blocks'.ne_nil
  · constructor
    · intro error'
      cases error.symm.trans error'
      exact ⟨pieces, left, obstacle, cuts, blocks, rfl⟩
    · rintro ⟨pieces', left', obstacle', cuts', blocks', rfl⟩
      obtain ⟨rfl, rfl⟩ :=
        cuts.unique (.inr ⟨obstacle, blocks⟩) cuts' (.inr ⟨obstacle', blocks'⟩)
      obtain rfl := blocks.unique blocks'
      exact error

/-- Scanning computes the one maximal-munch cut of a source text. It succeeds exactly if the whole
text can be cut, and no text can be cut in two ways. The tokens are the lexemes of the cut in order,
each of them the part of the source at its span and on its line, and one end mark behind them all.
Otherwise the error is about the obstacle behind the only cut that goes up to one, and points at the
character that starts no form or at all the digits of the integer that is too large. -/
theorem scan_is_maximal_munch (source : String) :
    (∀ tokens, scan source = .ok tokens ↔ ∃ pieces, Cuts source.toList pieces [] ∧
      tokens = Piece.tokens .origin pieces ++ [⟨.endMark, "", .single (byteLength source.toList),
        1 + source.toList.count '\n'⟩]) ∧
    (∀ pieces, Cuts source.toList pieces [] →
      (∀ t ∈ Piece.tokens .origin pieces, t.kind ≠ .endMark ∧ t.StandsIn source.toList ∧
        t.span.start < t.span.stop ∧ t.span.stop ≤ byteLength source.toList) ∧
      (Piece.tokens .origin pieces).Pairwise fun t t' => t.span.stop ≤ t'.span.start) ∧
    (∀ pieces left pieces' left', Cuts source.toList pieces left → IsUncut left →
      Cuts source.toList pieces' left' → IsUncut left' → pieces = pieces' ∧ left = left') ∧
    ∀ e, scan source = .error e ↔ ∃ pieces left, ∃ obstacle : Obstacle,
      Cuts source.toList pieces left ∧ obstacle.Blocks left ∧
        e = obstacle.complaint.toError (1 + (Piece.texts pieces).count '\n')
          ⟨byteLength (Piece.texts pieces),
            byteLength (Piece.texts pieces) + byteLength obstacle.text⟩ := by
  refine ⟨fun tokens => scan_eq_ok_iff, fun pieces cuts => ?_, ?_, fun e => scan_eq_error_iff⟩
  · exact ⟨fun t mem => cuts.token_spec mem, Piece.pairwise_tokens .origin pieces⟩
  · intro pieces left pieces' left' cuts uncut cuts' uncut'
    exact cuts.unique uncut cuts' uncut'

/-- A letter of two bytes, a sign of two characters, a comment, a line feed: one piece each. -/
theorem scan_is_maximal_munch_of_comparison :
    ∃ pieces, Cuts "é<=1//<\n".toList pieces [] ∧
      Piece.tokens .origin pieces = [⟨.identifier, "é", ⟨0, 2⟩, 1⟩, ⟨.lessEqual, "<=", ⟨2, 4⟩, 1⟩,
        ⟨.integer, "1", ⟨4, 5⟩, 1⟩] := by
  have word : Piece.cut 'é' ['<', '=', '1', '/', '/', '<', '\n'] =
    .ok (.lexeme .identifier ['é'], ['<', '=', '1', '/', '/', '<', '\n']) := rfl
  have sign : Piece.cut '<' ['=', '1', '/', '/', '<', '\n'] =
    .ok (.lexeme .lessEqual ['<', '='], ['1', '/', '/', '<', '\n']) := rfl
  have integer : Piece.cut '1' ['/', '/', '<', '\n'] =
    .ok (.lexeme .integer ['1'], ['/', '/', '<', '\n']) := rfl
  have comment : Piece.cut '/' ['/', '<', '\n'] = .ok (.gap ['/', '/', '<'], ['\n']) := rfl
  have blank : Piece.cut '\n' [] = .ok (.gap ['\n'], []) := rfl
  have scanned : scan "é<=1//<\n" = .ok [⟨.identifier, "é", ⟨0, 2⟩, 1⟩,
      ⟨.lessEqual, "<=", ⟨2, 4⟩, 1⟩, ⟨.integer, "1", ⟨4, 5⟩, 1⟩, ⟨.endMark, "", ⟨9, 10⟩, 2⟩] := by
    rw [scan, show "é<=1//<\n".toList = ['é', '<', '=', '1', '/', '/', '<', '\n'] from rfl,
      scanFrom_cons word, scanFrom_cons sign, scanFrom_cons integer, scanFrom_cons comment,
      scanFrom_cons blank, scanFrom_nil]
    rfl
  obtain ⟨pieces, cuts, same⟩ := ((scan_is_maximal_munch "é<=1//<\n").1 _).mp scanned
  exact ⟨pieces, cuts, (List.append_inj_left' same rfl).symm⟩

end Token

end FunLanguage
