import FunLanguage.Proofs.Grammar.Places

/-!
# Scanning line by line

Only one piece holds a line feed, and this is the line feed itself (`Piece.Form.eq_lineFeed`). So
what is cut off a text, and what cannot be cut off, stays the same when a line feed and more text
are put behind (`Cuts.before_lineFeed`), and behind the line feed the text is cut as if it stood
alone. A text of two parts with a line feed between them therefore has the tokens of the first part,
without the end mark, and then those of the second part with their places moved
(`Token.scanning_is_linewise`).
-/

namespace FunLanguage

open Text (byteLength)

/-! ## Moving places -/

theorem Text.byteLength_lineFeed (front back : List Char) :
    byteLength (front ++ '\n' :: back) = byteLength back + (byteLength front + 1) := by
  rw [byteLength_append, byteLength_cons, show '\n'.utf8Size = 1 from rfl]
  omega

theorem Text.count_lineFeed (front back : List Char) :
    (front ++ '\n' :: back).count '\n' = back.count '\n' + (front.count '\n' + 1) := by
  rw [List.count_append, List.count_cons_self]
  omega

/-- The span with so many more bytes in front. -/
def Span.moved (bytes : Nat) (s : Span) : Span :=
  ⟨s.start + bytes, s.stop + bytes⟩

/-- The token with so many more bytes and lines in front. -/
def Token.moved (bytes lines : Nat) (t : Token) : Token :=
  { t with span := t.span.moved bytes, line := t.line + lines }

/-- The error with so many more bytes and lines in front. -/
def SyntaxError.moved (bytes lines : Nat) (e : SyntaxError) : SyntaxError :=
  { e with span := e.span.moved bytes, line := e.line + lines }

namespace Mark

/-- The mark with so many more bytes and lines in front. -/
def moved (bytes lines : Nat) (m : Mark) : Mark :=
  ⟨m.offset + bytes, m.line + lines⟩

variable (bytes lines : Nat) (m : Mark) (text : List Char)

theorem advance_moved :
    (m.moved bytes lines).advance text = (m.advance text).moved bytes lines := by
  simp only [moved, advance, Nat.add_right_comm]

theorem spanOf_moved : (m.moved bytes lines).spanOf text = (m.spanOf text).moved bytes := by
  simp only [moved, spanOf, Span.moved, Nat.add_right_comm]

/-- Behind a text and a line feed, the origin has moved by what stands in front. -/
theorem advance_lineFeed : (origin.advance text).advance ['\n'] =
    origin.moved (byteLength text + 1) (text.count '\n' + 1) := by
  rw [← advance_append, advance, Text.byteLength_lineFeed, Text.count_lineFeed,
    Text.byteLength_nil, List.count_nil, Nat.zero_add, Nat.zero_add, moved]

end Mark

theorem Piece.tokens_moved (bytes lines : Nat) (m : Mark) (pieces : List Piece) :
    tokens (m.moved bytes lines) pieces = (tokens m pieces).map (Token.moved bytes lines) := by
  induction pieces generalizing m with
  | nil => rfl
  | cons piece pieces ih =>
    rw [tokens, tokens, List.map_append, m.advance_moved, ih]
    cases piece with
    | gap text => rfl
    | lexeme kind text =>
      simp only [Token.ofPiece?, Option.toList_some, List.map_singleton, m.spanOf_moved]
      rfl

theorem Complaint.toError_moved (complaint : Complaint) (bytes lines line : Nat) (span : Span) :
    complaint.toError (line + lines) (span.moved bytes) =
      (complaint.toError line span).moved bytes lines :=
  rfl

/-! ## Line feeds and pieces -/

namespace Piece

variable {piece : Piece} {text rest more : List Char}

theorem Form.eq_lineFeed (form : piece.Form) (mem : '\n' ∈ piece.text) : piece = .gap ['\n'] := by
  cases piece with
  | lexeme kind text => cases form.not_isBlank _ mem
  | gap text =>
    cases form with
    | blank => rw [List.mem_singleton.mp mem]
    | comment oneLine =>
      simp only [Piece.text, List.mem_cons] at mem
      obtain slash | slash | inside := mem
      · cases slash
      · cases slash
      · exact absurd inside oneLine

/-- What has a form and starts in front of a line feed ends in front of it. -/
theorem Form.prefix_of_lineFeed (form : piece.Form) (nonempty : text ≠ [])
    (front : piece.text <+: text ++ '\n' :: more) : piece.text <+: text := by
  obtain ⟨c, cs, rfl⟩ := List.exists_cons_of_ne_nil nonempty
  have either := List.prefix_or_prefix_of_prefix front (List.prefix_append (c :: cs) _)
  rcases either with inside | ⟨past, whole⟩
  · exact inside
  rw [← whole, List.prefix_append_right_inj] at front
  cases past with
  | nil => exact ⟨[], (List.append_nil _).trans (whole.symm.trans (List.append_nil _))⟩
  | cons d past =>
    -- the piece would go on with the line feed, and yet it does not start with it
    obtain ⟨rfl, -⟩ := List.cons_prefix_cons.mp front
    have mem : '\n' ∈ piece.text := by
      rw [← whole]
      exact List.mem_append_right _ List.mem_cons_self
    have length := congrArg List.length whole
    rw [form.eq_lineFeed mem] at length
    simp [Piece.text] at length

theorem Longest.before_lineFeed (longest : piece.Longest rest) (form : piece.Form)
    (more : List Char) : piece.Longest (rest ++ '\n' :: more) := by
  intro other form' front
  rw [← List.append_assoc] at front
  refine longest other form' (form'.prefix_of_lineFeed ?_ front)
  exact List.append_ne_nil_of_left_ne_nil form.text_ne_nil rest

theorem longest_lineFeed (more : List Char) : (gap ['\n']).Longest more := by
  intro other form front
  obtain ⟨c, cs, same⟩ := List.exists_cons_of_ne_nil form.text_ne_nil
  obtain ⟨rfl, -⟩ := List.cons_prefix_cons.mp (same ▸ front)
  rw [form.eq_lineFeed (same ▸ List.mem_cons_self)]

end Piece

theorem Obstacle.Blocks.before_lineFeed {obstacle : Obstacle} {text : List Char}
    (blocks : obstacle.Blocks text) (more : List Char) :
    obstacle.Blocks (text ++ '\n' :: more) := by
  cases blocks with
  | unexpected none =>
    refine .unexpected fun piece form front => none piece form ?_
    exact form.prefix_of_lineFeed (List.cons_ne_nil _ _) front
  | outOfRange form longest large =>
    rw [List.append_assoc]
    exact .outOfRange form (longest.before_lineFeed form more) large

/-! ## Cuts at a line feed -/

namespace Cuts

variable {text left more : List Char} {pieces pieces' : List Piece}

theorem before_lineFeed (h : Cuts text pieces left) (more : List Char) :
    Cuts (text ++ '\n' :: more) pieces (left ++ '\n' :: more) := by
  induction h with
  | nothing => exact .nothing
  | piece form longest fits cuts ih =>
    rw [List.append_assoc]
    exact .piece form (longest.before_lineFeed form more) fits ih

theorem append {middle : List Char} (h : Cuts text pieces middle) (h' : Cuts middle pieces' left) :
    Cuts text (pieces ++ pieces') left := by
  induction h with
  | nothing => exact h'
  | piece form longest fits cuts ih => exact .piece form longest fits (ih h')

/-- A text that is cut to its end, a line feed, and a text behind it are cut one after the other. -/
theorem join (h : Cuts text pieces []) (h' : Cuts more pieces' left) :
    Cuts (text ++ '\n' :: more) (pieces ++ .gap ['\n'] :: pieces') left := by
  refine (h.before_lineFeed more).append ?_
  have fits : (Piece.gap ['\n']).Fits := Piece.fits_of_not_isDigit rfl rfl
  exact .piece (.blank rfl) (Piece.longest_lineFeed more) fits h'

/-- In such a text the pieces behind the line feed make the tokens that they make alone, moved. -/
theorem tokens_join (h : Cuts text pieces []) (pieces' : List Piece) :
    Piece.tokens .origin (pieces ++ .gap ['\n'] :: pieces') = Piece.tokens .origin pieces ++
      (Piece.tokens .origin pieces').map
        (Token.moved (byteLength text + 1) (text.count '\n' + 1)) := by
  rw [Piece.tokens_append, h.texts_eq, ← Piece.tokens_moved, ← Mark.advance_lineFeed]
  rfl

theorem texts_join (h : Cuts text pieces []) (pieces' : List Piece) :
    Piece.texts (pieces ++ .gap ['\n'] :: pieces') = text ++ '\n' :: Piece.texts pieces' := by
  rw [Piece.texts, List.flatMap_append, ← Piece.texts, h.texts_eq]
  rfl

end Cuts

/-! ## Scanning -/

namespace Token

variable {a b : String}

theorem scan_error_before_lineFeed {e : SyntaxError} (failed : scan a = .error e) (b : String) :
    scan (a ++ "\n" ++ b) = .error e := by
  obtain ⟨pieces, left, obstacle, cuts, blocks, rfl⟩ := scan_eq_error_iff.mp failed
  refine scan_eq_error_iff.mpr ⟨pieces, left ++ '\n' :: b.toList, obstacle, ?_,
    blocks.before_lineFeed b.toList, rfl⟩
  simpa using cuts.before_lineFeed b.toList

theorem scan_ok_behind_lineFeed {pieces : List Piece} (cuts : Cuts a.toList pieces [])
    {more : List Token} (scanned : scan b = .ok more) : scan (a ++ "\n" ++ b) =
      .ok (Piece.tokens .origin pieces ++
        more.map (moved (byteLength a.toList + 1) (a.toList.count '\n' + 1))) := by
  obtain ⟨pieces', cuts', rfl⟩ := scan_eq_ok_iff.mp scanned
  refine scan_eq_ok_iff.mpr ⟨pieces ++ .gap ['\n'] :: pieces', ?_, ?_⟩
  · simpa using cuts.join cuts'
  · rw [cuts.tokens_join, List.map_append, List.append_assoc]
    have whole : (a ++ "\n" ++ b).toList = a.toList ++ '\n' :: b.toList := by simp
    have line : 1 + b.toList.count '\n' + (a.toList.count '\n' + 1) =
        1 + (a.toList ++ '\n' :: b.toList).count '\n' := by
      rw [Text.count_lineFeed, Nat.add_assoc]
    rw [whole, Text.byteLength_lineFeed, ← line]
    simp only [List.map_singleton, moved, Span.single, Span.moved, Nat.add_right_comm]

theorem scan_error_behind_lineFeed {pieces : List Piece} (cuts : Cuts a.toList pieces [])
    {e : SyntaxError} (failed : scan b = .error e) : scan (a ++ "\n" ++ b) =
      .error (e.moved (byteLength a.toList + 1) (a.toList.count '\n' + 1)) := by
  obtain ⟨pieces', left, obstacle, cuts', blocks, rfl⟩ := scan_eq_error_iff.mp failed
  refine scan_eq_error_iff.mpr ⟨pieces ++ .gap ['\n'] :: pieces', left, obstacle, ?_, blocks, ?_⟩
  · simpa using cuts.join cuts'
  · rw [cuts.texts_join, ← Complaint.toError_moved, Text.byteLength_lineFeed, Text.count_lineFeed,
      Nat.add_assoc, Span.moved, Nat.add_right_comm]

/-- Scanning goes line by line. An error in front of a line feed is the error of the whole, whatever
stands behind. If there is none, then the tokens of the whole are those of the first part but its
end mark, and those of the second part, moved by the bytes and the line feeds in front of it; an
error of the second part is moved as well. -/
theorem scanning_is_linewise (a b : String) :
    (∀ e, scan a = .error e → scan (a ++ "\n" ++ b) = .error e) ∧
    ∀ tokens, scan a = .ok tokens → ∃ front last, tokens = front ++ [last] ∧ last.kind = .endMark ∧
      (∀ t ∈ front, t.kind ≠ .endMark) ∧
      (∀ more, scan b = .ok more → scan (a ++ "\n" ++ b) =
        .ok (front ++ more.map (moved (byteLength a.toList + 1) (a.toList.count '\n' + 1)))) ∧
      ∀ e, scan b = .error e → scan (a ++ "\n" ++ b) =
        .error (e.moved (byteLength a.toList + 1) (a.toList.count '\n' + 1)) := by
  refine ⟨fun e failed => scan_error_before_lineFeed failed b, fun tokens scanned => ?_⟩
  obtain ⟨pieces, cuts, rfl⟩ := scan_eq_ok_iff.mp scanned
  refine ⟨Piece.tokens .origin pieces, _, rfl, rfl, fun t mem => (cuts.token_spec mem).1,
    fun more scanned' => ?_, fun e failed => ?_⟩
  · exact scan_ok_behind_lineFeed cuts scanned'
  · exact scan_error_behind_lineFeed cuts failed

/-- The first part ends in a comment with a letter of two bytes, and the second starts with an empty
line. -/
theorem scanning_is_linewise_of_comment :
    scan "1//é" = .ok [⟨.integer, "1", ⟨0, 1⟩, 1⟩, ⟨.endMark, "", ⟨5, 6⟩, 1⟩] ∧
    scan ("1//é" ++ "\n" ++ "\nx") = .ok [⟨.integer, "1", ⟨0, 1⟩, 1⟩,
      ⟨.identifier, "x", ⟨7, 8⟩, 3⟩, ⟨.endMark, "", ⟨8, 9⟩, 3⟩] ∧
    scan ("1//é" ++ "\n" ++ "\n&") =
      .error ((Complaint.unexpectedCharacter '&').toError 3 ⟨7, 8⟩) ∧
    scan ("\n&" ++ "\n" ++ "1//é") =
      .error ((Complaint.unexpectedCharacter '&').toError 2 ⟨1, 2⟩) := by
  have first : scan "1//é" = .ok ([⟨.integer, "1", ⟨0, 1⟩, 1⟩] ++ [⟨.endMark, "", ⟨5, 6⟩, 1⟩]) := by
    decide +kernel
  have second : scan "\nx" = .ok [⟨.identifier, "x", ⟨1, 2⟩, 2⟩, ⟨.endMark, "", ⟨2, 3⟩, 2⟩] := by
    decide +kernel
  have failed : scan "\n&" = .error ((Complaint.unexpectedCharacter '&').toError 2 ⟨1, 2⟩) := by
    decide +kernel
  refine ⟨first, ?_, ?_, (scanning_is_linewise "\n&" "1//é").1 _ failed⟩
  · obtain ⟨front, last, split, -, -, joined, -⟩ := (scanning_is_linewise "1//é" "\nx").2 _ first
    obtain rfl := List.append_inj_left' split rfl
    rw [joined _ second]
    decide +kernel
  · obtain ⟨front, last, -, -, -, -, moved⟩ := (scanning_is_linewise "1//é" "\n&").2 _ first
    rw [moved _ failed]
    decide +kernel

end Token

end FunLanguage
