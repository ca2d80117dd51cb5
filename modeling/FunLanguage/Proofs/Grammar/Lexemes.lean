import FunLanguage.Proofs.Grammar.Printing
import FunLanguage.Proofs.Numerals

/-!
# Lexemes with blanks between them are scanned one by one

A text is a lexeme of a kind if it is cut off whole wherever a blank or the end follows it
(`IsLexeme`). Names, reserved words, numerals and signs are, as no blank can go on with any of them.
So the tokens of a text that spells such lexemes are these lexemes, in order
(`Token.scanFrom_spaced`).
-/

namespace FunLanguage

/-- Whether the text is cut off whole, and as a lexeme of the kind, wherever a blank or the end
follows it. -/
def IsLexeme (l : String) (kind : TokenKind) : Prop :=
  ∃ c cs, l.toList = c :: cs ∧
    ∀ rest, EndsLexeme rest → Piece.cut c (cs ++ rest) = .ok (.lexeme kind l.toList, rest)

/-- A text is a lexeme of one kind. -/
theorem IsLexeme.kind_unique {l : String} {kind kind' : TokenKind} (h : IsLexeme l kind)
    (h' : IsLexeme l kind') : kind = kind' := by
  obtain ⟨c, cs, hl, hcut⟩ := h
  obtain ⟨c', cs', hl', hcut'⟩ := h'
  obtain ⟨rfl, rfl⟩ := List.cons.inj (hl.symm.trans hl')
  have hnil : EndsLexeme [] := by simp [EndsLexeme]
  have hpieces := (hcut [] hnil).symm.trans (hcut' [] hnil)
  simpa using hpieces

/-! ## Runs of characters -/

section Runs

variable {p : Char → Bool} {cs rest : List Char}

/-- A run of characters goes up to a blank if no blank is one of them. -/
theorem takeWhile_of_endsLexeme (blank : ∀ c, isBlank c = true → p c = false)
    (run : ∀ c ∈ cs, p c = true) (ends : EndsLexeme rest) : (cs ++ rest).takeWhile p = cs := by
  rw [List.takeWhile_append_of_pos run]
  cases rest with
  | nil => simp
  | cons c rest => simp [blank c (ends c rfl)]

theorem dropWhile_of_endsLexeme (blank : ∀ c, isBlank c = true → p c = false)
    (run : ∀ c ∈ cs, p c = true) (ends : EndsLexeme rest) : (cs ++ rest).dropWhile p = rest := by
  rw [List.dropWhile_append_of_pos run]
  cases rest with
  | nil => rfl
  | cons c rest => simp [blank c (ends c rfl)]

end Runs

/-! ## What blanks, digits and letters are not -/

theorem isBlank_iff {c : Char} : isBlank c = true ↔ c = ' ' ∨ c = '\t' ∨ c = '\r' ∨ c = '\n' := by
  simp [isBlank, or_assoc]

theorem not_isDigit_of_isBlank {c : Char} (h : isBlank c = true) : c.isDigit = false := by
  obtain rfl | rfl | rfl | rfl := isBlank_iff.1 h <;> rfl

theorem not_isWordPart_of_isBlank {c : Char} (h : isBlank c = true) : isWordPart c = false := by
  obtain rfl | rfl | rfl | rfl := isBlank_iff.1 h <;> decide

/-- What a word starts with can be a part of it. -/
theorem isWordPart_of_isWordStart {c : Char} (h : isWordStart c = true) : isWordPart c = true := by
  simp only [isWordStart, isWordPart] at h ⊢
  simp [h]

theorem not_isBlank_of_isWordStart {c : Char} (h : isWordStart c = true) : isBlank c = false := by
  refine Bool.eq_false_iff.2 fun hb => ?_
  have hw := not_isWordPart_of_isBlank hb
  rw [isWordPart_of_isWordStart h] at hw
  cases hw

theorem not_isBlank_of_isDigit {c : Char} (h : c.isDigit = true) : isBlank c = false := by
  refine Bool.eq_false_iff.2 fun hb => ?_
  have hd := not_isDigit_of_isBlank hb
  rw [h] at hd
  cases hd

/-- All letters come behind the digits. -/
theorem not_isDigit_of_isWordStart {c : Char} (h : isWordStart c = true) : c.isDigit = false := by
  refine Bool.eq_false_iff.2 fun hd => ?_
  have hle : c.toNat ≤ '9'.toNat := (Char.isDigit_iff_toNat.1 hd).2
  simp only [isWordStart, Bool.or_eq_true, beq_iff_eq] at h
  obtain h | rfl := h
  · obtain ⟨r, mem, start, -⟩ := Unicode.CodeTable.contains_iff.mp h
    have ascending : Unicode.CodeRange.areAscending 0x41 Unicode.alphabetic.ranges = true := by
      decide +kernel
    have hge : 0x41 ≤ r.first := Unicode.CodeRange.le_first_of_mem ascending mem
    exact absurd (Nat.le_trans (Nat.le_trans hge start) hle) (by decide)
  · exact absurd hle (by decide)

/-! ## Words -/

/-- A word is a lexeme of the kind it is reserved for, or else an identifier. -/
theorem isLexeme_word {l : String} {c : Char} {cs : List Char} (hl : l.toList = c :: cs)
    (start : isWordStart c = true) (parts : ∀ d ∈ cs, isWordPart d = true) :
    IsLexeme l (.ofWord l) := by
  refine ⟨c, cs, hl, fun rest ends => ?_⟩
  have htake := takeWhile_of_endsLexeme (fun _ => not_isWordPart_of_isBlank) parts ends
  have hdrop := dropWhile_of_endsLexeme (fun _ => not_isWordPart_of_isBlank) parts ends
  have hword : String.ofList (c :: cs) = l := by rw [← hl, String.ofList_toList]
  simp only [Piece.cut, not_isBlank_of_isWordStart start, not_isDigit_of_isWordStart start, start,
    htake, hdrop, hword, hl]
  rfl

/-- A name is an identifier. -/
theorem IsName.isLexeme {name : String} (h : IsName name) : IsLexeme name .identifier := by
  obtain ⟨⟨c, cs, hl, start, parts⟩, hfree⟩ := h
  have hkind : TokenKind.ofWord name = .identifier := by rw [TokenKind.ofWord, hfree]; rfl
  exact hkind ▸ isLexeme_word hl start parts

/-- A reserved word is a lexeme of its kind. -/
theorem isLexeme_reserved {l : String} {kind : TokenKind} (h : TokenKind.ofKeyword? l = some kind) :
    IsLexeme l kind := by
  have hkind : TokenKind.ofWord l = kind := by rw [TokenKind.ofWord, h]; rfl
  subst hkind
  unfold TokenKind.ofKeyword? at h
  split at h
  case h_7 => cases h
  all_goals exact isLexeme_word rfl (by decide) (List.all_eq_true.1 (by decide))

/-! ## Numerals -/

/-- A run of digits is read as the number that it denotes in base ten. -/
theorem int32?_of_digits {digits : List Char} (hd : ∀ c ∈ digits, c.isDigit = true) :
    Text.int32? digits =
      (Text.naturalUpTo? Text.int32Limit digits).map fun n : Nat => Int32.ofInt n := by
  unfold Text.int32?
  split
  · exact absurd (hd '-' (by simp)) (by decide)
  · exact absurd (hd '+' (by simp)) (by decide)
  · cases Text.naturalUpTo? Text.int32Limit digits <;> rfl

/-- A value that is not negative is written in digits. -/
theorem toList_ofInt32 {value : Int32} (h : 0 ≤ value) :
    (Text.ofInt32 value).toList = Nat.toDigits 10 value.toInt.toNat := by
  have hnat : ((value.toInt.toNat : Nat) : Int) = value.toInt :=
    Int.toNat_of_nonneg (Int32.le_iff_toInt_le.1 h)
  have hdecimal : Text.ofInt32 value = toString value.toInt.toNat := by
    rw [Text.ofInt32, ← hnat]
    rfl
  rw [hdecimal, Nat.toString_eq_ofList_toDigits, String.toList_ofList]

/-- Reading undoes writing on values that are not negative. -/
theorem int32?_ofInt32 {value : Int32} (h : 0 ≤ value) :
    Text.int32? (Text.ofInt32 value).toList = some value := by
  have hnat : ((value.toInt.toNat : Nat) : Int) = value.toInt :=
    Int.toNat_of_nonneg (Int32.le_iff_toInt_le.1 h)
  have hle : value.toInt.toNat ≤ Text.int32Limit := by
    have := value.toInt_lt
    simp only [Text.int32Limit]
    omega
  rw [toList_ofInt32 h,
    int32?_of_digits fun _ => Nat.isDigit_of_mem_toDigits (by decide) (by decide),
    Text.naturalUpTo?_eq_some_iff.mpr ⟨hle, Text.digits_toDigits _⟩, Option.map_some, hnat,
    Int32.ofInt_toInt]

/-- A value that is not negative is written as an integer. -/
theorem isLexeme_ofInt32 {value : Int32} (h : 0 ≤ value) :
    IsLexeme (Text.ofInt32 value) .integer := by
  have hall : ∀ d ∈ (Text.ofInt32 value).toList, d.isDigit = true := by
    rw [toList_ofInt32 h]
    exact fun _ => Nat.isDigit_of_mem_toDigits (by decide) (by decide)
  obtain ⟨c, cs, hl⟩ : ∃ c cs, (Text.ofInt32 value).toList = c :: cs := by
    rw [toList_ofInt32 h]
    exact List.exists_cons_of_ne_nil Nat.toDigits_ne_nil
  refine ⟨c, cs, hl, fun rest ends => ?_⟩
  rw [hl] at hall
  have first : c.isDigit = true := hall c List.mem_cons_self
  have digits : ∀ d ∈ cs, d.isDigit = true := fun d hd => hall d (List.mem_cons_of_mem c hd)
  have htake := takeWhile_of_endsLexeme (fun _ => not_isDigit_of_isBlank) digits ends
  have hdrop := dropWhile_of_endsLexeme (fun _ => not_isDigit_of_isBlank) digits ends
  have hread : (Text.int32? (c :: cs)).isSome = true := by rw [← hl, int32?_ofInt32 h]; rfl
  simp only [Piece.cut, not_isBlank_of_isDigit first, first, htake, hdrop, hread, hl]
  rfl

/-! ## Signs -/

/-- A sign is no blank, no digit and no letter. -/
theorem TokenKind.ofSign?_other {c : Char} {kind : TokenKind} (h : ofSign? c = some kind) :
    isBlank c = false ∧ c.isDigit = false ∧ isWordStart c = false := by
  unfold ofSign? at h
  split at h
  case h_15 => cases h
  all_goals decide

theorem TokenKind.ofDoubleSign?_other {c d : Char} {kind : TokenKind}
    (h : ofDoubleSign? c d = some kind) :
    isBlank c = false ∧ c.isDigit = false ∧ isWordStart c = false ∧ isBlank d = false ∧
      c ≠ '/' := by
  unfold ofDoubleSign? at h
  split at h
  case h_7 => cases h
  all_goals decide

/-- A sign of one character is a lexeme: no blank makes a double sign or a comment of it. -/
theorem isLexeme_sign {l : String} {c : Char} {kind : TokenKind} (hl : l.toList = [c])
    (h : TokenKind.ofSign? c = some kind) : IsLexeme l kind := by
  obtain ⟨hblank, hdigit, hword⟩ := TokenKind.ofSign?_other h
  refine ⟨c, [], hl, fun rest ends => ?_⟩
  have hcomment : ¬(c = '/' ∧ rest.head? = some '/') := fun ⟨_, hslash⟩ =>
    absurd (ends '/' hslash) (by decide)
  have hdouble : rest.head?.bind (TokenKind.ofDoubleSign? c) = none := by
    rw [Option.bind_eq_none_iff]
    intro d hd
    refine Option.eq_none_iff_forall_ne_some.2 fun k hk => ?_
    have hb := (TokenKind.ofDoubleSign?_other hk).2.2.2.1
    rw [ends d hd] at hb
    cases hb
  simp [Piece.cut, hblank, hdigit, hword, hcomment, hdouble, h, hl]

/-- A sign of two characters is a lexeme. -/
theorem isLexeme_doubleSign {l : String} {c d : Char} {kind : TokenKind} (hl : l.toList = [c, d])
    (h : TokenKind.ofDoubleSign? c d = some kind) : IsLexeme l kind := by
  obtain ⟨hblank, hdigit, hword, -, hslash⟩ := TokenKind.ofDoubleSign?_other h
  refine ⟨c, [d], hl, fun rest _ => ?_⟩
  simp [Piece.cut, hblank, hdigit, hword, hslash, h, hl]

/-! ## Fixed lexemes -/

/-- The kind of a lexeme that is written in one way only: a reserved word or a sign. -/
def TokenKind.ofFixed? (l : String) : Option TokenKind :=
  match l.toList with
  | [c] => ofSign? c
  | [c, d] => (ofDoubleSign? c d).or (ofKeyword? l)
  | _ => ofKeyword? l

/-- A fixed lexeme is one of its kind. -/
theorem IsLexeme.fixed {l : String} {kind : TokenKind} (h : TokenKind.ofFixed? l = some kind) :
    IsLexeme l kind := by
  unfold TokenKind.ofFixed? at h
  split at h
  · next hl => exact isLexeme_sign hl h
  · next hl =>
    rcases Option.or_eq_some_iff.1 h with h | ⟨-, h⟩
    · exact isLexeme_doubleSign hl h
    · exact isLexeme_reserved h
  · exact isLexeme_reserved h

/-- An operator is a lexeme of its own kind. -/
theorem BinaryOp.isLexeme_symbol (op : BinaryOp) : IsLexeme op.symbol op.tokenKind := by
  cases op <;> exact .fixed rfl

/-! ## Scanning -/

theorem TokenKind.ofWord_ne_endMark (word : String) : ofWord word ≠ .endMark := by
  unfold ofWord ofKeyword?
  split <;> decide

theorem TokenKind.ofSign?_ne_endMark (c : Char) : ofSign? c ≠ some .endMark := by
  unfold ofSign?
  split <;> decide

theorem TokenKind.ofDoubleSign?_ne_endMark (c d : Char) : ofDoubleSign? c d ≠ some .endMark := by
  unfold ofDoubleSign?
  split <;> decide

/-- No lexeme is cut off as an end mark. -/
theorem Piece.cut_ne_endMark {c : Char} {cs text rest : List Char} {kind : TokenKind}
    (h : cut c cs = .ok (lexeme kind text, rest)) : kind ≠ .endMark := by
  have hdouble : cs.head?.bind (TokenKind.ofDoubleSign? c) ≠ some .endMark := by
    cases cs.head? <;> simp [TokenKind.ofDoubleSign?_ne_endMark]
  unfold cut at h
  grind [TokenKind.ofWord_ne_endMark, TokenKind.ofSign?_ne_endMark]

theorem IsLexeme.ne_endMark {l : String} {kind : TokenKind} (h : IsLexeme l kind) :
    kind ≠ .endMark := by
  obtain ⟨c, cs, -, hcut⟩ := h
  exact Piece.cut_ne_endMark (hcut [] (by simp [EndsLexeme]))

/-- Whether the tokens in front of `rest` are the lexemes, in order and each of its kind. -/
def Spelled : List String → List Token → List Token → Prop
  | [], ts, rest => ts = rest
  | l :: ls, ts, rest =>
    ∃ t mid, ts = t :: mid ∧ t.lexeme = l ∧ IsLexeme l t.kind ∧ Spelled ls mid rest

theorem spelled_append {as bs : List String} {ts rest : List Token} :
    Spelled (as ++ bs) ts rest ↔ ∃ mid, Spelled as ts mid ∧ Spelled bs mid rest := by
  induction as generalizing ts with
  | nil => simp [Spelled]
  | cons a as ih =>
    simp only [List.cons_append, Spelled, ih]
    constructor
    · rintro ⟨t, mid, rfl, rfl, hk, mid', ha, hb⟩
      exact ⟨mid', ⟨t, mid, rfl, rfl, hk, ha⟩, hb⟩
    · rintro ⟨mid', ⟨t, mid, rfl, rfl, hk, ha⟩, hb⟩
      exact ⟨t, mid, rfl, rfl, hk, mid', ha, hb⟩

/-- No token that a lexeme makes is an end mark. -/
theorem Spelled.ne_endMark {ls : List String} {ts : List Token} (h : Spelled ls ts []) :
    ∀ t ∈ ts, t.kind ≠ .endMark := by
  induction ls generalizing ts with
  | nil =>
    obtain rfl : ts = [] := h
    simp
  | cons l ls ih =>
    obtain ⟨t, mid, rfl, -, hk, hmid⟩ := h
    intro t' ht'
    rcases List.mem_cons.1 ht' with rfl | ht'
    · exact hk.ne_endMark
    · exact ih hmid t' ht'

namespace Token

theorem scanFrom_cons {m : Mark} {c : Char} {cs rest : List Char} {piece : Piece}
    (h : Piece.cut c cs = .ok (piece, rest)) :
    scanFrom m (c :: cs) =
      (scanFrom (m.advance piece.text) rest).map ((ofPiece? m piece).toList ++ ·) := by
  rw [scanFrom]
  split
  · next h' => cases h.symm.trans h'
  · next h' =>
    cases h.symm.trans h'
    rfl

/-- The tokens of a text that spells lexemes are these lexemes. -/
theorem scanFrom_spaced {ls : List String} {text : List Char} (h : Spaced ls text)
    (hls : ∀ l ∈ ls, ∃ kind, IsLexeme l kind) (m : Mark) :
    ∃ ts mark, scanFrom m text = .ok (ts ++ [endAt mark]) ∧ Spelled ls ts [] := by
  induction h generalizing m with
  | nothing => exact ⟨[], m, by rw [scanFrom]; rfl, rfl⟩
  | @blank c ls text hc h ih =>
    obtain ⟨ts, mark, hscan, hts⟩ := ih hls (m.advance [c])
    have hcut : Piece.cut c text = .ok (.gap [c], text) := by simp [Piece.cut, hc]
    refine ⟨ts, mark, ?_, hts⟩
    rw [scanFrom_cons hcut, Piece.text, hscan]
    rfl
  | @lexeme l ls text ends h ih =>
    obtain ⟨kind, c, cs, hl, hcut⟩ := hls l List.mem_cons_self
    obtain ⟨ts, mark, hscan, hts⟩ :=
      ih (fun l' hl' => hls l' (List.mem_cons_of_mem l hl')) (m.advance l.toList)
    refine ⟨⟨kind, l, m.spanOf l.toList, m.line⟩ :: ts, mark, ?_, _, ts, rfl, rfl,
      ⟨c, cs, hl, hcut⟩, hts⟩
    have hcut' := scanFrom_cons (m := m) (hcut text ends)
    rw [Piece.text, hscan] at hcut'
    rw [hl, List.cons_append, hcut', ← hl]
    simp [ofPiece?, Except.map]

/-- A text that is one lexeme makes one token. -/
theorem scan_of_isLexeme {l : String} {kind : TokenKind} (h : IsLexeme l kind) :
    ∃ span mark, scan l = .ok [⟨kind, l, span, 1⟩, endAt mark] := by
  obtain ⟨c, cs, hl, hcut⟩ := h
  have hcut := hcut [] (by simp [EndsLexeme])
  rw [List.append_nil] at hcut
  have hread : scan l = scanFrom .origin (c :: cs) := by rw [scan, hl]
  refine ⟨Mark.origin.spanOf l.toList, Mark.origin.advance l.toList, ?_⟩
  rw [hread, scanFrom_cons hcut, Piece.text, scanFrom]
  simp [ofPiece?, Except.map, Mark.origin]

end Token

end FunLanguage
