import FunLanguage.Proofs.Numerals
import FunLanguage.Proofs.Words
import Mathlib.Data.List.Forall2

/-!
# Reading back command lines

How a command may be written on a line is said without the reader: its word, a numeral of its line
number and its text are laid out on the line in this order, with words behind them that do not
matter (`Command.WrittenWith`). A line is read as a command exactly if it is written so, and if the
command can be written at all (`Input.ofLine_eq_command_iff`). All other lines are told apart by
their first words (`Input.parsing_undoes_writing`).
-/

namespace FunLanguage

namespace Command

/-! ## Writing -/

/-- The word that the command starts with. -/
def word : Command → String
  | load _ => "load"
  | breakpoint _ => "breakpoint"
  | condition _ _ => "condition"
  | list => "list"
  | remove _ => "remove"
  | run => "run"
  | evaluate _ => "evaluate"
  | stop => "stop"
  | resume => "continue"

/-- The line number that is written behind the word. -/
def line? : Command → Option Nat
  | breakpoint line | condition line _ | remove line => some line
  | load _ | list | run | evaluate _ | stop | resume => none

/-- The text that is written to the end of the line. -/
def text? : Command → Option String
  | load text | condition _ text | evaluate text => some text
  | breakpoint _ | list | remove _ | run | stop | resume => none

/-- The command can be written on a line. A text can be empty only behind a line number, where its
place is known without it. -/
structure Writable (c : Command) : Prop where
  line_lt : ∀ line ∈ c.line?, line < 2 ^ 64
  trimmed : ∀ text ∈ c.text?, Input.Trimmed text.toList
  ne_empty : c.line? = none → ∀ text ∈ c.text?, text ≠ ""

/-- The command is written on the line, with these words left over behind it. Behind a text no words
can be left over. -/
structure WrittenWith (c : Command) (words : List (List Char)) (line : List Char) : Prop where
  areWords : ∀ word ∈ words, Input.IsWord word
  none_of_text : c.text?.isSome → words = []
  layout : ∃ numerals, List.Forall₂ Text.Numeral c.line?.toList numerals ∧
    Input.LaidOut
      (c.word.toList :: (numerals ++ (c.text?.toList.flatMap Input.textParts ++ words))) line

/-- The command with single spaces between its parts and its line number in decimal. -/
def written (c : Command) : String :=
  String.ofList <| List.intercalate [' '] <|
    c.word.toList ::
      (c.line?.toList.map (Nat.toDigits 10) ++ c.text?.toList.flatMap Input.textParts)

end Command

namespace Input

/-! ## Reading the line number -/

theorem isWord_of_numeral {n : Nat} {cs : List Char} (numeral : Text.Numeral n cs) : IsWord cs := by
  refine ⟨numeral.ne_nil, fun c mem => ?_⟩
  rcases numeral.member c mem with rfl | digit
  · rfl
  · obtain ⟨low, high⟩ := Char.isDigit_iff_toNat.mp digit
    have zero : '0'.toNat = 48 := rfl
    have nine : '9'.toNat = 57 := rfl
    exact isWhiteSpace_eq_false (by omega) (by omega)

theorem lineNumber_eq_ok_iff {cs rest : List Char} {n : Nat} :
    lineNumber cs = .ok (n, rest) ↔
      n < 2 ^ 64 ∧ ∃ numeral, Text.Numeral n numeral ∧ word? cs = some (numeral, rest) := by
  constructor
  · intro read
    rw [lineNumber] at read
    split at read
    · cases read
    · next word behind first =>
      split at read
      · cases read
      · next line denotes =>
        cases read
        obtain ⟨small, numeral⟩ := Text.lineNumber?_eq_some_iff.mp denotes
        exact ⟨small, word, numeral, first⟩
  · rintro ⟨small, numeral, denotes, first⟩
    simp only [lineNumber, first, Text.lineNumber?_eq_some_iff.mpr ⟨small, denotes⟩]

theorem lineNumber_eq_error_iff {cs : List Char} {e : CommandError} :
    lineNumber cs = .error e ↔
      e = .missingArgument ∧ IsBlank cs ∨
      e = .wrongArgumentType ∧ ∃ word rest, FirstWord cs word rest ∧
        ∀ n < 2 ^ 64, ¬ Text.Numeral n word := by
  have no_line {word : List Char} :
      Text.lineNumber? word = none ↔ ∀ n < 2 ^ 64, ¬ Text.Numeral n word := by
    simp only [Option.eq_none_iff_forall_ne_some, ne_eq, Text.lineNumber?_eq_some_iff, not_and]
  constructor
  · intro read
    rw [lineNumber] at read
    split at read
    · next blank =>
      cases read
      exact .inl ⟨rfl, word?_eq_none_iff.mp blank⟩
    · next word rest first =>
      split at read
      · next none =>
        cases read
        exact .inr ⟨rfl, word, rest, word?_eq_some_iff.mp first, no_line.mp none⟩
      · cases read
  · rintro (⟨rfl, blank⟩ | ⟨rfl, word, rest, first, none⟩)
    · simp only [lineNumber, word?_eq_none_iff.mpr blank]
    · simp only [lineNumber, word?_eq_some_iff.mpr first, no_line.mpr none]

/-! ## Reading the text -/

theorem hasMore_iff {cs : List Char} : hasMore cs = true ↔ remainder cs ≠ "" := by
  rw [← Bool.not_eq_false, ne_eq, remainder_eq_empty_iff, hasMore_eq_false_iff]

theorem requiredText_eq_ok_iff {cs : List Char} {text : String} :
    requiredText cs = .ok text ↔ remainder cs = text ∧ text ≠ "" := by
  rw [requiredText]
  split
  · next more =>
    rw [hasMore_iff] at more
    constructor
    · rintro ⟨⟩
      exact ⟨rfl, more⟩
    · rintro ⟨rfl, -⟩
      rfl
  · next none =>
    rw [hasMore_iff, not_not] at none
    refine iff_of_false nofun ?_
    rintro ⟨rfl, nonempty⟩
    exact nonempty none

theorem requiredText_eq_error_iff {cs : List Char} {e : CommandError} :
    requiredText cs = .error e ↔ e = .missingArgument ∧ IsBlank cs := by
  rw [requiredText, ← hasMore_eq_false_iff]
  cases hasMore cs with
  | false =>
    constructor
    · rintro ⟨⟩
      exact ⟨rfl, rfl⟩
    · rintro ⟨rfl, -⟩
      rfl
  | true => exact iff_of_false nofun nofun

/-! ## Reading the arguments -/

/-- The line number of a command, if it takes one, is read from the text and leaves `rest` of it. -/
def ReadsLine (c : Command) (cs rest : List Char) : Prop :=
  match c.line? with
  | none => rest = cs
  | some line => lineNumber cs = .ok (line, rest)

/-- The text of a command, if it takes one, is all of `cs`. -/
def ReadsText (c : Command) (cs rest : List Char) : Prop :=
  match c.text? with
  | none => rest = cs
  | some text => rest = [] ∧ remainder cs = text ∧ (c.line? = none → text ≠ "")

theorem arguments?_eq_ok_iff {word : String} {cs rest : List Char} {c : Command} :
    arguments? word cs = some (.ok (c, rest)) ↔
      word = c.word ∧ ∃ behind, ReadsLine c cs behind ∧ ReadsText c behind rest := by
  constructor
  · intro read
    unfold arguments? at read
    split at read
    -- the words of a command that takes no line number but a text
    case h_1 | h_7 =>
      cases required : requiredText cs with
      | error e => rw [required] at read; cases read
      | ok text =>
        rw [required] at read
        cases read
        obtain ⟨kept, nonempty⟩ := requiredText_eq_ok_iff.mp required
        exact ⟨rfl, cs, rfl, rfl, kept, fun _ => nonempty⟩
    -- those of a command that takes a line number, with a text or without
    case h_2 | h_3 | h_5 =>
      cases numbered : lineNumber cs with
      | error e => rw [numbered] at read; cases read
      | ok first =>
        rw [numbered] at read
        cases read
        first
        | exact ⟨rfl, first.2, numbered, rfl⟩
        | exact ⟨rfl, first.2, numbered, rfl, rfl, nofun⟩
    -- those of a command that takes nothing
    case h_4 | h_6 | h_8 | h_9 =>
      cases read
      exact ⟨rfl, cs, rfl, rfl⟩
    case h_10 => cases read
  · rintro ⟨rfl, behind, line, text⟩
    cases c with
    | load | evaluate =>
      cases line
      obtain ⟨rfl, kept, nonempty⟩ := text
      have required := requiredText_eq_ok_iff.mpr ⟨kept, nonempty rfl⟩
      simp only [arguments?, Command.word, required]
      rfl
    | breakpoint | remove =>
      cases text
      simp only [arguments?, Command.word, show lineNumber cs = _ from line]
      rfl
    | condition =>
      obtain ⟨rfl, rfl, -⟩ := text
      simp only [arguments?, Command.word, show lineNumber cs = _ from line]
      rfl
    | list | run | stop | resume =>
      cases line
      cases text
      rfl

theorem arguments?_eq_none_iff {word : String} {cs : List Char} :
    arguments? word cs = none ↔ ∀ c : Command, word ≠ c.word := by
  constructor
  · rintro none c rfl
    cases c <;> cases none
  · intro other
    unfold arguments?
    split
    · exact absurd rfl (other (.load ""))
    · exact absurd rfl (other (.breakpoint 0))
    · exact absurd rfl (other (.condition 0 ""))
    · exact absurd rfl (other .list)
    · exact absurd rfl (other (.remove 0))
    · exact absurd rfl (other .run)
    · exact absurd rfl (other (.evaluate ""))
    · exact absurd rfl (other .stop)
    · exact absurd rfl (other .resume)
    · rfl

/-- Reading the arguments fails with reading the line number, or else with reading a text that may
not be empty. -/
theorem arguments?_eq_error_iff {word : String} {cs : List Char} {e : CommandError} :
    arguments? word cs = some (.error e) ↔
      ∃ c : Command, word = c.word ∧
        (c.line?.isSome ∧ lineNumber cs = .error e ∨
          c.line? = none ∧ c.text?.isSome ∧ requiredText cs = .error e) := by
  constructor
  · intro read
    by_cases known : ∃ c : Command, word = c.word
    · obtain ⟨c, rfl⟩ := known
      refine ⟨c, rfl, ?_⟩
      cases c with
      | load | evaluate =>
        cases required : requiredText cs with
        | error e' =>
          simp only [arguments?, Command.word, required] at read
          cases read
          exact .inr ⟨rfl, rfl, rfl⟩
        | ok text =>
          simp only [arguments?, Command.word, required] at read
          cases read
      | breakpoint | condition | remove =>
        cases numbered : lineNumber cs with
        | error e' =>
          simp only [arguments?, Command.word, numbered] at read
          cases read
          exact .inl ⟨rfl, rfl⟩
        | ok first =>
          simp only [arguments?, Command.word, numbered] at read
          cases read
      | list | run | stop | resume => cases read
    · rw [not_exists] at known
      cases read.symm.trans (arguments?_eq_none_iff.mpr known)
  · rintro ⟨c, rfl, ⟨takes, failed⟩ | ⟨without, takes, failed⟩⟩
    · cases c with
      | breakpoint | condition | remove =>
        simp only [arguments?, Command.word, failed]
        rfl
      | load | list | run | evaluate | stop | resume => cases takes
    · cases c with
      | load | evaluate =>
        simp only [arguments?, Command.word, failed]
        rfl
      | breakpoint | condition | remove => cases without
      | list | run | stop | resume => cases takes

/-! ## Reading what has been written -/

theorem exists_readsLine_iff {c : Command} {cs : List Char} {parts : List (List Char)} :
    (∃ rest, ReadsLine c cs rest ∧ LaidOut parts rest) ↔
      (∀ line ∈ c.line?, line < 2 ^ 64) ∧
        ∃ numerals, List.Forall₂ Text.Numeral c.line?.toList numerals ∧
          LaidOut (numerals ++ parts) cs := by
  unfold ReadsLine
  cases c.line? with
  | none => simp
  | some line =>
    simp only [lineNumber_eq_ok_iff, Option.toList_some, Option.mem_some_iff, forall_eq',
      List.forall₂_cons_left_iff, List.forall₂_nil_left_iff]
    constructor
    · rintro ⟨rest, ⟨small, numeral, denotes, first⟩, behind⟩
      exact ⟨small, [numeral], ⟨numeral, [], denotes, rfl, rfl⟩,
        (laidOut_word_iff (isWord_of_numeral denotes)).mpr ⟨rest, first, behind⟩⟩
    · rintro ⟨small, _, ⟨numeral, _, denotes, rfl, rfl⟩, layout⟩
      obtain ⟨rest, first, behind⟩ := (laidOut_word_iff (isWord_of_numeral denotes)).mp layout
      exact ⟨rest, ⟨small, numeral, denotes, first⟩, behind⟩

theorem exists_readsText_iff {c : Command} {cs : List Char} {words : List (List Char)}
    (areWords : ∀ word ∈ words, IsWord word) :
    (∃ rest, ReadsText c cs rest ∧ LaidOut words rest) ↔
      (∀ text ∈ c.text?, Trimmed text.toList) ∧ (c.line? = none → ∀ text ∈ c.text?, text ≠ "") ∧
        (c.text?.isSome → words = []) ∧
          LaidOut (c.text?.toList.flatMap textParts ++ words) cs := by
  unfold ReadsText
  cases c.text? with
  | none => simp
  | some text =>
    have left_over : LaidOut words [] ↔ words = [] := by
      constructor
      · intro layout
        have none := layout.hasMore_iff areWords
        simpa [hasMore] using none
      · rintro rfl
        exact .nil isBlank_nil
    simp only [remainder_eq_iff_laidOut, Option.toList_some, Option.mem_some_iff, forall_eq',
      List.flatMap_singleton, Option.isSome_some, forall_const]
    constructor
    · rintro ⟨rest, ⟨rfl, ⟨trimmed, layout⟩, nonempty⟩, behind⟩
      obtain rfl := left_over.mp behind
      exact ⟨trimmed, nonempty, rfl, by rwa [List.append_nil]⟩
    · rintro ⟨trimmed, nonempty, rfl, layout⟩
      rw [List.append_nil] at layout
      exact ⟨[], ⟨rfl, ⟨trimmed, layout⟩, nonempty⟩, .nil isBlank_nil⟩

theorem isWord_word (c : Command) : IsWord c.word.toList := by
  cases c <;> simp only [Command.word] <;> decide +kernel

/-- The parts of a command come off the line one after the other. -/
theorem writable_and_writtenWith_iff {c : Command} {words : List (List Char)} {line : List Char} :
    c.Writable ∧ c.WrittenWith words line ↔
      (∀ word ∈ words, IsWord word) ∧ ∃ cs behind rest, word? line = some (c.word.toList, cs) ∧
        ReadsLine c cs behind ∧ ReadsText c behind rest ∧ LaidOut words rest := by
  constructor
  · rintro ⟨⟨small, trimmed, nonempty⟩, areWords, no_words, numerals, denote, layout⟩
    obtain ⟨cs, first, layout⟩ := (laidOut_word_iff (isWord_word c)).mp layout
    obtain ⟨behind, line, layout⟩ := exists_readsLine_iff.mpr ⟨small, numerals, denote, layout⟩
    obtain ⟨rest, text, layout⟩ :=
      (exists_readsText_iff areWords).mpr ⟨trimmed, nonempty, no_words, layout⟩
    exact ⟨areWords, cs, behind, rest, first, line, text, layout⟩
  · rintro ⟨areWords, cs, behind, rest, first, line, text, layout⟩
    obtain ⟨trimmed, nonempty, no_words, layout⟩ :=
      (exists_readsText_iff areWords).mp ⟨rest, text, layout⟩
    obtain ⟨small, numerals, denote, layout⟩ := exists_readsLine_iff.mp ⟨behind, line, layout⟩
    exact ⟨⟨small, trimmed, nonempty⟩, areWords, no_words, numerals, denote,
      (laidOut_word_iff (isWord_word c)).mpr ⟨cs, first, layout⟩⟩

/-! ## What a line means -/

/-- Reading the arguments of a command fails with its line number, or else with a text that may not
be empty. -/
def FailsToRead (c : Command) (cs : List Char) (e : CommandError) : Prop :=
  c.line?.isSome ∧ lineNumber cs = .error e ∨
    c.line? = none ∧ c.text?.isSome ∧ requiredText cs = .error e

/-- What a line can mean, by its first word and the arguments behind it. -/
inductive Meaning (line : List Char) : Except CommandError Input → Prop
  | empty (none : word? line = none) : Meaning line (.ok .empty)
  | unknown {word cs : List Char} (first : word? line = some (word, cs))
      (other : ∀ c : Command, word ≠ c.word.toList) : Meaning line (.ok .unknown)
  | failed {c : Command} {cs : List Char} {e : CommandError}
      (first : word? line = some (c.word.toList, cs)) (fails : FailsToRead c cs e) :
      Meaning line (.error e)
  | command {c : Command} {cs behind rest : List Char}
      (first : word? line = some (c.word.toList, cs)) (number : ReadsLine c cs behind)
      (text : ReadsText c behind rest) : Meaning line (.ok (.command c (hasMore rest)))

theorem ofLine_eq_iff_meaning {line : String} {result : Except CommandError Input} :
    ofLine line = result ↔ Meaning line.toList result := by
  constructor
  · rintro rfl
    cases first : word? line.toList with
    | none => simpa only [ofLine, first] using Meaning.empty first
    | some split =>
      obtain ⟨word, cs⟩ := split
      cases arguments : arguments? (String.ofList word) cs with
      | none =>
        have other := arguments?_eq_none_iff.mp arguments
        simp only [ofLine, first, arguments]
        refine .unknown first fun c same => other c ?_
        rw [same, String.ofList_toList]
      | some found =>
        simp only [ofLine, first, arguments]
        cases found with
        | error e =>
          obtain ⟨c, same, fails⟩ := arguments?_eq_error_iff.mp arguments
          rw [← String.toList_ofList (l := word), same] at first
          exact .failed first fails
        | ok found =>
          obtain ⟨c, rest⟩ := found
          obtain ⟨same, behind, number, text⟩ := arguments?_eq_ok_iff.mp arguments
          rw [← String.toList_ofList (l := word), same] at first
          exact .command first number text
  · intro meaning
    cases meaning with
    | empty none => simp only [ofLine, none]
    | @unknown word cs first other =>
      have none : arguments? (String.ofList word) cs = none :=
        arguments?_eq_none_iff.mpr fun c same => other c (by rw [← same, String.toList_ofList])
      simp only [ofLine, first, none]
    | failed first fails =>
      have arguments := arguments?_eq_error_iff.mpr ⟨_, String.ofList_toList, fails⟩
      simp only [ofLine, first, arguments, Except.map]
    | command first number text =>
      have arguments := arguments?_eq_ok_iff.mpr ⟨String.ofList_toList, _, number, text⟩
      simp only [ofLine, first, arguments, Except.map]

theorem writtenWith_written (c : Command) : c.WrittenWith [] c.written.toList := by
  refine ⟨nofun, fun _ => rfl, c.line?.toList.map (Nat.toDigits 10), ?_, ?_⟩
  · rw [List.forall₂_map_right_iff, List.forall₂_same]
    exact fun line _ => .unsigned (Text.digits_toDigits line)
  · rw [Command.written, String.toList_ofList, List.append_nil]
    exact laidOut_intercalate _

theorem ofLine_eq_command_iff {line : String} {c : Command} {extra : Bool} :
    ofLine line = .ok (.command c extra) ↔
      c.Writable ∧ ∃ words, (extra = true ↔ words ≠ []) ∧ c.WrittenWith words line.toList := by
  rw [ofLine_eq_iff_meaning]
  constructor
  · rintro ⟨⟩
    next cs behind rest first number text =>
      obtain ⟨words, areWords, layout⟩ := exists_words rest
      obtain ⟨writable, written⟩ := writable_and_writtenWith_iff.mpr
        ⟨areWords, cs, behind, rest, first, number, text, layout⟩
      exact ⟨writable, words, layout.hasMore_iff areWords, written⟩
  · rintro ⟨writable, words, more, written⟩
    obtain ⟨areWords, cs, behind, rest, first, number, text, layout⟩ :=
      writable_and_writtenWith_iff.mp ⟨writable, written⟩
    obtain rfl : hasMore rest = extra := by
      rw [Bool.eq_iff_iff, layout.hasMore_iff areWords, more]
    exact .command first number text

theorem ofLine_eq_empty_iff {line : String} : ofLine line = .ok .empty ↔ IsBlank line.toList := by
  rw [ofLine_eq_iff_meaning, ← word?_eq_none_iff]
  constructor
  · rintro ⟨none⟩
    exact none
  · exact .empty

theorem ofLine_eq_unknown_iff {line : String} :
    ofLine line = .ok .unknown ↔
      ∃ word rest, FirstWord line.toList word rest ∧ ∀ c : Command, word ≠ c.word.toList := by
  simp only [ofLine_eq_iff_meaning, ← word?_eq_some_iff]
  constructor
  · rintro ⟨⟩
    next word rest first other => exact ⟨word, rest, first, other⟩
  · rintro ⟨word, rest, first, other⟩
    exact .unknown first other

/-- A line fails to be read if its first word is that of a command that takes an argument, and the
first argument is missing or should be a line number and is not. -/
theorem ofLine_eq_error_iff {line : String} {e : CommandError} :
    ofLine line = .error e ↔
      ∃ (c : Command) (cs : List Char), FirstWord line.toList c.word.toList cs ∧
        (e = .missingArgument ∧ (c.line?.isSome ∨ c.text?.isSome) ∧ IsBlank cs ∨
          e = .wrongArgumentType ∧ c.line?.isSome ∧ ∃ word rest, FirstWord cs word rest ∧
            ∀ n < 2 ^ 64, ¬ Text.Numeral n word) := by
  rw [ofLine_eq_iff_meaning]
  constructor
  · rintro ⟨⟩
    next c cs first fails =>
      refine ⟨c, cs, word?_eq_some_iff.mp first, ?_⟩
      rcases fails with ⟨takes, failed⟩ | ⟨-, takes, failed⟩
      · rcases lineNumber_eq_error_iff.mp failed with ⟨rfl, blank⟩ | ⟨rfl, no_number⟩
        · exact .inl ⟨rfl, .inl takes, blank⟩
        · exact .inr ⟨rfl, takes, no_number⟩
      · obtain ⟨rfl, blank⟩ := requiredText_eq_error_iff.mp failed
        exact .inl ⟨rfl, .inr takes, blank⟩
  · rintro ⟨c, cs, first, cause⟩
    have first := word?_eq_some_iff.mpr first
    rcases cause with ⟨rfl, takes, blank⟩ | ⟨rfl, takes, no_number⟩
    · by_cases numbered : c.line?.isSome = true
      · exact .failed first (.inl ⟨numbered, lineNumber_eq_error_iff.mpr (.inl ⟨rfl, blank⟩)⟩)
      · refine .failed first (.inr ⟨Option.not_isSome_iff_eq_none.mp numbered, ?_, ?_⟩)
        · exact takes.resolve_left numbered
        · exact requiredText_eq_error_iff.mpr ⟨rfl, blank⟩
    · exact .failed first (.inl ⟨takes, lineNumber_eq_error_iff.mpr (.inr ⟨rfl, no_number⟩)⟩)

/-- Reading undoes writing. A command is read back from every line on which it is written, whatever
numeral and whatever white space has been chosen, and words left over behind it are noted. No other
line is read as a command, so a command that has been read can be written and read again. The other
lines are told apart by the first word and by what stands behind it. -/
theorem parsing_undoes_writing (line : String) :
    (∀ c : Command, c.Writable → ∀ words, c.WrittenWith words line.toList →
        ofLine line = .ok (.command c !words.isEmpty)) ∧
      (∀ c extra, ofLine line = .ok (.command c extra) →
        c.Writable ∧ (∃ words, (extra = true ↔ words ≠ []) ∧ c.WrittenWith words line.toList) ∧
          c.WrittenWith [] c.written.toList ∧ ofLine c.written = .ok (.command c false)) ∧
      (ofLine line = .ok .empty ↔ IsBlank line.toList) ∧
      (ofLine line = .ok .unknown ↔
        ∃ word rest, FirstWord line.toList word rest ∧ ∀ c : Command, word ≠ c.word.toList) ∧
      ∀ e, ofLine line = .error e ↔
        ∃ (c : Command) (cs : List Char), FirstWord line.toList c.word.toList cs ∧
          (e = .missingArgument ∧ (c.line?.isSome ∨ c.text?.isSome) ∧ IsBlank cs ∨
            e = .wrongArgumentType ∧ c.line?.isSome ∧ ∃ word rest, FirstWord cs word rest ∧
              ∀ n < 2 ^ 64, ¬ Text.Numeral n word) := by
  refine ⟨?_, ?_, ofLine_eq_empty_iff, ofLine_eq_unknown_iff, fun e => ofLine_eq_error_iff⟩
  · intro c writable words written
    exact ofLine_eq_command_iff.mpr ⟨writable, words, by simp, written⟩
  · intro c extra read
    obtain ⟨writable, written⟩ := ofLine_eq_command_iff.mp read
    have again : ofLine c.written = .ok (.command c false) :=
      ofLine_eq_command_iff.mpr ⟨writable, [], by simp, writtenWith_written c⟩
    exact ⟨writable, written, writtenWith_written c, again⟩

/-- A condition is read back from a line with a signed numeral and zeros, and keeps the white space
inside its text. A word behind a command without a text is noted. -/
theorem parsing_undoes_writing_of_condition_and_list :
    ofLine " condition\t+007  t  > 3 " = .ok (.command (.condition 7 "t  > 3") false) ∧
      ofLine "list now" = .ok (.command .list true) := by
  constructor
  · have numeral : Text.Numeral 7 "+007".toList := .plus ⟨2, by decide⟩
    obtain ⟨trimmed, text⟩ :
        Trimmed "t  > 3".toList ∧ LaidOut (textParts "t  > 3") "  t  > 3 ".toList :=
      remainder_eq_iff_laidOut.mp (by decide +kernel)
    refine (parsing_undoes_writing _).1 (.condition 7 "t  > 3") ⟨?_, ?_, nofun⟩ []
      ⟨nofun, fun _ => rfl, ["+007".toList], .cons numeral .nil, ?_⟩
    · rintro line ⟨⟩
      decide
    · rintro text ⟨⟩
      exact trimmed
    · refine (laidOut_word_iff (isWord_word _)).mpr
        ⟨"\t+007  t  > 3 ".toList, by decide +kernel, ?_⟩
      exact (laidOut_word_iff (isWord_of_numeral numeral)).mpr
        ⟨"  t  > 3 ".toList, by decide +kernel, text⟩
  · have isWord : IsWord "now".toList := by decide +kernel
    refine (parsing_undoes_writing _).1 .list ⟨nofun, nofun, nofun⟩ ["now".toList]
      ⟨List.forall_mem_singleton.mpr isWord, nofun, [], .nil, ?_⟩
    refine (laidOut_word_iff (isWord_word .list)).mpr ⟨" now".toList, by decide +kernel, ?_⟩
    exact (laidOut_word_iff isWord).mpr ⟨[], by decide +kernel, .nil isBlank_nil⟩

end Input

end FunLanguage
