import FunLanguage.Proofs.Decoding
import FunLanguage.Proofs.Splitting
import FunLanguage.Transcript

/-!
# Lines of the input and the transcript

The debugger cuts its input at line feeds before it decodes the parts. This comes to the same lines
as cutting the decoded text does (`linesOfBytes_eq`), since a line feed is decoded only from the
byte of one, and no character goes on over this byte. So a transcript is made of the turns that the
lines of the text take, and how the lines are framed, with or without carriage returns and with or
without a line feed at the end of the input, is nothing that it shows
(`transcript_ignores_framing`).
-/

namespace FunLanguage

namespace Text

/-! ## Lines of a text -/

/-- The lines of a text without the carriage returns that end them: what stands in front of each
line feed, and what stands behind the last one, if anything does. -/
def linesOfText (cs : List Char) : List String :=
  let parts := cs.splitOn '\n'
  let lines := if parts.getLast? = some [] then parts.dropLast else parts
  lines.map fun line => String.ofList (trimEnd (· == '\r') line)

variable {cs front : List Char}

theorem linesOfText_nil : linesOfText [] = [] := by
  simp [linesOfText]

theorem linesOfText_last (nonempty : cs ≠ []) (none : '\n' ∉ cs) :
    linesOfText cs = [String.ofList (trimEnd (· == '\r') cs)] := by
  simp [linesOfText, List.splitOn_eq_singleton none, nonempty]

theorem linesOfText_append_cons (none : '\n' ∉ front) (rest : List Char) :
    linesOfText (front ++ '\n' :: rest) =
      String.ofList (trimEnd (· == '\r') front) :: linesOfText rest := by
  obtain ⟨part, parts, cut⟩ := List.exists_cons_of_ne_nil (List.splitOn_ne_nil '\n' rest)
  simp only [linesOfText, List.splitOn_append_cons_self_of_not_mem none, cut,
    List.getLast?_cons_cons, List.dropLast_cons_cons]
  split
  · rfl
  · rfl

/-! ## Lines of bytes -/

variable {bytes before : List UInt8}

theorem lineOfBytes_append_singleton {b : UInt8} (ascii : b < 0x80)
    (ends : isLineEnd (.ofNat b.toNat) = true) (bytes : List UInt8) :
    lineOfBytes (bytes ++ [b]) = lineOfBytes bytes := by
  rw [lineOfBytes, Utf8.decodeLenient_append_cons ascii, Utf8.decodeLenient_nil,
    trimEnd_eq_rdropWhile, List.rdropWhile_concat_pos _ _ _ ends]
  rfl

theorem linesOfBytes_last (nonempty : bytes ≠ []) (none : 0x0A ∉ bytes) :
    linesOfBytes bytes = [lineOfBytes bytes] := by
  rw [linesOfBytes, splitAfter_eq_singleton nonempty none, List.map_singleton]

theorem linesOfBytes_append_cons (none : 0x0A ∉ before) (rest : List UInt8) :
    linesOfBytes (before ++ 0x0A :: rest) = lineOfBytes before :: linesOfBytes rest := by
  rw [linesOfBytes, splitAfter_append_cons none, List.map_cons,
    lineOfBytes_append_singleton (by decide) (by decide)]
  rfl

theorem lf_not_mem_decodeLenient (none : 0x0A ∉ bytes) :
    '\n' ∉ Utf8.decodeLenient bytes := by
  intro mem
  exact none ((Utf8.decoded_decodeLenient bytes).mem_of_mem (by decide) (by decide) mem)

theorem lineOfBytes_eq (none : 0x0A ∉ bytes) :
    lineOfBytes bytes = String.ofList (trimEnd (· == '\r') (Utf8.decodeLenient bytes)) := by
  refine congrArg String.ofList (trimEnd_congr fun c mem => ?_)
  have other : (c == '\n') = false := by
    rw [beq_eq_false_iff_ne]
    rintro rfl
    exact lf_not_mem_decodeLenient none mem
  rw [isLineEnd, other, Bool.or_false]

/-- Lines can be cut before and after decoding. -/
theorem linesOfBytes_eq (bytes : List UInt8) :
    linesOfBytes bytes = linesOfText (Utf8.decodeLenient bytes) := by
  induction bytes using terminator_induction (0x0A : UInt8) with
  | nil =>
    rw [Utf8.decodeLenient_nil, linesOfText_nil]
    rfl
  | last bytes nonempty none =>
    have read : Utf8.decodeLenient bytes ≠ [] := by
      obtain ⟨b, bytes, rfl⟩ := List.exists_cons_of_ne_nil nonempty
      exact Utf8.decodeLenient_cons (Prod.eta _).symm ▸ List.cons_ne_nil _ _
    rw [linesOfBytes_last nonempty none, lineOfBytes_eq none,
      linesOfText_last read (lf_not_mem_decodeLenient none)]
  | piece front rest none ih =>
    have text := linesOfText_append_cons (lf_not_mem_decodeLenient none) (Utf8.decodeLenient rest)
    rw [linesOfBytes_append_cons none, lineOfBytes_eq none,
      Utf8.decodeLenient_append_cons (by decide), ih]
    exact text.symm

/-! ## Framing -/

theorem linesOfBytes_cr (bytes rest : List UInt8) :
    linesOfBytes (bytes ++ 0x0D :: 0x0A :: rest) = linesOfBytes (bytes ++ 0x0A :: rest) := by
  have alone (front : List UInt8) (none : 0x0A ∉ front) :
      linesOfBytes (front ++ 0x0D :: 0x0A :: rest) = linesOfBytes (front ++ 0x0A :: rest) := by
    have none' : 0x0A ∉ front ++ [0x0D] := by simpa using none
    have longer := linesOfBytes_append_cons none' rest
    rw [List.append_assoc, lineOfBytes_append_singleton (by decide) (by decide)] at longer
    rw [linesOfBytes_append_cons none]
    exact longer
  induction bytes using terminator_induction (0x0A : UInt8) with
  | nil => exact alone [] List.not_mem_nil
  | last front _ none => exact alone front none
  | piece front tail none ih =>
    simp only [List.append_assoc, List.cons_append]
    rw [linesOfBytes_append_cons none, linesOfBytes_append_cons none, ih]

/-- Bytes in which some of the line feeds, perhaps none or all, have got a carriage return in front
of them. -/
inductive WithReturns : List UInt8 → List UInt8 → Prop where
  | nil : WithReturns [] []
  | same (b : UInt8) {bytes bytes' : List UInt8} :
      WithReturns bytes bytes' → WithReturns (b :: bytes) (b :: bytes')
  | added {bytes bytes' : List UInt8} :
      WithReturns bytes bytes' → WithReturns (0x0A :: bytes) (0x0D :: 0x0A :: bytes')

theorem WithReturns.linesOfBytes_eq {bytes' : List UInt8} (h : WithReturns bytes bytes')
    (before : List UInt8) : linesOfBytes (before ++ bytes') = linesOfBytes (before ++ bytes) := by
  induction h generalizing before with
  | nil => rfl
  | same b _ ih => simpa using ih (before ++ [b])
  | added _ ih =>
    have longer := ih (before ++ [0x0A])
    rw [List.append_assoc, List.append_assoc] at longer
    rw [linesOfBytes_cr]
    exact longer

theorem linesOfBytes_append_lf (nonempty : bytes ≠ []) (unended : bytes.getLast? ≠ some 0x0A) :
    linesOfBytes (bytes ++ [0x0A]) = linesOfBytes bytes := by
  induction bytes using terminator_induction (0x0A : UInt8) with
  | nil => exact absurd rfl nonempty
  | last bytes _ none =>
    rw [linesOfBytes_append_cons none, linesOfBytes_last nonempty none]
    rfl
  | piece front rest none ih =>
    cases rest with
    | nil => exact absurd (by simp) unended
    | cons b rest =>
      have behind : (b :: rest).getLast? ≠ some 0x0A := by
        simpa [List.getLast?_append] using unended
      rw [List.append_assoc, List.cons_append, linesOfBytes_append_cons none,
        linesOfBytes_append_cons none, ih (List.cons_ne_nil b rest) behind]

end Text

namespace Debugger

variable {d next last : Debugger} {budget : Nat} {host : Host} {lines : List String}
  {turns : List (String × String)}

/-! ## Turns -/

/-- The turns that lines take, each with the prompt that is shown for it and the text that the line
makes the debugger write. -/
inductive Turns (budget : Nat) (host : Host) :
    (d : Debugger) → List String → List (String × String) → (last : Debugger) → Prop where
  | nil (d : Debugger) : Turns budget host d [] [] d
  | cons {d next last : Debugger} {line written : String} {lines : List String}
      {turns : List (String × String)} :
      d.executeLine budget host line = some (next, written) →
      Turns budget host next lines turns last →
      Turns budget host d (line :: lines) ((d.prompt, written) :: turns) last

/-- What is shown of turns: the prompt of each, and behind it what was written. -/
def shown (turns : List (String × String)) : String :=
  String.join (turns.map fun turn => turn.1 ++ turn.2)

@[simp] theorem shown_cons (turn : String × String) (turns : List (String × String)) :
    shown (turn :: turns) = turn.1 ++ turn.2 ++ shown turns := by
  simp [shown, String.join_cons]

theorem Turns.length_eq (h : Turns budget host d lines turns last) :
    turns.length = lines.length := by
  induction h with
  | nil => rfl
  | cons _ _ ih => rw [List.length_cons, List.length_cons, ih]

theorem converse_nil : d.converse budget host [] = some (d, d.prompt) := by
  simp [converse, respondEach]

/-- The prompt that a line is responded with is the one in front of what comes of the next line. -/
theorem converse_cons (line : String) : d.converse budget host (line :: lines) = (do
    let (next, written) ← d.executeLine budget host line
    let (last, rest) ← next.converse budget host lines
    return (last, d.prompt ++ written ++ rest)) := by
  rw [converse, respondEach, respond]
  cases d.executeLine budget host line with
  | none => rfl
  | some executed =>
    simp only [converse, Option.map_some, Option.bind_eq_bind, Option.bind_some]
    cases executed.1.respondEach budget host lines with
    | none => rfl
    | some responded => simp [String.append_assoc]

theorem converse_eq_some_iff {text : String} : d.converse budget host lines = some (last, text) ↔
    ∃ turns, Turns budget host d lines turns last ∧ text = shown turns ++ last.prompt := by
  induction lines generalizing d last text with
  | nil =>
    constructor
    · intro conversed
      rw [converse_nil] at conversed
      cases conversed
      exact ⟨[], .nil d, by simp [shown]⟩
    · rintro ⟨turns, taken, rfl⟩
      cases taken
      simp [converse_nil, shown]
  | cons line lines ih =>
    simp only [converse_cons, Option.bind_eq_bind, Option.bind_eq_some_iff, Prod.exists]
    constructor
    · rintro ⟨next, written, executed, last, text, conversed, told⟩
      obtain ⟨turns, taken, rfl⟩ := ih.mp conversed
      cases told
      exact ⟨_, .cons executed taken, by simp [String.append_assoc]⟩
    · rintro ⟨turns, taken, rfl⟩
      cases taken with
      | cons executed taken =>
        exact ⟨_, _, executed, _, _, ih.mpr ⟨_, taken, rfl⟩, by simp [String.append_assoc]⟩

/-- There is no transcript only if a line is reached that is not carried out within the budget. -/
theorem converse_eq_none_iff : d.converse budget host lines = none ↔
    ∃ done line rest turns before, lines = done ++ line :: rest ∧
      Turns budget host d done turns before ∧ before.executeLine budget host line = none := by
  induction lines generalizing d with
  | nil => simp [converse_nil]
  | cons line lines ih =>
    rcases executed : d.executeLine budget host line with _ | ⟨next, written⟩
    · refine iff_of_true ?_ ⟨[], line, lines, [], d, rfl, .nil d, executed⟩
      rw [converse_cons, executed]
      rfl
    · have behind : d.converse budget host (line :: lines) = none ↔
          next.converse budget host lines = none := by
        rcases conversed : next.converse budget host lines with _ | ⟨last, text⟩ <;>
          simp [converse_cons, executed, conversed]
      rw [behind, ih]
      constructor
      · rintro ⟨done, stuck, rest, turns, before, rfl, taken, none⟩
        exact ⟨line :: done, stuck, rest, _, before, rfl, .cons executed taken, none⟩
      · rintro ⟨done, stuck, rest, turns, before, cut, taken, none⟩
        cases taken with
        | nil =>
          cases cut
          rw [executed] at none
          cases none
        | cons executed' taken =>
          cases cut
          rw [executed] at executed'
          cases executed'
          exact ⟨_, stuck, rest, _, before, rfl, taken, none⟩

/-! ## Transcripts -/

variable {input : List UInt8}

theorem transcript_congr {input' : List UInt8}
    (same : Text.linesOfBytes input' = Text.linesOfBytes input) :
    d.transcript budget host input' = d.transcript budget host input := by
  rw [transcript, transcript, same]

theorem transcript_eq_some_iff {text : String} :
    d.transcript budget host input = some (last, text) ↔
    ∃ turns before, Turns budget host d (Text.linesOfBytes input) turns before ∧
      last = before.stop ∧ text = shown turns ++ before.prompt := by
  rw [transcript, Option.map_eq_some_iff]
  constructor
  · rintro ⟨⟨before, text⟩, conversed, told⟩
    obtain ⟨turns, taken, rfl⟩ := converse_eq_some_iff.mp conversed
    cases told
    exact ⟨turns, before, taken, rfl, rfl⟩
  · rintro ⟨turns, before, taken, rfl, rfl⟩
    exact ⟨_, converse_eq_some_iff.mpr ⟨turns, taken, rfl⟩, rfl⟩

/-- The whole input holds one text, and the transcript is made of the turns that the lines of this
text take one after the other, with a prompt for each and one more, and a run that is suspended by
then is abandoned. It fails to be one only where a line is not carried out within the budget. So
carriage returns in front of line feeds change nothing, and neither does a line feed behind the last
line. -/
theorem transcript_ignores_framing (d : Debugger) (budget : Nat) (host : Host)
    (input : List UInt8) :
    (∃ cs, ∀ cs', Text.Utf8.Decoded input cs' ↔ cs' = cs) ∧
    (∀ cs, Text.Utf8.Decoded input cs →
      (∀ last text, d.transcript budget host input = some (last, text) ↔
        ∃ turns before, Turns budget host d (Text.linesOfText cs) turns before ∧
          turns.length = (Text.linesOfText cs).length ∧ last = before.stop ∧
          text = shown turns ++ before.prompt) ∧
      (d.transcript budget host input = none ↔
        ∃ done line rest turns before, Text.linesOfText cs = done ++ line :: rest ∧
          Turns budget host d done turns before ∧ before.executeLine budget host line = none)) ∧
    (∀ last text, d.transcript budget host input = some (last, text) → last.isSuspended = false) ∧
    (∀ input', Text.WithReturns input input' →
      d.transcript budget host input' = d.transcript budget host input) ∧
    (input ≠ [] → input.getLast? ≠ some 0x0A →
      d.transcript budget host (input ++ [0x0A]) = d.transcript budget host input) := by
  refine ⟨⟨Text.Utf8.decodeLenient input, fun cs' => ?_⟩,
    fun cs decoded => ⟨fun last text => ?_, ?_⟩,
    fun last text written => ?_, fun input' framed => transcript_congr (framed.linesOfBytes_eq []),
    fun nonempty unended => transcript_congr (Text.linesOfBytes_append_lf nonempty unended)⟩
  · rw [← Text.Utf8.decodeLenient_eq_iff, eq_comm]
  · rw [transcript_eq_some_iff, Text.linesOfBytes_eq, Text.Utf8.decodeLenient_eq_iff.mpr decoded]
    constructor
    · rintro ⟨turns, before, taken, ended, told⟩
      exact ⟨turns, before, taken, taken.length_eq, ended, told⟩
    · rintro ⟨turns, before, taken, -, ended, told⟩
      exact ⟨turns, before, taken, ended, told⟩
  · rw [transcript, Option.map_eq_none_iff, converse_eq_none_iff, Text.linesOfBytes_eq,
      Text.Utf8.decodeLenient_eq_iff.mpr decoded]
  · obtain ⟨turns, before, -, rfl, -⟩ := transcript_eq_some_iff.mp written
    rfl

theorem transcript_ignores_framing_of_cut_character :
    let host : Host := { read := fun _ => .error .notFound }
    let input : List UInt8 := [0xC3, 0x0A, 0x20, 0x0A, 0x72, 0x75, 0x6E]
    let text := ">>Warning: empty command ignored\n>Error: no program loaded\n>"
    Text.Utf8.Decoded input ['\ufffd', '\n', ' ', '\n', 'r', 'u', 'n'] ∧
      Text.WithReturns input [0xC3, 0x0D, 0x0A, 0x20, 0x0A, 0x72, 0x75, 0x6E] ∧
      (∃ turns before, Turns 0 host {} ["\ufffd", " ", "run"] turns before ∧ turns.length = 3 ∧
        before.stop.isSuspended = false ∧ shown turns ++ before.prompt = text) ∧
      (transcript {} 0 host [0xC3, 0x0D, 0x0A, 0x20, 0x0A, 0x72, 0x75, 0x6E]).map (·.2) =
        some text ∧
      (transcript {} 0 host (input ++ [0x0A])).map (·.2) = some text := by
  intro host input text
  have decoded : Text.Utf8.Decoded input ['\ufffd', '\n', ' ', '\n', 'r', 'u', 'n'] :=
    Text.Utf8.decodeLenient_eq_iff.mp (by decide +kernel)
  have framed : Text.WithReturns input [0xC3, 0x0D, 0x0A, 0x20, 0x0A, 0x72, 0x75, 0x6E] :=
    .same _ (.added (.same _ (.same _ (.same _ (.same _ (.same _ .nil))))))
  have written : (transcript {} 0 host input).map (·.2) = some text := by decide +kernel
  have lines :
      Text.linesOfText ['\ufffd', '\n', ' ', '\n', 'r', 'u', 'n'] = ["\ufffd", " ", "run"] := by
    decide +kernel
  obtain ⟨-, conversed, ended, returns, feed⟩ := transcript_ignores_framing {} 0 host input
  refine ⟨decoded, framed, ?_, ?_, ?_⟩
  · obtain ⟨⟨last, shows⟩, told, same⟩ := Option.map_eq_some_iff.mp written
    have stopped := ended last shows told
    obtain ⟨turns, before, taken, length, rfl, rfl⟩ := ((conversed _ decoded).1 last shows).mp told
    rw [lines] at taken length
    exact ⟨turns, before, taken, length, stopped, same⟩
  · rw [returns _ framed]
    exact written
  · rw [feed (by decide) (by decide)]
    exact written

end Debugger

end FunLanguage
