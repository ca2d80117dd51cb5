import FunLanguage.Proofs.Causes
import FunLanguage.Proofs.Diagnostics
import FunLanguage.Proofs.Grammar.Headings
import FunLanguage.Proofs.Grammar.Places

/-!
# The places of faults

The line of a token is counted while the text is scanned, and the span of a line is found by cutting
the text. As both agree, the span of a token lies in the span of its line (`Token.within_of_scan`).
A fault that ends a run points at the line of the node that caused it, and the node has this line
from a token, so the bytes of the token are among those of the fault's span. But a diagnostic takes
these offsets for numbers of characters. It marks the token only if there are not too many
characters of several bytes in the lines above it, and enough characters in the text
(`Fault.marks_token_iff`).
-/

namespace FunLanguage

open Text (byteLength)

/-! ## Tokens on lines -/

theorem Piece.Form.not_isLineEnd {kind : TokenKind} {text : List Char}
    (form : (Piece.lexeme kind text).Form) : ∀ c ∈ text, Text.isLineEnd c = false := by
  intro c mem
  refine Bool.eq_false_iff.mpr fun ends => ?_
  have blank : isBlank c = true := by
    simp only [Text.isLineEnd, Bool.or_eq_true, beq_iff_eq] at ends
    rcases ends with rfl | rfl <;> rfl
  cases blank.symm.trans (form.not_isBlank c mem)

theorem Cuts.within {source : String} {pieces : List Piece} {t : Token}
    (cuts : Cuts source.toList pieces []) (mem : t ∈ Piece.tokens .origin pieces) :
    t.span.Within (.ofLine source t.line) := by
  obtain ⟨before, after, whole, span, line⟩ := cuts.standsIn mem
  obtain ⟨front, kind, text, back, rfl, rfl⟩ := Piece.exists_of_mem_tokens mem
  have form := cuts.form_of_mem (List.mem_append_right front List.mem_cons_self)
  rw [span, line]
  rw [String.toList_ofList] at whole ⊢
  exact Span.part_within_ofLine whole form.text_ne_nil form.not_isLineEnd

/-- Every token but the end mark lies in the span of its line. -/
theorem Token.within_of_scan {source : String} {tokens : List Token}
    (scanned : scan source = .ok tokens) {t : Token} (mem : t ∈ tokens) (real : t.kind ≠ .endMark) :
    t.span.Within (.ofLine source t.line) := by
  obtain ⟨pieces, cuts, rfl⟩ := scan_eq_ok_iff.mp scanned
  rcases List.mem_append.mp mem with inside | last
  · exact cuts.within inside
  · obtain rfl := List.mem_singleton.mp last
    exact absurd rfl real

/-- Every token but the end mark stands in the text where it says, and is not empty. -/
theorem Token.standsIn_of_scan {source : String} {tokens : List Token}
    (scanned : scan source = .ok tokens) {t : Token} (mem : t ∈ tokens) (real : t.kind ≠ .endMark) :
    t.StandsIn source.toList ∧ t.span.start < t.span.stop := by
  obtain ⟨pieces, cuts, rfl⟩ := scan_eq_ok_iff.mp scanned
  rcases List.mem_append.mp mem with inside | last
  · obtain ⟨-, stands, proper, -⟩ := cuts.token_spec inside
    exact ⟨stands, proper⟩
  · obtain rfl := List.mem_singleton.mp last
    exact absurd rfl real

theorem Token.StandsIn.hasLine {source : List Char} {t : Token} (stands : t.StandsIn source)
    (proper : t.span.start < t.span.stop) : Text.HasLine source t.line := by
  obtain ⟨front, back, whole, span, line⟩ := stands
  cases text : t.lexeme.toList with
  | nil => simp [span, text] at proper
  | cons c cs => exact ⟨front, c, cs ++ back, by simp [whole, text], line⟩

/-- A text without characters of several bytes has one byte for each character. -/
theorem Text.byteLength_of_narrow {cs : List Char} (narrow : ∀ c ∈ cs, c.utf8Size = 1) :
    byteLength cs = cs.length := by
  induction cs with
  | nil => rfl
  | cons c cs ih =>
    obtain ⟨first, others⟩ := List.forall_mem_cons.mp narrow
    rw [byteLength_cons, first, ih others, List.length_cons, Nat.add_comm]

/-! ## Nodes and the tokens that head them -/

/-- The node whose token gives the line of a node: an operator is on the line of the operand that it
starts with. -/
def Node.headed : Node → Node
  | .expression e => .expression e.leftmost
  | node => node

namespace Node

theorem length_preorder_lt {node part : Node} (inside : part ∈ node.parts) :
    part.preorder.length < node.preorder.length := by
  obtain ⟨front, back, same⟩ := List.append_of_mem inside
  rw [node.preorder_eq, same]
  simp
  omega

theorem part_mem_preorder {tree node part : Node} (mem : node ∈ tree.preorder)
    (inside : part ∈ node.parts) : part ∈ tree.preorder := by
  rw [preorder_eq] at mem ⊢
  rcases List.mem_cons.mp mem with rfl | deeper
  · refine List.mem_cons_of_mem _ (List.mem_flatMap.mpr ⟨part, inside, ?_⟩)
    rw [preorder_eq]
    exact List.mem_cons_self
  · obtain ⟨sub, isPart, mem⟩ := List.mem_flatMap.mp deeper
    exact List.mem_cons_of_mem _ (List.mem_flatMap.mpr ⟨sub, isPart, part_mem_preorder mem inside⟩)
termination_by tree.preorder.length
decreasing_by exact length_preorder_lt isPart

theorem preorder_program (p : Program) : (program p).preorder =
    .program p :: .block p.block :: Stmt.listPreorder p.block.statements := by
  rw [listPreorder_statements, preorder_eq, parts, List.flatMap_singleton, preorder_eq, parts]

theorem Has.mem_preorder {tree node : Node} (has : tree.Has node) : node ∈ tree.preorder := by
  induction has with
  | whole =>
    rw [preorder_eq]
    exact List.mem_cons_self
  | part _ inside ih => exact part_mem_preorder ih inside

theorem Has.leftmost {tree : Node} {e : Expr} (has : tree.Has (.expression e)) :
    tree.Has (.expression e.leftmost) := by
  induction e using Expr.leftmost.induct with
  | case1 op left right line ih => exact ih (.part has List.mem_cons_self)
  | case2 e other =>
    rw [Expr.leftmost]
    · exact has
    · exact other

end Node

namespace Token

theorem behindNames_suffix (t : Token) (ts : List Token) : t.behindNames ts <:+ ts := by
  unfold behindNames
  split
  · exact List.dropWhile_suffix _
  · exact List.drop_suffix 1 ts
  · exact List.suffix_rfl

/-- What is headed among tokens is headed by one of them. -/
theorem exists_of_mem_headings {ts : List Token} {heading : NodeKind × Nat}
    (mem : heading ∈ headings ts) :
    ∃ before t after, ts = before ++ t :: after ∧ t.heading? after = some heading := by
  induction ts using headings.induct with
  | case1 => 
    rw [headings] at mem
    cases mem
  | case2 t ts ih => 
    rw [headings, List.mem_append] at mem
    rcases mem with here | later
    · exact ⟨[], t, ts, rfl, by simpa using here⟩
    · obtain ⟨before, t', after, same, headed⟩ := ih later
      obtain ⟨skipped, whole⟩ := t.behindNames_suffix ts
      refine ⟨t :: skipped ++ before, t', after, ?_, headed⟩
      rw [same] at whole
      rw [← whole]
      simp

theorem line_of_heading? {t : Token} {ts : List Token} {kind : NodeKind} {line : Nat}
    (headed : t.heading? ts = some (kind, line)) (other : kind ≠ .block) : t.line = line := by
  unfold heading? at headed
  split at headed <;> cases headed
  all_goals first | rfl | exact absurd rfl other

end Token

/-! ## Nodes that cause faults -/

theorem Expr.exists_heading_leftmost (e : Expr) : ∃ kind, kind ≠ .block ∧
    (Node.expression e.leftmost).heading? = some (kind, e.leftmost.line) := by
  induction e using Expr.leftmost.induct with
  | case1 op left right line ih => exact ih
  | case2 e other =>
    cases e with
    | literal value line => exact ⟨.literal, nofun, rfl⟩
    | identifier name line => exact ⟨.identifier, nofun, rfl⟩
    | call name arguments line => exact ⟨.call, nofun, rfl⟩
    | binary op left right line => exact absurd rfl (other op left right line)

/-- What causes a fault is headed by a token. -/
theorem Sighting.Causes.exists_heading {v : Sighting} {fault : Fault} (h : v.Causes fault) :
    ∃ kind, kind ≠ .block ∧ v.node.headed.heading? = some (kind, v.node.headed.line) := by
  cases h with
  | unknownVariable => exact ⟨.identifier, nofun, rfl⟩
  | unknownTarget => exact ⟨.assignment, nofun, rfl⟩
  | unknownFunction => exact ⟨.call, nofun, rfl⟩
  | boundVariable => exact ⟨.declaration, nofun, rfl⟩
  | boundFunction => exact ⟨.definition, nofun, rfl⟩
  | division => exact Expr.exists_heading_leftmost _
  | mismatch => exact ⟨.call, nofun, rfl⟩

/-- The place of a fault is the line of its cause. -/
theorem Sighting.Causes.span_eq {v : Sighting} {fault : Fault} (h : v.Causes fault)
    (source : String) : fault.span source = .ofLine source v.node.line := by
  cases h <;> rfl

theorem Sighting.Causes.headed_mem {v : Sighting} {fault : Fault} {tree : Node} (h : v.Causes fault)
    (has : tree.Has v.node) : tree.Has v.node.headed := by
  cases h with
  | division => exact has.leftmost
  | _ => exact has

/-- A run that ends in a fault has visited what causes it. -/
theorem Machine.exists_cause_of_run {program : Program} {budget : Nat} {fault : Fault}
    {world : World}
    (ran : (ofProgram program).run budget = some (.error fault, world)) :
    ∃ v ∈ (ofProgram program).sightings budget, (Node.program program).Has v.node ∧
      v.Causes fault := by
  obtain ⟨n, lt, ended, -⟩ := run_eq_some_iff.mp ran
  obtain ⟨space, explained⟩ := explained_after program n
  obtain ⟨empty, ⟨value, -, failed⟩ | ⟨fault', raised, failed⟩⟩ := outcome?_eq_some_iff.mp ended
  · cases failed
  · cases failed
    have caused := explained.raised fault raised
    rw [empty] at caused
    obtain ⟨v, mem, causes, -⟩ := (Fault.explained_iff (caused.passing nofun)).mp caused
    rw [← sightings_eq_of_le ended (Nat.le_of_lt lt)] at mem
    exact ⟨v, mem, has_of_mem_sightings mem, causes⟩

/-- What causes a fault in the program of a source has its line from a token of the source, which
heads it, or the operand that it starts with. -/
theorem Sighting.Causes.exists_token {v : Sighting} {fault : Fault} {source : String} {p : Program}
    (h : v.Causes fault) (read : Program.ofSource source = .ok p)
    (has : (Node.program p).Has v.node) : ∃ before t after mark,
      Token.scan source = .ok (before ++ t :: after ++ [mark]) ∧ t.kind ≠ .endMark ∧
      t.heading? after = v.node.headed.heading? ∧ t.line = v.node.line := by
  obtain ⟨tokens, scanned⟩ := Program.exists_scan_of_ofSource read
  obtain ⟨pieces, cuts, rfl⟩ := Token.scan_eq_ok_iff.mp scanned
  have real : ∀ t ∈ Piece.tokens .origin pieces, t.kind ≠ .endMark :=
    fun t mem => (cuts.token_spec mem).1
  obtain ⟨headings, joined, -⟩ := Grammar.follow_of_file
    ((Grammar.ofSource_eq_ok_iff scanned real rfl).mp read)
  obtain ⟨kind, other, headed⟩ := h.exists_heading
  have mem : (kind, v.node.headed.line) ∈ Token.headings (Piece.tokens .origin pieces) := by
    rw [headings]
    refine List.mem_filterMap.mpr ⟨v.node.headed, ?_, headed⟩
    have inside := (h.headed_mem has).mem_preorder
    rw [Node.preorder_program] at inside
    rcases List.mem_cons.mp inside with whole | inside
    · rw [whole] at headed
      cases headed
    · rcases List.mem_cons.mp inside with block | inside
      · rw [block] at headed
        cases headed
        exact absurd rfl other
      · exact inside
  obtain ⟨before, t, after, same, heading⟩ := Token.exists_of_mem_headings mem
  rw [same] at scanned real
  refine ⟨before, t, after, _, scanned, real t (by simp), heading.trans headed.symm, ?_⟩
  rw [Token.line_of_heading? heading other]
  cases h with
  | division => exact (joined _ _ _ _ has.mem_preorder).2.symm
  | _ => rfl

namespace Fault

/-- In a text without characters of several bytes the offsets of a fault's span are those of the
characters. -/
theorem marks_of_byteLength {fault : Fault} {source : String} {front back : List Char} {t : Token}
    {line : Nat} (place : fault.span source = .ofLine source line)
    (has : Text.HasLine source.toList line)
    (whole : source.toList = front ++ t.lexeme.toList ++ back)
    (within : Span.Within ⟨byteLength front, byteLength front + byteLength t.lexeme.toList⟩
      (fault.span source))
    (narrow : ∀ c ∈ source.toList, c.utf8Size = 1) (filename? : Option String) :
    (fault.diagnostic source filename?).Marks
      ⟨front.length, front.length + t.lexeme.length⟩ := by
  obtain ⟨proper, bound⟩ := Span.ofLine_bounds has
  rw [Text.byteLength_of_narrow narrow, String.length_toList] at bound
  rw [Text.byteLength_of_narrow fun c mem => narrow c (by simp [whole, mem]),
    Text.byteLength_of_narrow fun c mem => narrow c (by simp [whole, mem]),
    String.length_toList] at within
  rw [marks_iff (place ▸ proper)]
  exact ⟨place ▸ bound, within⟩

/-- The line that is counted for a token while the text is scanned is the line whose span covers the
token. The lines of any text are numbered from 1 on, by the line feeds in front of a character and
by the pieces between them alike. Their spans are not empty, stand one behind the other within the
text, and cover every character but those that end the lines; a line that does not exist has the
span of the byte behind the text. So the span of a fault that ends the run of a source holds the
bytes of the token that gives its line to the node that caused the fault.

The diagnostic takes the offsets of this span for numbers of characters. Its location is that of the
character whose number is the start of the span. It marks the token exactly if there are no
more bytes in front of the line of the token than characters in front of the token, and no fewer
characters in the text than bytes up to the end of the line. In a text without characters of several
bytes it always marks the token. -/
theorem marks_token_iff (source : String) :
    (∀ tokens, Token.scan source = .ok tokens → ∀ t ∈ tokens, t.kind ≠ .endMark →
      t.span.Within (.ofLine source t.line)) ∧
    ((∀ k, Text.HasLine source.toList k ↔ 1 ≤ k ∧ k ≤ (Text.lines source.toList).length) ∧
      (∀ k, Text.HasLine source.toList k →
        (Span.ofLine source k).start < (Span.ofLine source k).stop ∧
        (Span.ofLine source k).stop ≤ byteLength source.toList) ∧
      (∀ j k, Text.HasLine source.toList j → Text.HasLine source.toList k → j < k →
        (Span.ofLine source j).stop ≤ (Span.ofLine source k).start) ∧
      (∀ before c after, source.toList = before ++ c :: after → ¬ Text.EndsLine c after →
        Span.Within ⟨byteLength before, byteLength before + c.utf8Size⟩
          (.ofLine source (1 + before.count '\n'))) ∧
      ∀ k, ¬ Text.HasLine source.toList k → Span.ofLine source k =
        ⟨byteLength source.toList, byteLength source.toList + 1⟩) ∧
    ∀ p, Program.ofSource source = .ok p →
      ∀ budget fault world, (Machine.ofProgram p).run budget = some (.error fault, world) →
        ∃ v ∈ (Machine.ofProgram p).sightings budget, (Node.program p).Has v.node ∧
          v.Causes fault ∧ fault.span source = .ofLine source v.node.line ∧
          ∃ before t after mark, Token.scan source = .ok (before ++ t :: after ++ [mark]) ∧
            t.heading? after = v.node.headed.heading? ∧ t.line = v.node.line ∧
            t.span.Within (fault.span source) ∧
            ∃ front back, source.toList = front ++ t.lexeme.toList ++ back ∧
              t.span = ⟨byteLength front, byteLength front + byteLength t.lexeme.toList⟩ ∧
              ∀ filename?,
                ((fault.diagnostic source filename?).Marks
                    ⟨front.length, front.length + t.lexeme.length⟩ ↔
                  (fault.span source).start ≤ front.length ∧
                    (fault.span source).stop ≤ source.length) ∧
                ((fault.span source).stop ≤ source.length + 1 → ∃ number column,
                  Text.ShownAt source.toList (fault.span source).start number column ∧
                  (fault.diagnostic source filename?).location? =
                    some (filename?.getD "<input>" ++ ":" ++ toString number ++ ":" ++
                      toString column)) ∧
                (source.length + 1 < (fault.span source).stop →
                  fault.diagnostic source filename? = { headline := fault.headline }) ∧
                ((∀ c ∈ source.toList, c.utf8Size = 1) →
                  (fault.diagnostic source filename?).Marks
                    ⟨front.length, front.length + t.lexeme.length⟩) := by
  refine ⟨fun tokens scanned t mem real => Token.within_of_scan scanned mem real,
    ⟨fun k => Text.hasLine_iff, fun k has => Span.ofLine_bounds has,
      fun j k has has' lt => Span.ofLine_stop_le_start has has' lt,
      fun before c after whole stays => Span.within_ofLine whole stays,
      fun k none => Span.ofLine_of_not_hasLine none⟩,
    fun p read budget fault world ran => ?_⟩
  obtain ⟨v, mem, has, causes⟩ := Machine.exists_cause_of_run ran
  obtain ⟨before, t, after, mark, scanned, real, heading, line⟩ := causes.exists_token read has
  have place := causes.span_eq source
  have within : t.span.Within (fault.span source) := by
    rw [place, ← line]
    exact Token.within_of_scan scanned (by simp) real
  obtain ⟨stands, wide⟩ := Token.standsIn_of_scan scanned (t := t) (by simp) real
  have onLine := stands.hasLine wide
  obtain ⟨front, back, whole, span, -⟩ := stands
  rw [line] at onLine
  have proper : (fault.span source).start < (fault.span source).stop :=
    place ▸ (Span.ofLine_bounds onLine).1
  have nonempty : source.toList ≠ [] := by
    obtain ⟨above, c, below, same, -⟩ := onLine
    simp [same]
  refine ⟨v, mem, has, causes, place, before, t, after, mark, scanned, heading, line, within, front,
    back, whole, span, fun filename? => ⟨?_, fun le => exists_location? nonempty proper le,
      fun lt => diagnostic_of_lt proper lt, ?_⟩⟩
  · rw [marks_iff proper]
    constructor
    · rintro ⟨le, start, -⟩
      exact ⟨start, le⟩
    · rintro ⟨start, le⟩
      -- There are no more characters up to the end of the token than bytes.
      have chars := Text.length_le_byteLength (front ++ t.lexeme.toList)
      rw [List.length_append, String.length_toList, Text.byteLength_append] at chars
      rw [span] at within
      exact ⟨le, start, chars.trans within.2⟩
  · intro narrow
    rw [span] at within
    exact marks_of_byteLength place onLine whole within narrow filename?

/-- A name on the third line, behind a line feed and a line that ends with a carriage return too. -/
theorem marks_token_iff_of_unknown :
    let source := "\n\x0d\n a\x0d\x0d"
    let p : Program := ⟨⟨[.expression (.identifier "a" 3)], 3⟩, 3⟩
    let t : Token := ⟨.identifier, "a", ⟨4, 5⟩, 3⟩
    let mark : Token := ⟨.endMark, "", ⟨7, 8⟩, 3⟩
    let fault : Fault := .unknownIdentifier "a" 3
    (Token.scan source = .ok [t, mark] ∧ t.span.Within (.ofLine source 3)) ∧
      (Text.HasLine source.toList 2 ∧ Text.HasLine source.toList 3 ∧
        (Span.ofLine source 2).stop ≤ (Span.ofLine source 3).start ∧
        (Span.ofLine source 3).stop ≤ 7 ∧ Span.Within ⟨3, 4⟩ (.ofLine source 3) ∧
        ¬ Text.HasLine source.toList 4 ∧ Span.ofLine source 4 = ⟨7, 8⟩) ∧
      Program.ofSource source = .ok p ∧
      ∃ world, (Machine.ofProgram p).run 10 = some (.error fault, world) ∧
        ∃ before t after mark front, Token.scan source = .ok (before ++ t :: after ++ [mark]) ∧
          t.line = 3 ∧ t.span.Within (fault.span source) ∧
          (fault.diagnostic source none).Marks ⟨front, front + t.lexeme.length⟩ := by
  intro source p t mark fault
  have scanned : Token.scan source = .ok [t, mark] := by decide +kernel
  have chars : source.toList = ['\n', '\x0d', '\n', ' ', 'a', '\x0d', '\x0d'] := by decide +kernel
  have real : ∀ t' ∈ [t], t'.kind ≠ .endMark := by decide
  have name : Grammar.Operand [t] (.identifier "a" 3) ([] ++ []) :=
    .identifier rfl (by simp [Grammar.Starts])
  have file : Grammar.File mark [t] p :=
    .statements (.some (.expression (name.level _)) (by simp) .none)
  have parsed : Program.ofSource source = .ok p :=
    (Grammar.ofSource_eq_ok_iff scanned real rfl).mpr file
  obtain ⟨world, ran⟩ : ∃ world, (Machine.ofProgram p).run 10 = some (.error fault, world) :=
    ⟨_, rfl⟩
  obtain ⟨tokens, ⟨exist, bounds, ordered, cover, other⟩, faults⟩ := marks_token_iff source
  have second : Text.HasLine source.toList 2 := (exist 2).mpr (by decide +kernel)
  have third : Text.HasLine source.toList 3 := (exist 3).mpr (by decide +kernel)
  have fourth : ¬ Text.HasLine source.toList 4 := mt (exist 4).mp (by decide +kernel)
  have blank : ¬ Text.EndsLine ' ' ['a', '\x0d', '\x0d'] := by
    rintro (feed | ⟨back, -⟩)
    · exact absurd feed (by decide)
    · exact absurd back (by decide)
  have stop := (bounds 3 third).2
  have behind := other 4 fourth
  rw [show byteLength source.toList = 7 by decide +kernel] at stop behind
  obtain ⟨v, -, -, causes, -, before, t', after, mark', scanned', -, line, within, front, -, -, -,
    shown⟩ := faults p parsed 10 _ world ran
  obtain ⟨-, -, -, marked⟩ := shown none
  have narrow : ∀ c ∈ source.toList, c.utf8Size = 1 := by
    simp [chars, Char.utf8Size]
  refine ⟨⟨scanned, tokens _ scanned t List.mem_cons_self (real t List.mem_cons_self)⟩,
    ⟨second, third, ordered 2 3 second third (by decide), stop,
      cover ['\n', '\x0d', '\n'] ' ' ['a', '\x0d', '\x0d'] chars blank, fourth,
      behind⟩, parsed, world, ran, before, t', after, mark', front.length, scanned', ?_, within,
    marked narrow⟩
  rw [line]
  exact (Option.some.inj causes.line?).symm

/-- A name on the second line, below two characters of two bytes. It is the character with the
number 6, and its offset is 8; the place shown is the third line, which holds no token. -/
theorem place_shown_misses_token :
    let source := "// éé\nx\n\n\n\n\n"
    let t : Token := ⟨.identifier, "x", ⟨8, 9⟩, 2⟩
    let fault : Fault := .unknownIdentifier "x" 2
    ∃ p mark world, Token.scan source = .ok [t, mark] ∧ Program.ofSource source = .ok p ∧
      (Machine.ofProgram p).run 10 = some (.error fault, world) ∧
      t.span.Within (fault.span source) ∧ source.toList[6]? = some 'x' ∧
      (fault.diagnostic source (some "p.fun")).location? = some "p.fun:3:1" ∧
      ¬ (fault.diagnostic source (some "p.fun")).Marks ⟨6, 7⟩ := by
  intro source t fault
  let mark : Token := ⟨.endMark, "", ⟨14, 15⟩, 7⟩
  have scanned : Token.scan source = .ok [t, mark] := by decide +kernel
  have name : Grammar.Operand [t] (.identifier "x" 2) ([] ++ []) :=
    .identifier rfl (by simp [Grammar.Starts])
  have file : Grammar.File mark [t] ⟨⟨[.expression (.identifier "x" 2)], 2⟩, 2⟩ :=
    .statements (.some (.expression (name.level _)) (by simp) .none)
  have parsed : Program.ofSource source = .ok ⟨⟨[.expression (.identifier "x" 2)], 2⟩, 2⟩ :=
    (Grammar.ofSource_eq_ok_iff scanned (by decide) rfl).mpr file
  have place : fault.span source = ⟨8, 9⟩ := by decide +kernel
  refine ⟨_, mark, _, scanned, parsed, rfl, ?_, by decide +kernel, by decide +kernel, ?_⟩
  · rw [place]
    exact ⟨Nat.le_refl _, Nat.le_refl _⟩
  · rw [marks_iff (by rw [place]; decide), place]
    exact fun h => absurd h.2.1 (by decide)

end Fault

end FunLanguage
