import FunLanguage.Proofs.Commands
import Mathlib.Data.Finset.Card
import Mathlib.Data.List.Sort

/-!
# Tables of breakpoints

A table is changed by putting a breakpoint on a line, by taking one off, and by clearing it. What is
on a line is told by these changes alone: the breakpoint of the last insertion there, if nothing has
concerned the line since (`Breakpoints.Stands`). As a table is determined by what is on each line
(`Breakpoints.ext_get?`), its entries, their order and their number follow from that.

The commands of a debugger change its table in these ways, each by one change at most, and only if
they succeed (`Debugger.Performed.breakpoints_eq`).
-/

namespace FunLanguage

namespace Breakpoints

/-! ## What is on a line -/

section Lookup

variable {line other : Nat} {breakpoint : Breakpoint}

theorem lookup_put (line other : Nat) (breakpoint : Breakpoint)
    (entries : List (Nat × Breakpoint)) :
    (put line breakpoint entries).lookup other =
      if other = line then some breakpoint else entries.lookup other := by
  induction entries with
  | nil => grind [put]
  | cons entry entries ih =>
    rw [put]
    split
    · grind
    · split
      · grind
      · rw [List.lookup_cons, List.lookup_cons, ih]
        grind

theorem get?_insert (table : Breakpoints) (line other : Nat) (breakpoint : Breakpoint) :
    (table.insert line breakpoint).get? other =
      if other = line then some breakpoint else table.get? other :=
  lookup_put line other breakpoint table.entries

theorem get?_remove (table : Breakpoints) (line other : Nat) :
    (table.remove line).get? other = if other = line then none else table.get? other := by
  simp only [get?, remove]
  induction table.entries with
  | nil => simp
  | cons entry entries ih => grind

theorem lookup_eq_some_iff {entries : List (Nat × Breakpoint)}
    (ascending : entries.Pairwise fun a b => a.1 < b.1) :
    entries.lookup line = some breakpoint ↔ (line, breakpoint) ∈ entries := by
  induction entries with
  | nil => simp
  | cons entry entries ih =>
    obtain ⟨later, tail⟩ := List.pairwise_cons.mp ascending
    rw [List.lookup_cons, List.mem_cons]
    by_cases here : line = entry.1
    · -- all other entries are on later lines
      have absent : (line, breakpoint) ∉ entries := fun mem => by
        have := later _ mem
        omega
      subst here
      grind
    · grind

theorem mem_entries_iff (table : Breakpoints) :
    (line, breakpoint) ∈ table.entries ↔ table.get? line = some breakpoint :=
  (lookup_eq_some_iff table.ascending).symm

end Lookup

instance : Std.Irrefl fun a b : Nat × Breakpoint => a.1 < b.1 :=
  ⟨fun a => Nat.lt_irrefl a.1⟩

instance : Std.Antisymm fun a b : Nat × Breakpoint => a.1 < b.1 :=
  ⟨fun _ _ before after => absurd before (Nat.lt_asymm after)⟩

/-- Tables with the same breakpoint on each line are the same. -/
theorem ext_get? {table table' : Breakpoints} (same : ∀ line, table.get? line = table'.get? line) :
    table = table' := by
  have entries : table.entries = table'.entries := by
    refine table.ascending.eq_of_mem_iff table'.ascending fun (line, breakpoint) => ?_
    rw [mem_entries_iff, mem_entries_iff, same]
  obtain ⟨_, _⟩ := table
  cases entries
  rfl

/-! ## Changes -/

/-- What can be done to a table. -/
inductive Change where
  | insert (line : Nat) (breakpoint : Breakpoint)
  | remove (line : Nat)
  | clear

/-- The table after a change. -/
def change (table : Breakpoints) : Change → Breakpoints
  | .insert line breakpoint => table.insert line breakpoint
  | .remove line => table.remove line
  | .clear => empty

/-- The table that the changes make, one after the other, of the one without breakpoints. -/
def ofChanges (changes : List Change) : Breakpoints :=
  changes.foldl change empty

/-- Whether the change has to do with the line. -/
def Change.Concerns (line : Nat) : Change → Prop
  | insert other _ => other = line
  | remove other => other = line
  | clear => True

/-- What the change leaves on each line that it concerns. -/
def Change.left? : Change → Option Breakpoint
  | insert _ breakpoint => some breakpoint
  | remove _ => none
  | clear => none

/-- The last change that concerns the line puts the breakpoint there. -/
def Stands (changes : List Change) (line : Nat) (breakpoint : Breakpoint) : Prop :=
  ∃ before after, changes = before ++ .insert line breakpoint :: after ∧
    ∀ later ∈ after, ¬ later.Concerns line

/-- The last change that concerns the line puts some breakpoint there. -/
def IsOccupied (changes : List Change) (line : Nat) : Prop :=
  ∃ breakpoint, Stands changes line breakpoint

section Changes

variable {table : Breakpoints} {changes : List Change} {last first second : Change} {line : Nat}
  {breakpoint : Breakpoint}

theorem Change.eq_insert_iff :
    last = .insert line breakpoint ↔ last.Concerns line ∧ last.left? = some breakpoint := by
  cases last <;> simp [Concerns, left?]

theorem get?_change_of_concerns (h : last.Concerns line) :
    (table.change last).get? line = last.left? := by
  cases last with
  | insert other new => rw [change, get?_insert, if_pos (Eq.symm h), Change.left?]
  | remove other => rw [change, get?_remove, if_pos (Eq.symm h), Change.left?]
  | clear => rfl

theorem get?_change_of_not_concerns (h : ¬ last.Concerns line) :
    (table.change last).get? line = table.get? line := by
  cases last with
  | insert other new => rw [change, get?_insert, if_neg (Ne.symm h)]
  | remove other => rw [change, get?_remove, if_neg (Ne.symm h)]
  | clear => exact absurd trivial h

theorem ofChanges_append_singleton (changes : List Change) (last : Change) :
    ofChanges (changes ++ [last]) = (ofChanges changes).change last := by
  simp [ofChanges]

theorem not_stands_nil : ¬ Stands [] line breakpoint := by
  rintro ⟨before, after, none, -⟩
  simp at none

/-- Either the last change puts the breakpoint on the line, or it does not concern the line and the
breakpoint is there from before. -/
theorem stands_append_singleton :
    Stands (changes ++ [last]) line breakpoint ↔
      last = .insert line breakpoint ∨ ¬ last.Concerns line ∧ Stands changes line breakpoint := by
  constructor
  · rintro ⟨before, after, whole, since⟩
    rcases List.eq_nil_or_concat' after with rfl | ⟨after, final, rfl⟩
    · obtain ⟨-, same⟩ := List.append_inj' whole rfl
      exact .inl (List.singleton_inj.mp same)
    · rw [← List.cons_append, ← List.append_assoc] at whole
      obtain ⟨rfl, same⟩ := List.append_inj' whole rfl
      obtain rfl := List.singleton_inj.mp same
      obtain ⟨since, apart⟩ := List.forall_mem_append.mp since
      exact .inr ⟨apart _ (List.mem_singleton_self _), before, after, rfl, since⟩
  · rintro (rfl | ⟨apart, before, after, rfl, since⟩)
    · exact ⟨changes, [], rfl, nofun⟩
    · refine ⟨before, after ++ [last], by simp, List.forall_mem_append.mpr ⟨since, ?_⟩⟩
      simpa using apart

/-- What a table has on a line is what the history of its changes says. -/
theorem get?_ofChanges :
    (ofChanges changes).get? line = some breakpoint ↔ Stands changes line breakpoint := by
  induction changes using List.reverseRec with
  | nil => exact iff_of_false nofun not_stands_nil
  | append_singleton changes last ih =>
    rw [ofChanges_append_singleton, stands_append_singleton, Change.eq_insert_iff, ← ih]
    by_cases concerns : last.Concerns line
    · rw [get?_change_of_concerns concerns]
      simp [concerns]
    · rw [get?_change_of_not_concerns concerns]
      simp [concerns]

theorem contains_ofChanges :
    (ofChanges changes).contains line = true ↔ IsOccupied changes line := by
  rw [contains, Option.isSome_iff_exists]
  exact exists_congr fun _ => get?_ofChanges

/-- A change on one line leaves all others as they are. -/
theorem isOccupied_append_singleton (apart : ¬ last.Concerns line) :
    IsOccupied (changes ++ [last]) line ↔ IsOccupied changes line := by
  rw [← contains_ofChanges, ← contains_ofChanges, ofChanges_append_singleton, contains, contains,
    get?_change_of_not_concerns apart]

/-- It makes no difference which of two changes comes first if no line concerns both. -/
theorem change_comm (table : Breakpoints)
    (apart : ∀ line, first.Concerns line → ¬ second.Concerns line) :
    (table.change first).change second = (table.change second).change first := by
  refine ext_get? fun line => ?_
  by_cases concerns : first.Concerns line
  · rw [get?_change_of_not_concerns (apart line concerns), get?_change_of_concerns concerns,
      get?_change_of_concerns concerns]
  · by_cases concerns' : second.Concerns line
    · rw [get?_change_of_not_concerns concerns, get?_change_of_concerns concerns',
        get?_change_of_concerns concerns']
    · rw [get?_change_of_not_concerns concerns, get?_change_of_not_concerns concerns',
        get?_change_of_not_concerns concerns', get?_change_of_not_concerns concerns]

/-- The table is the map from lines that the changes make: it has the breakpoints that they leave,
and no others, and lists them by line. -/
structure Represents (changes : List Change) (table : Breakpoints) : Prop where
  /-- No line is listed twice, and none behind a later one. -/
  ascending : table.entries.Pairwise fun a b => a.1 < b.1
  listed : ∀ line breakpoint, (line, breakpoint) ∈ table.entries ↔ Stands changes line breakpoint
  found : ∀ line breakpoint, table.get? line = some breakpoint ↔ Stands changes line breakpoint
  contained : ∀ line, table.contains line = true ↔ IsOccupied changes line
  /-- There are as many breakpoints as there are lines with one. -/
  counted : ∃ lines : Finset Nat, (∀ line, line ∈ lines ↔ IsOccupied changes line) ∧
    table.size = lines.card
  isEmpty : table.isEmpty = true ↔ table.size = 0

theorem represents_ofChanges (changes : List Change) : Represents changes (ofChanges changes) := by
  have listed (line : Nat) (breakpoint : Breakpoint) :
      (line, breakpoint) ∈ (ofChanges changes).entries ↔ Stands changes line breakpoint :=
    (mem_entries_iff _).trans get?_ofChanges
  refine ⟨(ofChanges changes).ascending, listed, fun _ _ => get?_ofChanges,
    fun _ => contains_ofChanges, ?_, by simp [isEmpty, size]⟩
  have nodup : ((ofChanges changes).entries.map (·.1)).Nodup := by
    refine (List.pairwise_map.mpr ?_ : List.Pairwise (· ≠ ·) _)
    exact (ofChanges changes).ascending.imp Nat.ne_of_lt
  refine ⟨((ofChanges changes).entries.map (·.1)).toFinset, fun line => ?_, ?_⟩
  · simp only [List.mem_toFinset, List.mem_map, Prod.exists, exists_and_right, exists_eq_right]
    exact exists_congr fun breakpoint => listed line breakpoint
  · rw [List.toFinset_card_of_nodup nodup, List.length_map, size]

end Changes

end Breakpoints

/-! ## Commands -/

/-- The change that the command makes to the table of breakpoints if it succeeds. -/
def Command.change? : Command → Option Breakpoints.Change
  | load _ => some .clear
  | breakpoint line => some (.insert line .unconditional)
  | condition line text =>
    match Expr.ofSource text with
    | .ok e => some (.insert line ⟨e, text⟩)
    | .error _ => none
  | remove line => some (.remove line)
  | list | run | evaluate _ | stop | resume => none

/-- The change that a command has made, as its reply tells. -/
def Reply.change? (command : Command) (reply : Reply) : Option Breakpoints.Change :=
  if reply.error? = none then command.change? else none

/-- What is written when the table is changed: a warning if a breakpoint takes the place of another,
or if there is none to be taken off, and that a program is loaded if this clears the table. -/
inductive Breakpoints.Change.Told (changes : List Change) : Change → String → Prop
  | inserted {line : Nat} {breakpoint : Breakpoint} (free : ¬ IsOccupied changes line) :
      Told changes (.insert line breakpoint) ""
  | overwritten {line : Nat} {breakpoint : Breakpoint} (occupied : IsOccupied changes line) :
      Told changes (.insert line breakpoint) (Notice.overwritten line).text
  | removed {line : Nat} (occupied : IsOccupied changes line) : Told changes (.remove line) ""
  | missing {line : Nat} (free : ¬ IsOccupied changes line) :
      Told changes (.remove line) (Notice.noBreakpoint line).text
  | cleared : Told changes .clear Notice.loaded.text

namespace Debugger

/-- A debugger that starts out with nothing has carried out the commands with these replies,
whatever files there were at each moment. -/
inductive Performed : List (Command × Reply) → Debugger → Prop
  | nothing : Performed [] {}
  | command {history : List (Command × Reply)} {d : Debugger} {budget : Nat} {host : Host}
      {command : Command} {reply : Reply} (before : Performed history d)
      (executed : d.execute budget host command = some reply) :
      Performed (history ++ [(command, reply)]) reply.debugger

/-- The changes that the commands of a history have made. -/
def changes (history : List (Command × Reply)) : List Breakpoints.Change :=
  history.filterMap fun (command, reply) => reply.change? command

variable {d : Debugger} {budget : Nat} {host : Host} {command : Command} {reply : Reply}
  {history : List (Command × Reply)}

theorem breakpoints_of_proceed {run : Monitored} (executed : d.proceed budget run = some reply) :
    reply.debugger.breakpoints = d.breakpoints := by
  obtain ⟨halt, -, told⟩ := Option.map_eq_some_iff.mp executed
  cases halt with
  | suspended s =>
    cases told
    rfl
  | finished outcome world => cases outcome <;> cases told <;> rfl

theorem breakpoints_of_start {program : Program}
    (executed : d.start budget host program = some reply) :
    reply.debugger.breakpoints = d.breakpoints := by
  rw [start] at executed
  split at executed
  · cases executed
    rfl
  · exact breakpoints_of_proceed (d := d.stop) executed

theorem breakpoints_of_evaluate {text : String}
    (executed : d.evaluate budget text = some reply) :
    reply.debugger.breakpoints = d.breakpoints := by
  rw [evaluate] at executed
  split at executed
  · cases executed
    rfl
  · split at executed
    · cases executed
      rfl
    · obtain ⟨⟨outcome, s⟩, -, told⟩ := Option.map_eq_some_iff.mp executed
      cases outcome <;> cases told <;> rfl

/-- The reply tells of the change that it makes, and makes no other. -/
def Answers (d : Debugger) (change? : Option Breakpoints.Change) (reply : Reply) : Prop :=
  reply.debugger.breakpoints = change?.elim d.breakpoints d.breakpoints.change ∧
    ∀ changes change, d.breakpoints = .ofChanges changes → change? = some change →
      change.Told changes reply.output

theorem Answers.unchanged (kept : reply.debugger.breakpoints = d.breakpoints) :
    d.Answers none reply :=
  ⟨kept, nofun⟩

theorem answers_install (d : Debugger) (line : Nat) (breakpoint : Breakpoint) :
    d.Answers (some (.insert line breakpoint)) (d.install line breakpoint) := by
  refine ⟨rfl, fun changes change made same => ?_⟩
  cases same
  have contains : d.breakpoints.contains line = true ↔ Breakpoints.IsOccupied changes line := by
    rw [made, Breakpoints.contains_ofChanges]
  unfold install
  by_cases occupied : d.breakpoints.contains line = true
  · rw [if_pos occupied]
    exact .overwritten (contains.mp occupied)
  · rw [if_neg occupied]
    exact .inserted (mt contains.mpr occupied)

theorem answers_uninstall (d : Debugger) (line : Nat) :
    d.Answers (some (.remove line)) (d.uninstall line) := by
  refine ⟨rfl, fun changes change made same => ?_⟩
  cases same
  have contains : d.breakpoints.contains line = true ↔ Breakpoints.IsOccupied changes line := by
    rw [made, Breakpoints.contains_ofChanges]
  unfold uninstall
  by_cases occupied : d.breakpoints.contains line = true
  · rw [if_pos occupied]
    exact .removed (contains.mp occupied)
  · rw [if_neg occupied]
    exact .missing (mt contains.mpr occupied)

theorem answers_load (d : Debugger) (host : Host) (path : String) :
    d.Answers ((d.load host path).change? (.load path)) (d.load host path) := by
  unfold load
  split
  · exact .unchanged rfl
  · exact .unchanged rfl
  · split
    · exact .unchanged rfl
    · refine ⟨rfl, fun changes change _ same => ?_⟩
      cases same
      exact .cleared

theorem answers_condition {line : Nat} {text : String}
    (executed : d.execute budget host (.condition line text) = some reply) :
    d.Answers (reply.change? (.condition line text)) reply := by
  rw [execute] at executed
  split at executed
  · cases executed
    exact .unchanged rfl
  · split at executed
    · cases executed
      exact .unchanged rfl
    · next b made =>
      cases executed
      rw [Breakpoint.ofText] at made
      obtain ⟨e, parsed, same⟩ := Except.bind_eq_ok made
      cases same
      have change : (d.install line ⟨e, text⟩).change? (.condition line text) =
          some (.insert line ⟨e, text⟩) := by
        simp [Reply.change?, Command.change?, parsed, install]
      rw [change]
      exact answers_install d line ⟨e, text⟩

/-- A command that makes no change in any case keeps the table. -/
theorem answers_of_change?_eq_none (none : command.change? = none)
    (kept : reply.debugger.breakpoints = d.breakpoints) :
    d.Answers (reply.change? command) reply := by
  rw [Reply.change?, none, ite_self]
  exact .unchanged kept

/-- A command makes its change if it succeeds, and none if it fails. -/
theorem answers_of_execute (executed : d.execute budget host command = some reply) :
    d.Answers (reply.change? command) reply := by
  cases command with
  | load path =>
    cases executed
    exact answers_load d host path
  | breakpoint line =>
    cases executed
    exact answers_install d line .unconditional
  | condition line text => exact answers_condition executed
  | list =>
    cases executed
    exact .unchanged rfl
  | remove line =>
    cases executed
    exact answers_uninstall d line
  | run =>
    rw [execute] at executed
    split at executed
    · cases executed
      exact .unchanged rfl
    · exact answers_of_change?_eq_none rfl (breakpoints_of_start executed)
  | evaluate text => exact answers_of_change?_eq_none rfl (breakpoints_of_evaluate executed)
  | stop =>
    cases executed
    exact .unchanged rfl
  | resume =>
    rw [execute] at executed
    split at executed
    · cases executed
      exact .unchanged rfl
    · exact answers_of_change?_eq_none rfl (breakpoints_of_proceed executed)

/-- The table of a debugger is what the commands that succeeded have made of it. -/
theorem Performed.breakpoints_eq (h : Performed history d) :
    d.breakpoints = .ofChanges (changes history) := by
  induction h with
  | nothing => rfl
  | @command history d budget host command reply before executed ih =>
    rw [(answers_of_execute executed).1, changes, List.filterMap_append, ← changes]
    cases change : reply.change? command with
    | none => simpa [change] using ih
    | some last =>
      simp only [List.filterMap_cons, List.filterMap_nil, change]
      rw [Breakpoints.ofChanges_append_singleton, ← ih]
      rfl

end Debugger

namespace Breakpoints

/-- The text lists the breakpoints that the changes leave, by line, between a heading and an empty
line. -/
def IsListing (changes : List Change) (text : String) : Prop :=
  ∃ entries : List (Nat × Breakpoint), (entries.Pairwise fun a b => a.1 < b.1) ∧
    (∀ line breakpoint, (line, breakpoint) ∈ entries ↔ Stands changes line breakpoint) ∧
    text = "List of breakpoints:\n" ++
      String.join (entries.map fun (line, breakpoint) =>
        "   At line " ++ toString line ++ ", condition: " ++ breakpoint.description ++ "\n") ++ "\n"

/-! ## Sessions that are asked to change their tables -/

section

variable {changes : List Change} {stage : Stage} {line : Nat}

theorem answer_insert {condition? : Option String} {breakpoint : Breakpoint}
    (allowed : stage.allows (.insert line condition?) = true)
    (made : Breakpoint.ofText? condition? = .ok breakpoint) (budget : Nat) :
    Session.answer ⟨stage, ofChanges changes⟩ budget (.insert line condition?) =
      some (.inserted ((ofChanges changes).contains line), "",
        ⟨stage, ofChanges (changes ++ [.insert line breakpoint])⟩) := by
  rw [Session.answer, if_pos allowed, Session.carryOut, made, ofChanges_append_singleton]
  rfl

theorem answer_insert_malformed {condition? : Option String} {e : SyntaxError}
    (allowed : stage.allows (.insert line condition?) = true)
    (malformed : Breakpoint.ofText? condition? = .error e) (budget : Nat) :
    Session.answer ⟨stage, ofChanges changes⟩ budget (.insert line condition?) =
      some (.malformed e, "", ⟨stage, ofChanges changes⟩) := by
  rw [Session.answer, if_pos allowed, Session.carryOut, malformed]

theorem answer_remove (allowed : stage.allows (.remove line) = true) (budget : Nat) :
    Session.answer ⟨stage, ofChanges changes⟩ budget (.remove line) =
      some (.removed ((ofChanges changes).contains line), "",
        ⟨stage, ofChanges (changes ++ [.remove line])⟩) := by
  rw [Session.answer, if_pos allowed, Session.carryOut, ofChanges_append_singleton]
  rfl

end

/-! ## All tables -/

/-- A table is the map from lines that its changes make of it, and changes on different lines can
change places. A session that is asked to change its table answers whether there was a breakpoint on
the line, and so does a debugger, which writes a warning if a breakpoint is overwritten or missing.
Only commands that succeed change the table of a debugger, and none does whose condition is
malformed. -/
theorem tables_follow_changes :
    (∀ changes, Represents changes (ofChanges changes)) ∧
    (∀ changes first second later, (∀ line, first.Concerns line → ¬ second.Concerns line) →
      ofChanges (changes ++ first :: second :: later) =
        ofChanges (changes ++ second :: first :: later) ∧
      ∀ line, second.Concerns line →
        (IsOccupied (changes ++ [first]) line ↔ IsOccupied changes line)) ∧
    (∀ changes stage budget line,
      (∀ condition? breakpoint, stage.allows (.insert line condition?) = true →
        Breakpoint.ofText? condition? = .ok breakpoint →
        ∃ replaced, Session.answer ⟨stage, ofChanges changes⟩ budget (.insert line condition?) =
          some (.inserted replaced, "",
            ⟨stage, ofChanges (changes ++ [.insert line breakpoint])⟩) ∧
          (replaced = true ↔ IsOccupied changes line)) ∧
      (∀ condition? e, stage.allows (.insert line condition?) = true →
        Breakpoint.ofText? condition? = .error e →
        Session.answer ⟨stage, ofChanges changes⟩ budget (.insert line condition?) =
          some (.malformed e, "", ⟨stage, ofChanges changes⟩)) ∧
      (stage.allows (.remove line) = true →
        ∃ removed, Session.answer ⟨stage, ofChanges changes⟩ budget (.remove line) =
          some (.removed removed, "", ⟨stage, ofChanges (changes ++ [.remove line])⟩) ∧
          (removed = true ↔ IsOccupied changes line))) ∧
    ∀ history d, Debugger.Performed history d →
      Represents (Debugger.changes history) d.breakpoints ∧
      ∀ budget host,
        (∃ text, d.execute budget host .list = some { debugger := d, output := text } ∧
          IsListing (Debugger.changes history) text) ∧
        (∀ line text e, Expr.ofSource text = .error e →
          ∃ error, d.execute budget host (.condition line text) = some (d.refuse error)) ∧
        ∀ command reply change, d.execute budget host command = some reply →
          reply.change? command = some change →
          change.Told (Debugger.changes history) reply.output := by
  refine ⟨represents_ofChanges, fun changes first second later apart => ?_,
    fun changes stage budget line => ?_, fun history d performed => ?_⟩
  · refine ⟨?_, fun line concerns => isOccupied_append_singleton fun concerns' => ?_⟩
    · simp only [ofChanges, List.foldl_append, List.foldl_cons, change_comm _ apart]
    · exact apart line concerns' concerns
  · refine ⟨fun condition? breakpoint allowed made => ?_, fun condition? e allowed malformed => ?_,
      fun allowed => ?_⟩
    · exact ⟨_, answer_insert allowed made budget, contains_ofChanges⟩
    · exact answer_insert_malformed allowed malformed budget
    · exact ⟨_, answer_remove allowed budget, contains_ofChanges⟩
  · have represents : Represents (Debugger.changes history) d.breakpoints := by
      rw [performed.breakpoints_eq]
      exact represents_ofChanges _
    refine ⟨represents, fun budget host => ⟨⟨_, rfl, ?_⟩, fun line text e malformed => ?_, ?_⟩⟩
    · exact ⟨d.breakpoints.entries, represents.ascending, represents.listed, rfl⟩
    · by_cases empty : text.isEmpty = true
      · exact ⟨_, (Debugger.Refused.emptyCondition empty).execute budget⟩
      · rw [Bool.not_eq_true] at empty
        exact ⟨_, (Debugger.Refused.malformedCondition empty malformed).execute budget⟩
    · intro command reply change executed made
      exact (Debugger.answers_of_execute executed).2 _ _ performed.breakpoints_eq made

/-- A condition on line 7, a breakpoint on line 3, and then another on line 7. -/
theorem tables_follow_changes_of_overwriting :
    let watching : Breakpoint := ⟨.identifier "x" 1, "x"⟩
    let changes : List Change := [.insert 7 watching, .insert 3 .unconditional]
    let host : Host := { read := fun _ => .error .notFound }
    ofChanges [.insert 7 watching, .remove 3] = ofChanges [.remove 3, .insert 7 watching] ∧
    (∃ replaced, Session.answer ⟨.finished, ofChanges changes⟩ 0 (.insert 7 (some "x")) =
      some (.inserted replaced, "", ⟨.finished, ofChanges (changes ++ [.insert 7 watching])⟩) ∧
      (replaced = true ↔ IsOccupied changes 7)) ∧
    (∃ e, Session.answer ⟨.finished, ofChanges changes⟩ 0 (.insert 7 (some "$")) =
      some (.malformed e, "", ⟨.finished, ofChanges changes⟩)) ∧
    (∃ removed, Session.answer ⟨.finished, ofChanges changes⟩ 0 (.remove 5) =
      some (.removed removed, "", ⟨.finished, ofChanges (changes ++ [.remove 5])⟩) ∧
      (removed = true ↔ IsOccupied changes 5)) ∧
    ∃ history d, Debugger.Performed history d ∧ Debugger.changes history = changes ∧
      Represents changes d.breakpoints ∧
      (∃ error, d.execute 0 host (.condition 7 "$") = some (d.refuse error)) ∧
      Change.Told changes (.insert 7 .unconditional) (Notice.overwritten 7).text := by
  intro watching changes host
  have name : IsName "x" := ⟨⟨'x', [], rfl, by decide, by simp⟩, rfl⟩
  have parsed : Expr.ofSource "x" = .ok (.identifier "x" 1) :=
    Expr.ofSource_of_program name.ofSource rfl
  have made : Breakpoint.ofText? (some "x") = .ok watching := by
    rw [Breakpoint.ofText?, Breakpoint.ofText, parsed]
    rfl
  obtain ⟨e, malformed⟩ : ∃ e, Expr.ofSource "$" = .error e := by
    have scanned : Token.scan "$" =
        .error ((Complaint.unexpectedCharacter '$').toError 1 ⟨0, 1⟩) := by decide +kernel
    exact ⟨_, by rw [Expr.ofSource, Program.ofSource_eq_error scanned]; rfl⟩
  have unmade : Breakpoint.ofText? (some "$") = .error e :=
    Breakpoint.ofText_eq_error_iff.mpr malformed
  let first : Reply := Debugger.install {} 7 watching
  let second : Reply := first.debugger.install 3 .unconditional
  have executed : Debugger.execute {} 0 host (.condition 7 "x") = some first := by
    rw [Debugger.execute, show Breakpoint.ofText "x" = .ok watching from made]
    rfl
  have executed' : first.debugger.execute 0 host (.breakpoint 3) = some second := rfl
  have performed : Debugger.Performed [(.condition 7 "x", first), (.breakpoint 3, second)]
      second.debugger :=
    .command (.command .nothing executed) executed'
  have same : Debugger.changes [(.condition 7 "x", first), (.breakpoint 3, second)] = changes := by
    simp [Debugger.changes, Reply.change?, Command.change?, parsed, Debugger.install, changes,
      watching, first, second]
  obtain ⟨-, comm, sessions, debuggers⟩ := tables_follow_changes
  obtain ⟨inserts, -, -⟩ := sessions changes .finished 0 7
  obtain ⟨-, refuses, -⟩ := sessions changes .finished 0 7
  obtain ⟨-, -, removes⟩ := sessions changes .finished 0 5
  obtain ⟨represents, tells⟩ := debuggers _ _ performed
  obtain ⟨-, refused, told⟩ := tells 0 host
  refine ⟨(comm [] _ _ [] ?_).1, inserts _ _ rfl made, ⟨e, refuses _ e rfl unmade⟩, removes rfl,
    _, _, performed, same, same ▸ represents, refused 7 "$" e malformed, ?_⟩
  · rintro line rfl concerns
    cases concerns
  · exact same ▸ told (.breakpoint 7) _ _ rfl rfl

end Breakpoints

end FunLanguage
