import FunLanguage.CommandLine
import FunLanguage.Proofs.CommandLines
import FunLanguage.Proofs.Grammar.RoundTrip

/-!
# Loading a file from the command line

The file that the debugger is started with is loaded by a line of input. So its path goes through
the reader of command lines, which takes the white space around it away (`Input.ofLine_preload`).
The file at what is left of the path is loaded, and none if nothing is left. That is the same as the
command to load the path itself exactly if the path is not empty and has no white space around it
(`Invocation.preload_loads_iff`).
-/

namespace FunLanguage

/-! ## A command in front of the input -/

/-- All that a reply makes the debugger write: its text and, if the command failed, the error. -/
def Reply.shown (r : Reply) : String :=
  match r.error? with
  | some error => r.output ++ (Notice.failed error).text
  | none => r.output

/-- What is written if a new debugger carries out a command and then reads its input. -/
def Debugger.outputAfter (budget : Nat) (host : Host) (input : List UInt8) (command : Command) :
    Option String := do
  let reply ← Debugger.execute {} budget host command
  let (_, written) ← reply.debugger.transcript budget host input
  return reply.shown ++ written

theorem Debugger.outputAfter_load (budget : Nat) (host : Host) (input : List UInt8)
    (path : String) : outputAfter budget host input (.load path) =
      ((load {} host path).debugger.transcript budget host input).map fun (_, written) =>
        (load {} host path).shown ++ written := by
  rw [outputAfter, execute]
  simp only [Option.bind_eq_bind, Option.bind_some]
  cases (load {} host path).debugger.transcript budget host input <;> rfl

theorem Debugger.report_eq (d : Debugger) (budget : Nat) (host : Host) (command : Command) :
    d.report budget host command false =
      (d.execute budget host command).map fun reply => (reply.debugger, reply.shown) := by
  refine congrArg (Option.map · _) (funext fun reply => ?_)
  rw [Reply.shown]
  cases reply.error? with
  | none => simp
  | some error => rfl

namespace Input

/-- The line that loads a file is read as the command to load the path without the white space
around it. If nothing else is left, the path is missing. -/
theorem ofLine_preload (path : String) : ofLine (Invocation.preload path) =
    if remainder path.toList = "" then .error .missingArgument
    else .ok (.command (.load (remainder path.toList)) false) := by
  have isWord : IsWord "load".toList := by decide +kernel
  have first : word? (Invocation.preload path).toList =
      some ("load".toList, ' ' :: path.toList) := by
    refine word?_eq_some_iff.mpr ⟨isWord, fun c mem => ?_, [], isBlank_nil, ?_⟩
    · cases mem
      rfl
    · simp [Invocation.preload]
  have spaced : remainder (' ' :: path.toList) = remainder path.toList := rfl
  rw [ofLine_eq_iff_meaning]
  split
  · next none =>
    have blank : IsBlank (' ' :: path.toList) := remainder_eq_empty_iff.mp (spaced.trans none)
    exact .failed (c := .load "") first
      (.inr ⟨rfl, rfl, requiredText_eq_error_iff.mpr ⟨rfl, blank⟩⟩)
  · next nonempty =>
    exact .command (c := .load (remainder path.toList)) first rfl ⟨rfl, spaced, fun _ => nonempty⟩

end Input

namespace Invocation

/-! ## Loading at the start -/

variable {budget : Nat} {host host' : Host} {input : List UInt8} {path : String}

/-- The debugger starts by loading the path without the white space around it, if something is
left. -/
theorem debugger_eq (budget : Nat) (host : Host) (path : String) :
    debugger budget host (some path) =
      if Input.remainder path.toList = "" then some ({}, (Notice.failed .missingArgument).text)
      else
        some ((Debugger.load {} host (Input.remainder path.toList)).debugger,
          (Debugger.load {} host (Input.remainder path.toList)).shown) := by
  rw [debugger, Debugger.executeLine, Input.ofLine_preload]
  by_cases missing : Input.remainder path.toList = ""
  · rw [if_pos missing, if_pos missing]
  · rw [if_neg missing, if_neg missing]
    dsimp only
    rw [Debugger.report_eq, Debugger.execute, Option.map_some]

/-- The debugger starts from the file at the path without the white space around it, and from no
other. -/
theorem debugger_congr
    (same : host.read (Input.remainder path.toList) = host'.read (Input.remainder path.toList)) :
    debugger budget host (some path) = debugger budget host' (some path) := by
  rw [debugger_eq, debugger_eq, Debugger.load, Debugger.load, same]

/-- A program is run from the file at the path, and from no other. -/
theorem exit_run_congr (same : host.read path = host'.read path) :
    exit budget host input (run path) = exit budget host' input (run path) := by
  rw [exit, exit, same]

/-! ## What is written -/

/-- What the invocation writes to the standard output. -/
def output? (budget : Nat) (host : Host) (input : List UInt8) (invocation : Invocation) :
    Option String :=
  (invocation.exit budget host input).map Exit.output

/-- Behind what the debugger has written by loading stands the transcript of the input. -/
theorem output?_debug {path? : Option String} {start : Debugger} {loading : String}
    (begun : debugger budget host path? = some (start, loading)) :
    output? budget host input (debug path?) =
      (start.transcript budget host input).map fun (_, written) => loading ++ written := by
  simp only [output?, exit, begun, Option.bind_eq_bind, Option.bind_some]
  cases start.transcript budget host input <;> rfl

theorem output?_debug_of_missing (missing : Input.remainder path.toList = "") :
    output? budget host input (debug (some path)) =
      (Debugger.transcript {} budget host input).map fun (_, written) =>
        (Notice.failed .missingArgument).text ++ written := by
  have begun := debugger_eq budget host path
  rw [if_pos missing] at begun
  exact output?_debug begun

theorem output?_debug_of_given (given : Input.remainder path.toList ≠ "") :
    output? budget host input (debug (some path)) =
      Debugger.outputAfter budget host input (.load (Input.remainder path.toList)) := by
  have begun := debugger_eq budget host path
  rw [if_neg given] at begun
  rw [output?_debug begun, Debugger.outputAfter_load]

/-! ## Arguments -/

/-- An argument that does not look like an option is the path of the file. -/
theorem settings_plain (plain : path.toList.head? ≠ some '-') (s : Settings)
    (arguments : List String) :
    settings s (path :: arguments) = (takePath s path).bind (settings · arguments) := by
  have other : path ≠ "--" := by
    rintro rfl
    exact plain rfl
  rw [settings]
  · split
    · next same => exact absurd (congrArg List.head? same) plain
    · next same => exact absurd (congrArg List.head? same) plain
    · rfl
  · exact other

theorem ofArguments_plain (plain : path.toList.head? ≠ some '-') :
    ofArguments ["--debug", path] = debug (some path) ∧ ofArguments [path] = run path := by
  constructor
  · have debugging : settings {} ["--debug", path] = settings { debug := true } [path] := rfl
    rw [ofArguments, debugging, settings_plain plain]
    rfl
  · rw [ofArguments, settings_plain plain]
    rfl

/-! ## Paths that are loaded as they are -/

theorem ofSource_numeral :
    Program.ofSource "1" = .ok ⟨⟨[.expression (.literal 1 1)], 1⟩, 1⟩ := by
  have numeral : Text.ofInt32 1 = "1" := by decide +kernel
  rw [← numeral]
  exact Program.ofSource_ofInt32 (by decide)

theorem outputAfter_load_numeral (found : host.read path = .ok "1") :
    Debugger.outputAfter 0 host [] (.load path) = some "Program loaded.\n>" := by
  rw [Debugger.outputAfter_load, Debugger.load, found]
  simp only [ofSource_numeral]
  rfl

theorem outputAfter_load_missing (missing : host.read path = .error .notFound) :
    Debugger.outputAfter 0 host [] (.load path) = some "Error: file wasn't found\n>" := by
  rw [Debugger.outputAfter_load, Debugger.load, missing]
  rfl

/-- A file whose path is empty or has white space around it is not found where it is. -/
theorem output?_debug_ne_load (changed : ¬ (Input.Trimmed path.toList ∧ path ≠ "")) :
    ∃ host : Host, Debugger.outputAfter 0 host [] (.load path) ≠
      output? 0 host [] (debug (some path)) := by
  refine ⟨{ read := fun p => if p = path then .ok "1" else .error .notFound }, ?_⟩
  rw [outputAfter_load_numeral (if_pos rfl)]
  by_cases missing : Input.remainder path.toList = ""
  · rw [output?_debug_of_missing missing]
    exact fun same => absurd (Option.some.inj same) (by decide +kernel)
  · have moved : Input.remainder path.toList ≠ path := by
      intro same
      exact changed ⟨Input.remainder_eq_self_iff.mp same, same ▸ missing⟩
    rw [output?_debug_of_given missing, outputAfter_load_missing (if_neg moved)]
    decide

/-- Starting the debugger with a file is loading the path without the white space around it, or
reporting that it is missing. It is loading the path itself exactly if the path is not empty and has
no white space around it. Then the file is the one that is run without the debugger. -/
theorem preload_loads_iff (path : String) :
    ((∀ budget host input, output? budget host input (debug (some path)) =
        Debugger.outputAfter budget host input (.load path)) ↔
      Input.Trimmed path.toList ∧ path ≠ "") ∧
    (∀ budget host input, output? budget host input (debug (some path)) =
      if Input.remainder path.toList = "" then
        (Debugger.transcript {} budget host input).map fun (_, written) =>
          (Notice.failed .missingArgument).text ++ written
      else Debugger.outputAfter budget host input (.load (Input.remainder path.toList))) ∧
    (Input.Trimmed path.toList → ∀ budget (host host' : Host), host.read path = host'.read path →
      debugger budget host (some path) = debugger budget host' (some path) ∧
        ∀ input, exit budget host input (run path) = exit budget host' input (run path)) ∧
    ofArguments ["--debug", "--", path] = debug (some path) ∧ ofArguments ["--", path] = run path ∧
    (path.toList.head? ≠ some '-' →
      ofArguments ["--debug", path] = debug (some path) ∧ ofArguments [path] = run path) := by
  refine ⟨⟨fun loads => ?_, fun ⟨trimmed, nonempty⟩ budget host input => ?_⟩,
    fun budget host input => ?_,
    fun trimmed budget host host' same => ⟨debugger_congr ?_, fun input => exit_run_congr same⟩,
    rfl, rfl, ofArguments_plain⟩
  · by_contra changed
    obtain ⟨host, differs⟩ := output?_debug_ne_load changed
    exact differs (loads 0 host []).symm
  · have kept := Input.remainder_eq_self_iff.mpr trimmed
    rw [output?_debug_of_given (by rwa [kept]), kept]
  · split
    · next missing => exact output?_debug_of_missing missing
    · next given => exact output?_debug_of_given given
  · rwa [Input.remainder_eq_self_iff.mpr trimmed]

/-- White space inside of a path is kept. -/
theorem preload_loads_iff_of_inner_space :
    let host : Host := { read := fun p => if p = "a b.fun" then .ok "1" else .error .notFound }
    Input.Trimmed "a b.fun".toList ∧ "a b.fun" ≠ "" ∧
      output? 0 host [] (ofArguments ["--debug", "a b.fun"]) = some "Program loaded.\n>" := by
  intro host
  have trimmed : Input.Trimmed "a b.fun".toList :=
    Input.remainder_eq_self_iff.mp (by decide +kernel)
  obtain ⟨loads, -, -, -, -, plain⟩ := preload_loads_iff "a b.fun"
  have found : host.read "a b.fun" = .ok "1" := by decide +kernel
  refine ⟨trimmed, by decide, ?_⟩
  rw [(plain (by decide)).1, loads.mpr ⟨trimmed, by decide⟩ 0 host [],
    outputAfter_load_numeral found]

/-- The debugger does not find a file whose name starts with a space. The command to load it does,
and so does running it. -/
theorem preload_misses_file :
    let host : Host := { read := (FileSystem.ofPaths [(" p.fun", [0x31])] []).read }
    output? 0 host [] (ofArguments ["--debug", " p.fun"]) = some "Error: file wasn't found\n>" ∧
      Debugger.outputAfter 0 host [] (.load " p.fun") = some "Program loaded.\n>" ∧
      output? 0 host [] (ofArguments ["--debug", " p.fun"]) ≠
        Debugger.outputAfter 0 host [] (.load " p.fun") ∧
      (exit 10 host [] (ofArguments [" p.fun"])).map Exit.code = some 0 := by
  intro host
  have found : host.read " p.fun" = .ok "1" := by decide +kernel
  have started : output? 0 host [] (ofArguments ["--debug", " p.fun"]) =
      some "Error: file wasn't found\n>" := by decide +kernel
  have loaded := outputAfter_load_numeral found
  refine ⟨started, loaded, ?_, ?_⟩
  · rw [started, loaded]
    decide
  · rw [(ofArguments_plain (by decide)).2, exit, found]
    simp only [SourceRun.of, SourceRun.machine, ofSource_numeral]
    rfl

end Invocation

end FunLanguage
