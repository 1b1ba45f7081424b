import BoundedTuring.CommandLine.Options
import BoundedTuring.Registry
import BoundedTuring.Simulation.Simulate
/-!
# The command

What the command prints.  It lists the bundled machines, or loads a machine or an automaton and runs it: on the
inputs it is given, or else on every word its configuration says.  What has been printed when an error is met
stays printed.
-/
namespace BoundedTuring
namespace CommandLine

/-- A command in progress: it prints, and may stop with an error. -/
abbrev Command := ExceptT Error (StateM String)

def print (text : String) : Command Unit := modify (· ++ text)

def printLine (line : String) : Command Unit := print (line ++ "\n")

def check {α : Type} (result : Result α) : Command α := ExceptT.mk (pure result)

/-! ## Lines -/

/-- A configuration with its tape spelled out in symbols. -/
def traceLine (symbols : Array String) (c : Configuration) : String :=
  let tape := " ".intercalate (c.tape.toList.map (fun s => symbols.getD s "?"))
  s!"Step: {c.step}, State: {c.state}, Head: {c.head}, Tape: [{tape}]\n"

/-- Collects trace lines, if they are asked for. -/
def traceLines (trace : Bool) (symbols : Array String) (lines : String) (c : Configuration) : String :=
  if trace then lines ++ traceLine symbols c else lines

def displayInput (text : String) : String := if text.isEmpty then "(empty)" else text

def describeRun (r : RunReport) : String := s!"{r.outcome.phrase} after {r.stepCount} step(s)"

def inputLine (text : String) (r : RunReport) : String := s!"{displayInput text}: {describeRun r}"

def infoLine (info : MachineInfo) : String :=
  s!"{info.name}: {info.stateCount} states, {info.inputSize} input symbols, {info.transitionCount} transitions"

def talliesLine (r : SimulationReport) (t : Tallies) : String :=
  s!"Tested {r.tested} strings in {r.elapsed} ms: {t.accepted} accepted, {t.rejected} rejected, " ++
    s!"{t.stepBoundExceeded} exceeded the step bound, {t.timeBoundExceeded} exceeded the time bound"

/-- The headline of a report; one about a test has an empty line before it. -/
def headline (a : InputAlphabet) (r : SimulationReport) : Result String :=
  match r.summary with
  | .noResult => return "No strings tested."
  | .single (w, report) => do
    let line := inputLine (← a.render w) report
    return s!"\nTested {line}"
  | .aggregate tallies => return "\n" ++ talliesLine r tallies

/-! ## Running -/

/-- A configuration with the options that override it. -/
def applyOverrides (o : Options) (a : InputAlphabet) (c : SimulationConfig) : Result SimulationConfig := do
  let c :=
    if o.minLength.isSome || o.maxLength.isSome then
      c.withLengthRange (o.minLength.getD c.minLength) (o.maxLength.getD c.maxLength)
    else c
  let initial ← match o.start with
    | some text => a.tokenize text
    | none => pure c.initial
  let maxTime ← match o.maxTime with
    | some time => if maxTimeBound < time then Result.fail (.timeOutOfRange time maxTimeBound) else pure (some time)
    | none => pure c.limits.maxTime
  return { c with
    initial
    stringCount := o.count.getD c.stringCount
    limits := ⟨o.maxSteps.getD c.limits.maxSteps, maxTime⟩ }

variable {α : Type} [Decider α]

/-- Runs a decider on the inputs given, each once; `done` holds the records to be printed at the end, last
first. -/
def runInputs (o : Options) (d : α) (limits : Limits) (trace : Bool) (symbols : Array String) (done : List Json) :
    List String → Command Unit
  | [] => if o.json then printLine (Json.list done.reverse).render else pure ()
  | text :: rest => do
    let w ← check ((Decider.inputAlphabet d).tokenize text)
    let (report, lines) ← check (Decider.watchInput (traceLines trace symbols) d w limits "")
    print lines
    if o.json then
      runInputs o d limits trace symbols (SimulationReport.recordJson text report :: done) rest
    else do
      printLine (inputLine text report)
      runInputs o d limits trace symbols done rest

def printRecords (a : InputAlphabet) : List TestRecord → Command Unit
  | [] => pure ()
  | (w, report) :: rest => do
    printLine (inputLine (← check (a.render w)) report)
    printRecords a rest

def runAll (o : Options) (d : α) (c : SimulationConfig) (trace : Bool) (symbols : Array String)
    (comments : String) : Command Unit := do
  let a := Decider.inputAlphabet d
  let (report, lines) ← check (watchSimulation (traceLines trace symbols) d c "")
  print lines
  if o.json then printLine (← check (report.toJson a)).render
  else
    printRecords a report.records
    printLine (← check (headline a report))
    if comments.isEmpty then pure () else printLine s!"\n{comments}"

/-- Runs a decider as the options say. -/
def execute (o : Options) (d : α) (c : SimulationConfig) (trace : Bool) (symbols : Array String)
    (comments : String) : Command Unit := do
  let c ← check (applyOverrides o (Decider.inputAlphabet d) c)
  if o.inputs.isEmpty then runAll o d c trace symbols comments
  else runInputs o d c.limits trace symbols [] o.inputs

/-! ## The whole command -/

/-- What the command can read: files, and the standard input unless it is a terminal. -/
structure Surroundings where
  readText : TextReader
  input : Option (Except FileFault String)

def Options.mode (o : Options) : TapeMode := if o.twoWay then .twoWay else .leftEnd

/-- The machine to run: that of a file, a bundled one, or that of the standard input. -/
def loadDescription (o : Options) (r : Registry) (s : Surroundings) : Result MachineDescription :=
  match o.machine, o.builtin, s.input with
  | some path, _, _ => loadMachine s.readText o.mode path
  | none, some name, _ =>
    if o.twoWay then Result.fail .bundledTwoWay
    else do return (← r.byName name).description
  | none, none, some (.ok text) => MachineDescription.parse o.mode text
  | none, none, some (.error fault) => Result.fail (.inputNotRead fault)
  | none, none, none => Result.fail .noMachineGiven

def Options.readsInput (o : Options) : Bool :=
  !o.list && o.automaton.isNone && o.machine.isNone && o.builtin.isNone

def Options.readsFile? (o : Options) : Option String :=
  if o.list then none else o.automaton <|> o.machine

def printList (r : Registry) : List Nat → Command Unit
  | [] => pure ()
  | index :: rest => do
    printLine (infoLine (← check (r.info index)))
    printList r rest

def run (o : Options) (r : Registry) (s : Surroundings) : Command Unit := do
  if o.list then printList r (List.range r.size)
  else
    match o.automaton with
    | some path =>
      let description ← check (loadAutomaton s.readText path)
      let d := description.automaton
      execute o d description.config o.trace d.input.symbols description.comments
    | none =>
      let description ← check (loadDescription o r s)
      let m := description.machine
      execute o m description.config (o.trace || description.trace) m.alphabet.symbols description.comments

structure Answer where
  code : Nat
  output : String
  errors : String
  deriving DecidableEq, Repr

/-- What a command has printed, and the error it stopped with, if it did. -/
def answer (c : Command Unit) : Answer :=
  match (ExceptT.run c).run "" with
  | (.ok (), output) => ⟨0, output, ""⟩
  | (.error e, output) => ⟨1, output, s!"Error: {e.message}\n"⟩

def usage : String := "\n".intercalate [
  "Usage: boundedturing [OPTIONS]",
  "",
  "  -m, --machine <FILE>    Run the machine described in a file (default: standard input)",
  "  -b, --builtin <NAME>    Run a bundled machine",
  "  -a, --automaton <FILE>  Run the finite automaton described in a file",
  "  -l, --list              List the bundled machines",
  "      --two-way           Run on a two-way tape",
  "  -i, --input <TEXT>      Run on this input only; may be repeated",
  "      --min-length <N>    Shortest string to test",
  "      --max-length <N>    Longest string to test",
  "  -n, --count <N>         Most strings to test",
  "      --start <TEXT>      First string to test",
  "      --max-steps <N>     Step bound of every run",
  "      --max-time <MS>     Time bound of every run",
  "  -d, --trace             Print every configuration",
  "      --json              Print JSON",
  "  -h, --help              Print this text",
  "  -V, --version           Print the version",
  ""]

def respond (arguments : List String) (s : Surroundings) : Answer :=
  match request arguments with
  | .run o => answer (run o .bundled s)
  | .help => ⟨0, usage, ""⟩
  | .version => ⟨0, "boundedturing 0.1.0\n", ""⟩
  | .misuse => ⟨2, "", usage⟩

end CommandLine
end BoundedTuring
