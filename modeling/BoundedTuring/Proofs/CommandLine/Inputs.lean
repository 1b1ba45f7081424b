import BoundedTuring.Proofs.CommandLine.Printing
import BoundedTuring.Proofs.Description.Settings.RoundTrip
import BoundedTuring.Proofs.Description.Simulation
import BoundedTuring.Proofs.Simulation.Trace
/-!
# Inputs one by one

Without inputs the command tests the words of a configuration, and prints the records of the simulation.  With one it
reads its text and runs on it.  The text that it prints for a word is read as that word, and the run on a word in a
simulation is the run on it alone under the same limits, so both print the same (`agrees`).
-/
namespace BoundedTuring

open Text (WithinLine)

theorem InputAlphabet.Unambiguous.tokenize_of_render {a : InputAlphabet} (h : a.Unambiguous) {w : Word} {text : String}
    (htext : a.render w = .ok text) : a.tokenize text = .ok w :=
  (h.tokenize_ok_iff text w).2 ((InputAlphabet.render_ok_iff ..).1 htext)

theorem InputAlphabet.Built.withinLine_render {a : InputAlphabet} (h : a.Built) {w : Word} {text : String}
    (htext : a.render w = .ok text) : WithinLine text.toList := by
  cases w with
  | nil =>
    cases htext
    exact nofun
  | cons s w => exact (h.isField_render (List.cons_ne_nil s w) htext).2

theorem SimulationConfig.limits_of_validate {c c' : SimulationConfig} {base : Nat} (h : c.validate base = .ok c') :
    c'.limits = c.limits := by
  obtain ⟨-, -, hc'⟩ := (validate_ok_iff ..).1 h
  split at hc'
  · rw [← hc']
    rfl
  · rw [← hc'.2]
    rfl

namespace SimulationReport

/-- **A report that is spelled spells its records one by one.** -/
theorem spelled_of_toJson {a : InputAlphabet} {r : SimulationReport} {json : Json} (h : r.toJson a = .ok json) :
    (∃ items, json.field? "records" = some (.list items) ∧
      List.Forall₂ (fun record item => ∃ text, a.render record.1 = .ok text ∧ recordJson text record.2 = item)
        r.records items) ∧ ∃ summary, summaryJson a r.summary = .ok summary := by
  unfold toJson at h
  simp only [Result.bind_ok_iff, Result.pure_ok_iff, Result.mapM_ok_iff] at h
  obtain ⟨items, hitems, summary, hsummary, rfl⟩ := h
  exact ⟨⟨items, Json.field?_ofFields (by simp) (by simp), hitems⟩, summary, hsummary⟩

end SimulationReport

namespace CommandLine

/-! ## Lines -/

theorem withinLine_append {first second : String} (h : WithinLine first.toList) (h' : WithinLine second.toList) :
    WithinLine (first ++ second).toList := by
  rw [String.toList_append]
  exact List.forall_mem_append.2 ⟨h, h'⟩

/-- **What is printed on an input is one line.** -/
theorem withinLine_inputLine {text : String} (h : WithinLine text.toList) (report : RunReport) :
    WithinLine (inputLine text report).toList := by
  have hdisplayed : WithinLine (displayInput text).toList := by
    unfold displayInput
    split
    · decide
    · exact h
  have hphrase : WithinLine report.outcome.phrase.toList := by
    cases report.outcome <;> decide
  have hline : inputLine text report = displayInput text ++ (": " ++
      (report.outcome.phrase ++ (" after " ++ (toString report.stepCount ++ " step(s)")))) := by
    simp only [inputLine, describeRun, toString, String.append_assoc]
  rw [hline]
  exact withinLine_append hdisplayed (withinLine_append (by decide) (withinLine_append hphrase
    (withinLine_append (by decide) (withinLine_append (Text.isField_toString _).2 (by decide)))))

theorem headline_ok {a : InputAlphabet} {r : SimulationReport} {json : Json}
    (h : SimulationReport.summaryJson a r.summary = .ok json) : ∃ line, headline a r = .ok line := by
  unfold headline
  cases hsummary : r.summary with
  | noResult => exact ⟨_, rfl⟩
  | aggregate tallies => exact ⟨_, rfl⟩
  | single record =>
    rw [hsummary] at h
    obtain ⟨text, htext, -⟩ := (Result.bind_ok_iff ..).1 h
    exact ⟨_, (Result.bind_ok_iff ..).2 ⟨text, htext, rfl⟩⟩

/-- What is printed after the lines on the records: the headline, and the comments if there are any. -/
def closing (headline comments : String) : String :=
  headline ++ "\n" ++ if comments.isEmpty then "" else s!"\n{comments}\n"

/-- Who is not to be traced shows nothing. -/
theorem foldl_traceLines (symbols : Array String) (lines : String) (cs : List Configuration) :
    cs.foldl (traceLines false symbols) lines = lines := by
  induction cs with
  | nil => rfl
  | cons c cs ih => exact ih

/-- The line that is printed on a record. -/
def IsLine (a : InputAlphabet) (record : TestRecord) (line : String) : Prop :=
  ∃ text, a.render record.1 = .ok text ∧ inputLine text record.2 = line

theorem exists_lines {a : InputAlphabet} : ∀ records : List TestRecord,
    (∀ record ∈ records, ∃ text, a.render record.1 = .ok text) → ∃ lines, List.Forall₂ (IsLine a) records lines
  | [], _ => ⟨[], .nil⟩
  | record :: records, h => by
    obtain ⟨⟨text, htext⟩, hrest⟩ := List.forall_mem_cons.1 h
    obtain ⟨lines, hlines⟩ := exists_lines records hrest
    exact ⟨inputLine text record.2 :: lines, .cons ⟨text, htext, rfl⟩ hlines⟩

theorem prints_printRecords {a : InputAlphabet} : ∀ {records : List TestRecord} {lines : List String},
    List.Forall₂ (IsLine a) records lines →
      Prints (printRecords a records) () (String.join (lines.map (· ++ "\n")))
  | [], [], .nil => prints_pure ()
  | _ :: _, _ :: lines, .cons ⟨_, htext, hline⟩ h => by
    subst hline
    rw [List.map_cons, String.join_cons]
    exact .check_bind htext ((prints_print _).bind (prints_printRecords h))

section

variable {α : Type} [Decider α] {o : Options} {d : α} {c c' : SimulationConfig} {symbols : Array String}
  {comments output : String} {r : SimulationReport}

/-! ## One input -/

/-- What the command answers if it is given a text as its only input, and is otherwise as it is. -/
def answerTo (o : Options) (d : α) (c : SimulationConfig) (symbols : Array String) (comments text : String) : Answer :=
  answer (execute { o with inputs := [text] } d c false symbols comments)

/-- What is printed on a run on a text alone. -/
def aloneText (json : Bool) (text : String) (report : RunReport) : String :=
  if json then (Json.list [SimulationReport.recordJson text report]).render ++ "\n"
  else inputLine text report ++ "\n"

theorem prints_runInputs_lone {text : String} {w : Word} (hread : (Decider.inputAlphabet d).tokenize text = .ok w)
    {limits : Limits} {report : RunReport} {cs : List Configuration} (hrun : Decider.Shows d w limits report cs) :
    Prints (runInputs o d limits false symbols [] [text]) () (aloneText o.json text report) := by
  have hwatch := hrun.watched (traceLines false symbols) ""
  rw [foldl_traceLines] at hwatch
  refine .check_bind hread (.check_bind hwatch ((prints_print "").silent_bind ?_))
  unfold aloneText
  cases hjson : o.json with
  | true =>
    simp only [if_true, runInputs, hjson]
    exact prints_print _
  | false =>
    simp only [Bool.false_eq_true, if_false, runInputs, hjson]
    rw [← String.append_empty (s := inputLine text report ++ "\n")]
    exact (prints_print _).bind (prints_pure ())

theorem answerTo_eq (hinput : (Decider.inputAlphabet d).Unambiguous)
    (hc : applyOverrides o (Decider.inputAlphabet d) c = .ok c') {w : Word} {text : String}
    (htext : (Decider.inputAlphabet d).render w = .ok text) {report : RunReport} {cs : List Configuration}
    (hrun : Decider.Shows d w c'.limits report cs) :
    answerTo o d c symbols comments text = ⟨0, aloneText o.json text report, ""⟩ :=
  answer_of_prints (.check_bind hc (prints_runInputs_lone (hinput.tokenize_of_render htext) hrun))

/-! ## All words -/

theorem prints_runAll_lines (comments : String) (hjson : o.json = false)
    (hwatch : watchSimulation (traceLines false symbols) d c "" = .ok (r, "")) {lines : List String}
    (hlines : List.Forall₂ (IsLine (Decider.inputAlphabet d)) r.records lines) {head : String}
    (hhead : headline (Decider.inputAlphabet d) r = .ok head) :
    Prints (runAll o d c false symbols comments) ()
      (String.join (lines.map (· ++ "\n")) ++ closing head comments) := by
  refine .check_bind hwatch ((prints_print "").silent_bind ?_)
  simp only [hjson, Bool.false_eq_true, if_false]
  refine (prints_printRecords hlines).bind (.check_bind hhead ((prints_print _).bind ?_))
  by_cases hcomments : comments.isEmpty = true
  · rw [if_pos hcomments, if_pos hcomments]
    exact prints_pure ()
  · rw [if_neg hcomments, if_neg hcomments]
    exact prints_print _

theorem prints_runAll_json (comments : String) (hjson : o.json = true)
    (hwatch : watchSimulation (traceLines false symbols) d c "" = .ok (r, "")) {json : Json}
    (hspelled : r.toJson (Decider.inputAlphabet d) = .ok json) :
    Prints (runAll o d c false symbols comments) () (json.render ++ "\n") := by
  refine .check_bind hwatch ((prints_print "").silent_bind ?_)
  simp only [hjson, if_true]
  exact .check_bind hspelled (prints_print _)

/-- How what the command prints on a simulation goes with what it prints on the tested words one by one. -/
structure Enumerated (o : Options) (d : α) (c : SimulationConfig) (symbols : Array String) (comments : String)
    (r : SimulationReport) (output : String) : Prop where
  lines : o.json = false → ∃ lines head, headline (Decider.inputAlphabet d) r = .ok head ∧
    output = String.join (lines.map (· ++ "\n")) ++ closing head comments ∧
    List.Forall₂ (fun record line => ∃ text, (Decider.inputAlphabet d).render record.1 = .ok text ∧
      inputLine text record.2 = line ∧ WithinLine line.toList ∧
      answerTo o d c symbols comments text = ⟨0, line ++ "\n", ""⟩) r.records lines
  entries : o.json = true → ∃ json entries, r.toJson (Decider.inputAlphabet d) = .ok json ∧
    output = json.render ++ "\n" ∧ json.field? "records" = some (.list entries) ∧
    List.Forall₂ (fun record entry => ∃ text, (Decider.inputAlphabet d).render record.1 = .ok text ∧
      SimulationReport.recordJson text record.2 = entry ∧
      answerTo o d c symbols comments text = ⟨0, (Json.list [entry]).render ++ "\n", ""⟩) r.records entries

/-- Where the command succeeds in testing words, what it prints goes with what it prints on them one by one. -/
def Agrees (o : Options) (d : α) (c : SimulationConfig) (trace : Bool) (symbols : Array String) (comments : String) :
    Prop :=
  ∀ output, answer (execute o d c trace symbols comments) = ⟨0, output, ""⟩ →
    ∃ c' r, applyOverrides o (Decider.inputAlphabet d) c = .ok c' ∧ simulate d c' = .ok r ∧
      Enumerated o d c symbols comments r output

theorem execute_of_overridden (ho : o.inputs = []) (hc : applyOverrides o (Decider.inputAlphabet d) c = .ok c')
    (trace : Bool) : execute o d c trace symbols comments = runAll o d c' trace symbols comments := by
  unfold execute
  rw [hc, ho]
  rfl

/-- **A simulation that gives a report shows its runs and is spelled.** -/
theorem exists_shown (hanswers : Decider.Answers d) (htraced : Decider.Traced d) {σ : Type}
    {observe : σ → Configuration → σ} {seen : σ} {given : SimulationReport × σ}
    (hwatch : watchSimulation observe d c seen = .ok given) : ∃ valid r traces json,
      valid.limits = c.limits ∧ ShowsSimulation d c valid r traces ∧ r.toJson (Decider.inputAlphabet d) = .ok json := by
  obtain ⟨valid, hvalid, -⟩ := (Result.bind_ok_iff ..).1 hwatch
  obtain ⟨r, traces, hshows⟩ := htraced.exists_simulation hvalid
  obtain ⟨r', hr', hfaithful⟩ := (hanswers.simulates c).reports valid hvalid
  obtain ⟨json, -, hjson, -⟩ := hfaithful.spelled
  cases hshows.reported.symm.trans hr'
  exact ⟨valid, r, traces, json, SimulationConfig.limits_of_validate hvalid, hshows, hjson⟩

/-- **The run on the text of a tested word alone gives its record.** -/
theorem answerTo_of_shows (symbols : Array String) (comments : String) (ha : (Decider.inputAlphabet d).Unambiguous)
    (hc : applyOverrides o (Decider.inputAlphabet d) c = .ok c') {valid : SimulationConfig}
    (hlimits : valid.limits = c'.limits) {traces : List (List Configuration)}
    (hshows : ShowsSimulation d c' valid r traces) : ∀ record ∈ r.records, ∀ text,
      (Decider.inputAlphabet d).render record.1 = .ok text →
      answerTo o d c symbols comments text = ⟨0, aloneText o.json text record.2, ""⟩ := by
  have hruns : ∀ record ∈ r.records, ∃ cs, Decider.Shows d record.1 c'.limits record.2 cs :=
    ((List.forall₂_and_left ..).1 (hshows.runs.imp fun _ cs hrun => ⟨⟨cs, hlimits ▸ hrun⟩, trivial⟩)).1
  intro record hmem text htext
  obtain ⟨cs, hrun⟩ := hruns record hmem
  exact answerTo_eq ha hc htext hrun

/-- **The command prints on each word what it prints on it alone.** -/
theorem agrees (hanswers : Decider.Answers d) (htraced : Decider.Traced d) (ha : (Decider.inputAlphabet d).Built)
    (ho : o.inputs = []) : Agrees o d c false symbols comments := by
  intro output hprinted
  obtain ⟨c', hc⟩ := ok_of_answer_check_bind hprinted
  rw [execute_of_overridden ho hc] at hprinted
  obtain ⟨_, hwatch⟩ := ok_of_answer_check_bind hprinted
  obtain ⟨valid, r, traces, json, hlimits, hshows, hjson⟩ := exists_shown hanswers htraced hwatch
  have hwatched := hshows.watched (traceLines false symbols) ""
  rw [foldl_traceLines] at hwatched
  obtain ⟨⟨entries, hfield, hentries⟩, summary, hsummary⟩ := SimulationReport.spelled_of_toJson hjson
  have halone := answerTo_of_shows symbols comments ha.unambiguous hc hlimits hshows
  refine ⟨c', r, hc, hshows.reported, fun hlines => ?byLine, fun hobject => ?asObject⟩
  case byLine =>
    have hrendered : ∀ record ∈ r.records, ∃ text, (Decider.inputAlphabet d).render record.1 = .ok text :=
      ((List.forall₂_and_left ..).1 (hentries.imp fun _ _ ⟨text, htext, _⟩ => ⟨⟨text, htext⟩, trivial⟩)).1
    obtain ⟨lines, hrecords⟩ := exists_lines r.records hrendered
    obtain ⟨head, hhead⟩ := headline_ok hsummary
    have hprints := answer_of_prints (prints_runAll_lines comments hlines hwatched hrecords hhead)
    refine ⟨lines, head, hhead, congrArg Answer.output (hprinted.symm.trans hprints), ?_⟩
    rw [hlines] at halone
    refine ((List.forall₂_and_left ..).2 ⟨halone, hrecords⟩).imp ?_
    rintro record _ ⟨hanswer, text, htext, rfl⟩
    exact ⟨text, htext, rfl, withinLine_inputLine (ha.withinLine_render htext) _, hanswer text htext⟩
  case asObject =>
    have hprints := answer_of_prints (prints_runAll_json comments hobject hwatched hjson)
    refine ⟨json, entries, hjson, congrArg Answer.output (hprinted.symm.trans hprints), hfield, ?_⟩
    rw [hobject] at halone
    refine ((List.forall₂_and_left ..).2 ⟨halone, hentries⟩).imp ?_
    rintro record _ ⟨hanswer, text, htext, rfl⟩
    exact ⟨text, htext, rfl, hanswer text htext⟩

end

/-- **Inputs given one by one agree with the enumeration.**  Where the command succeeds without inputs and without a
trace, it prints a line on each word that the simulation tests, or its report with an entry for each; given the text of
one of these words as its only input it prints just that line, or an array of just that entry.  It does so for all that
is read and for whatever else is made of a machine or an automaton. -/
theorem inputs_agree_with_enumeration {o : Options} (ho : o.inputs = []) (htrace : o.trace = false) :
    (∀ mode text description, MachineDescription.parse mode text = .ok description → description.trace = false →
      Agrees o description.machine description.config (o.trace || description.trace)
        description.machine.alphabet.symbols description.comments) ∧
    (∀ text description, AutomatonDescription.parse text = .ok description →
      Agrees o description.automaton description.config o.trace description.automaton.input.symbols
        description.comments) ∧
    (∀ m : Machine, m.Reachable → ∀ c comments, Agrees o m c o.trace m.alphabet.symbols comments) ∧
    ∀ d : Automaton, d.Reachable → ∀ c comments, Agrees o d c o.trace d.input.symbols comments := by
  rw [htrace]
  have onMachines : ∀ m : Machine, m.Reachable → ∀ c comments, Agrees o m c false m.alphabet.symbols comments :=
    fun m hm c comments => agrees hm.answers hm.traced (InputAlphabet.built_input hm.built) ho
  have onAutomata : ∀ d : Automaton, d.Reachable → ∀ c comments, Agrees o d c false d.input.symbols comments :=
    fun d hd c comments => agrees hd.answers hd.traced hd.input_built ho
  refine ⟨fun mode text description hread hplain => ?_, fun text description hread => ?_, onMachines, onAutomata⟩
  · rw [hplain]
    exact onMachines _ (MachineDescription.reachable_of_parse hread) _ _
  · exact onAutomata _ (AutomatonDescription.reachable_of_parse hread) _ _

/-- The finder as it is read, on the first three words, of which the last has a one in it, and parity. -/
theorem finder_and_parity_enumerated :
    let o : Options := { Options.unset with maxSteps := some 5 }
    let c : SimulationConfig := ⟨0, 1, [], 3, .unbounded⟩
    let m := Machine.finder .leftEnd
    let d := Automaton.parity
    MachineDescription.parse .leftEnd "3 4 2\n0 1\n2\n0 0 0 0 R\n0 1 1 1 R\n3 0 1\nLooks for a one." =
        .ok ⟨m, c, false, "Looks for a one."⟩ ∧ d.Reachable ∧
      (∃ c' r, applyOverrides o m.alphabet.input c = .ok c' ∧ simulate m c' = .ok r ∧
        Enumerated o m c m.alphabet.symbols "Looks for a one." r ("(empty): step bound exceeded after 5 step(s)\n" ++
          "0: step bound exceeded after 5 step(s)\n1: accepted after 1 step(s)\n\n" ++
          "Tested 3 strings in 0 ms: 1 accepted, 0 rejected, 2 exceeded the step bound, " ++
          "0 exceeded the time bound\n\nLooks for a one.\n")) ∧
      ∃ c' r, applyOverrides o d.input c = .ok c' ∧ simulate d c' = .ok r ∧
        Enumerated o d c d.input.symbols "" r ("(empty): accepted after 0 step(s)\n" ++
          "a: accepted after 1 step(s)\nb: rejected after 1 step(s)\n\n" ++
          "Tested 3 strings in 0 ms: 2 accepted, 1 rejected, 0 exceeded the step bound, " ++
          "0 exceeded the time bound\n") := by
  intro o c m d
  obtain ⟨onRead, -, -, onAutomata⟩ := inputs_agree_with_enumeration (o := o) rfl rfl
  have hread : MachineDescription.parse .leftEnd "3 4 2\n0 1\n2\n0 0 0 0 R\n0 1 1 1 R\n3 0 1\nLooks for a one." =
      .ok ⟨m, c, false, "Looks for a one."⟩ := by
    have hover : MachineDescription.readOver .leftEnd ["0", "1"] 2 (.binary .leftEnd)
        ⟨1, ["3 4 2", "0 1", "2", "0 0 0 0 R", "0 1 1 1 R", "3 0 1", "Looks for a one."].map String.toList⟩ =
          .ok ⟨m, c, false, "Looks for a one."⟩ := by decide +kernel
    exact MachineDescription.parse_ok_of_readOver (Alphabet.ofList_binary .leftEnd) (by decide) (by decide) hover
  refine ⟨hread, Automaton.reachable_parity, onRead _ _ _ hread rfl _ ?_,
    onAutomata d Automaton.reachable_parity c "" _ ?_⟩
  · decide +kernel
  · decide +kernel

end CommandLine
end BoundedTuring
