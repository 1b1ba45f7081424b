import BoundedTuring.Proofs.Automaton.Verdict
import BoundedTuring.Proofs.Execution.Bounded
import BoundedTuring.Proofs.Simulation.Config
import BoundedTuring.Proofs.Simulation.Report
/-!
# A simulation is a list of runs

Machines and automata that a history leads to answer every word over their alphabet, whoever watches
(`Decider.Answers`).  The words of a valid configuration are such words, so none of the runs of a simulation fails, and
each gives what it gives by itself (`watchWords_ok`).  What the report says of them follows from the records.
-/
namespace BoundedTuring

/-- A decider that answers every word over its alphabet, and the same to everyone who watches. -/
structure Decider.Answers {α : Type} [Decider α] (d : α) : Prop where
  size_pos : 1 ≤ (inputAlphabet d).size
  answer : ∀ w, Word.IsOver (inputAlphabet d).size w → ∀ limits, ∃ report, runInput d w limits = .ok report ∧
    ∀ {σ : Type} (observe : σ → Configuration → σ) (seen : σ),
      ∃ seen', watchInput observe d w limits seen = .ok (report, seen')

theorem Machine.Reachable.answers {m : Machine} (h : m.Reachable) : Decider.Answers m where
  size_pos := (InputAlphabet.built_input h.built).unambiguous.size_pos
  answer w hw limits := by
    obtain ⟨tape, -, hexecution⟩ := execution_ok hw
    exact ⟨_, runInput_of_execution hexecution limits,
      fun observe seen => watchInput_of_execution hexecution observe limits seen⟩

theorem Automaton.Reachable.answers {d : Automaton} (h : d.Reachable) : Decider.Answers d where
  size_pos := h.input_built.unambiguous.size_pos
  answer w hw limits := by
    obtain ⟨seen', hrun⟩ := h.sound.watchInput_ok (fun _ _ => ()) hw limits ()
    exact ⟨_, (Result.bind_ok_iff ..).2 ⟨_, hrun, rfl⟩,
      fun observe seen => h.sound.watchInput_ok observe hw limits seen⟩

section

variable {α : Type} [Decider α] {d : α} {c c' : SimulationConfig} {records : List TestRecord}

/-! ## Runs one after the other -/

/-- A record of a word and of the report that the run on it gives by itself. -/
def IsRun (d : α) (limits : Limits) (record : TestRecord) (w : Word) : Prop :=
  record.1 = w ∧ Decider.runInput d w limits = .ok record.2

theorem Decider.Answers.exists_runs (h : Answers d) (limits : Limits) : ∀ words : List Word,
    (∀ w ∈ words, Word.IsOver (inputAlphabet d).size w) → ∃ records, List.Forall₂ (IsRun d limits) records words
  | [], _ => ⟨[], .nil⟩
  | w :: words, hover => by
    obtain ⟨hw, hwords⟩ := List.forall_mem_cons.1 hover
    obtain ⟨report, hreport, -⟩ := h.answer w hw limits
    obtain ⟨records, hrecords⟩ := exists_runs h limits words hwords
    exact ⟨(w, report) :: records, .cons ⟨rfl, hreport⟩ hrecords⟩

/-- **Watched one after the other, runs give what they give by themselves.** -/
theorem Decider.Answers.watchWords_ok (h : Answers d) {σ : Type} (observe : σ → Configuration → σ) (limits : Limits) :
    ∀ {words : List Word} {records : List TestRecord},
      (∀ w ∈ words, Word.IsOver (inputAlphabet d).size w) → List.Forall₂ (IsRun d limits) records words →
      ∀ (done : List TestRecord) (seen : σ), ∃ seen',
        watchWords observe d limits done words seen = .ok (done.reverse ++ records, seen')
  | [], [], _, .nil, done, seen => ⟨seen, by rw [List.append_nil]; rfl⟩
  | w :: words, record :: records, hover, .cons hrun hruns, done, seen => by
    obtain ⟨hw, hwords⟩ := List.forall_mem_cons.1 hover
    obtain ⟨rfl, hreport⟩ := hrun
    -- the watched run gives the report of the record, since that is what the run gives unwatched
    obtain ⟨report, hsame, hwatch⟩ := h.answer _ hw limits
    rw [hreport] at hsame
    cases hsame
    obtain ⟨seen', hfirst⟩ := hwatch observe seen
    obtain ⟨seen'', hrest⟩ := watchWords_ok h observe limits hwords hruns (record :: done) seen'
    refine ⟨seen'', ?_⟩
    unfold watchWords
    rw [hfirst]
    dsimp only
    rw [hrest, List.reverse_cons, List.append_assoc, List.singleton_append]

theorem map_fst_of_runs {limits : Limits} {words : List Word} (h : List.Forall₂ (IsRun d limits) records words) :
    records.map Prod.fst = words := by
  have hwords : List.Forall₂ (fun record w => Prod.fst record = w) records words := h.imp fun _ _ hrun => hrun.1
  rw [← List.forall₂_eq_eq_eq]
  exact List.forall₂_map_left_iff.2 hwords

/-! ## Simulations -/

/-- What a report says of a decider under a valid configuration: the records are of the words of the configuration, in
their order, and of the run on each by itself; and all else that is stored or spelled agrees with the records. -/
structure SimulationReport.Faithful (d : α) (c : SimulationConfig) (r : SimulationReport) : Prop where
  runs : List.Forall₂ (IsRun d c.limits) r.records (c.words (Decider.inputAlphabet d).size)
  lengths : ∀ record ∈ r.records, c.minLength ≤ record.1.length ∧ record.1.length ≤ c.maxLength
  found : ∀ w report, r.record? w = some report ↔ (w, report) ∈ r.records
  counted : ∀ o, r.tallies.get o = r.records.countP (fun record => record.2.outcome == o)
  total : r.tallies.total = r.tested
  nothing : r.records = [] → r.summary = .noResult
  single : ∀ record, r.records = [record] → r.summary = .single record
  aggregate : 2 ≤ r.records.length → r.summary = .aggregate r.tallies
  spelled : ∃ json items, r.toJson (Decider.inputAlphabet d) = .ok json ∧ json.field? "records" = some (.list items) ∧
    List.Forall₂ (SimulationReport.Spells (Decider.inputAlphabet d)) items r.records

/-- What a simulation of a decider does: it refuses just what validation refuses, else its report is faithful, and
watching does not change it. -/
structure Simulates (d : α) (c : SimulationConfig) : Prop where
  refuses : ∀ e, simulate d c = .error e ↔ c.validate (Decider.inputAlphabet d).size = .error e
  reports : ∀ c', c.validate (Decider.inputAlphabet d).size = .ok c' →
    ∃ r, simulate d c = .ok r ∧ SimulationReport.Faithful d c' r
  unobserved : ∀ {σ : Type} (observe : σ → Configuration → σ) (seen : σ),
    Prod.fst <$> watchSimulation observe d c seen = simulate d c

theorem watchSimulation_of_invalid {σ : Type} (observe : σ → Configuration → σ) (seen : σ) {e : Error}
    (h : c.validate (Decider.inputAlphabet d).size = .error e) : watchSimulation observe d c seen = .error e := by
  unfold watchSimulation
  dsimp only
  rw [h]
  rfl

theorem Decider.Answers.watchSimulation_of_valid (h : Answers d) {σ : Type} (observe : σ → Configuration → σ) (seen : σ)
    (hvalid : c.validate (inputAlphabet d).size = .ok c')
    (hruns : List.Forall₂ (IsRun d c'.limits) records (c'.words (inputAlphabet d).size)) :
    ∃ seen', watchSimulation observe d c seen = .ok (.ofRecords records, seen') := by
  have hover : ∀ w ∈ c'.words (inputAlphabet d).size, Word.IsOver (inputAlphabet d).size w :=
    fun _ hw => (SimulationConfig.isOver_of_mem_words h.size_pos hvalid hw).1
  obtain ⟨seen', hwatch⟩ := h.watchWords_ok observe c'.limits hover hruns [] seen
  exact ⟨seen', (Result.bind_ok_iff ..).2 ⟨c', hvalid, (Result.bind_ok_iff ..).2 ⟨_, hwatch, rfl⟩⟩⟩

/-- **The report on the runs of a valid configuration is faithful.** -/
theorem Decider.Answers.faithful (h : Answers d) (hvalid : c.validate (inputAlphabet d).size = .ok c')
    (hruns : List.Forall₂ (IsRun d c'.limits) records (c'.words (inputAlphabet d).size)) :
    SimulationReport.Faithful d c' (.ofRecords records) := by
  have hmap := map_fst_of_runs hruns
  -- what is known of the words of the configuration is known of those of the records
  have hnodup : (records.map Prod.fst).Nodup := by
    rw [hmap]
    exact SimulationConfig.nodup_words h.size_pos hvalid
  have hrecords : ∀ record ∈ records, Word.IsOver (inputAlphabet d).size record.1 ∧
      c'.minLength ≤ record.1.length ∧ record.1.length ≤ c'.maxLength := by
    intro record hmem
    have hword : record.1 ∈ records.map Prod.fst := List.mem_map_of_mem hmem
    rw [hmap] at hword
    exact SimulationConfig.isOver_of_mem_words h.size_pos hvalid hword
  exact {
    runs := hruns
    lengths := fun record hmem => (hrecords record hmem).2
    found := SimulationReport.record?_eq_some_iff hnodup
    counted := SimulationReport.get_tallies records
    total := SimulationReport.total_tallies records
    nothing := by rintro rfl; rfl
    single := by rintro record rfl; rfl
    aggregate := SimulationReport.summary_of_many
    spelled := SimulationReport.toJson_ok fun record hmem => (hrecords record hmem).1 }

theorem Decider.Answers.simulates (h : Answers d) (c : SimulationConfig) : Simulates d c := by
  cases hvalid : c.validate (inputAlphabet d).size with
  | error e =>
    have hsimulate : simulate d c = .error e := by
      unfold simulate
      rw [watchSimulation_of_invalid _ _ hvalid]
      rfl
    refine ⟨fun e' => ?_, fun c' hc' => ?_, fun observe seen => ?_⟩
    · rw [hsimulate, hvalid]
      simp
    · rw [hvalid] at hc'
      cases hc'
    · rw [watchSimulation_of_invalid observe seen hvalid, hsimulate]
      rfl
  | ok c' =>
    have hover : ∀ w ∈ c'.words (inputAlphabet d).size, Word.IsOver (inputAlphabet d).size w :=
      fun _ hw => (SimulationConfig.isOver_of_mem_words h.size_pos hvalid hw).1
    obtain ⟨records, hruns⟩ := h.exists_runs c'.limits _ hover
    have hsimulate : simulate d c = .ok (.ofRecords records) := by
      obtain ⟨seen', hwatch⟩ := h.watchSimulation_of_valid (fun _ _ => ()) () hvalid hruns
      exact (Result.bind_ok_iff ..).2 ⟨_, hwatch, rfl⟩
    refine ⟨fun e => ?_, fun c'' hc'' => ?_, fun observe seen => ?_⟩
    · rw [hsimulate, hvalid]
      simp
    · rw [hvalid] at hc''
      cases hc''
      exact ⟨_, hsimulate, h.faithful hvalid hruns⟩
    · obtain ⟨seen', hwatch⟩ := h.watchSimulation_of_valid observe seen hvalid hruns
      rw [hwatch, hsimulate]
      rfl

end

/-- **A simulation is a list of independent runs, reported consistently.**  Whatever was done to a machine or to an
automaton, simulating it fails exactly if the configuration is refused and with what it is refused.  If not, the report
is on the words of the valid configuration, in their order and each with the report of the run on it alone, and its
index, tallies, headline and spelling are what these records say. -/
theorem simulate_reports_runs (c : SimulationConfig) :
    (∀ m : Machine, m.Reachable → Simulates m c) ∧ ∀ d : Automaton, d.Reachable → Simulates d c :=
  ⟨fun _ h => h.answers.simulates c, fun _ h => h.answers.simulates c⟩

/-- Four words, in bounds that were given the wrong way round.  The shuttle spends its steps on each of them, and parity
accepts every other one. -/
theorem shuttle_and_parity_simulated :
    let c : SimulationConfig := ⟨2, 0, [0], 4, ⟨5, none⟩⟩
    let c' : SimulationConfig := ⟨0, 2, [0], 4, ⟨5, none⟩⟩
    (Machine.shuttle .twoWay).Reachable ∧ Automaton.parity.Reachable ∧ c.validate 2 = .ok c' ∧
      c'.words 2 = [[0], [1], [0, 0], [0, 1]] ∧
      (∃ r, simulate (Machine.shuttle .twoWay) c = .ok r ∧ SimulationReport.Faithful (Machine.shuttle .twoWay) c' r ∧
        r.summary = .aggregate ⟨0, 0, 4, 0⟩) ∧
      ∃ r, simulate Automaton.parity c = .ok r ∧ SimulationReport.Faithful Automaton.parity c' r ∧
        r.summary = .aggregate ⟨2, 2, 0, 0⟩ := by
  intro c c'
  have hmachine := Machine.reachable_shuttle .twoWay
  have hautomaton := Automaton.reachable_parity
  have hshuttle : c.validate (Decider.inputAlphabet (Machine.shuttle .twoWay)).size = .ok c' := by decide +kernel
  have hparity : c.validate (Decider.inputAlphabet Automaton.parity).size = .ok c' := by decide +kernel
  obtain ⟨onMachines, onAutomata⟩ := simulate_reports_runs c
  obtain ⟨r, hr, hfaithful⟩ := (onMachines _ hmachine).reports c' hshuttle
  obtain ⟨r', hr', hfaithful'⟩ := (onAutomata _ hautomaton).reports c' hparity
  have hsummary : SimulationReport.summary <$> simulate (Machine.shuttle .twoWay) c =
      .ok (.aggregate ⟨0, 0, 4, 0⟩) := by decide +kernel
  have hsummary' : SimulationReport.summary <$> simulate Automaton.parity c = .ok (.aggregate ⟨2, 2, 0, 0⟩) := by
    decide +kernel
  rw [hr] at hsummary
  rw [hr'] at hsummary'
  refine ⟨hmachine, hautomaton, by decide +kernel, by decide +kernel, ⟨r, hr, hfaithful, Except.ok.inj hsummary⟩, ?_⟩
  exact ⟨r', hr', hfaithful', Except.ok.inj hsummary'⟩

end BoundedTuring
