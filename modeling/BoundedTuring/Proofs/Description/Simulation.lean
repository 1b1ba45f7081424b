import BoundedTuring.Proofs.Description.Acceptance
import BoundedTuring.Proofs.Description.Automaton.Acceptance
import BoundedTuring.Proofs.Description.Evaluation
import BoundedTuring.Proofs.Description.Settings.Format
import BoundedTuring.Proofs.Simulation.Runs
/-!
# Descriptions can be simulated

A settings line is read by reading its range and then its further fields, and whatever they come to is validated last.
What validation leaves behind is valid as it is, and so is the standard configuration, which stands where no field is
(`Settings.valid_of_read`, `Settings.valid_of_readAutomaton`).  So validating the configuration of a description once
more changes nothing, and as its decider is reachable the simulation reports.
-/
namespace BoundedTuring

/-! ## Settings -/

namespace Settings

variable {a : InputAlphabet} {line : Line}

theorem valid_of_read {s : Settings} (h : Settings.read a line = .ok s) :
    s.config.validate a.size = .ok s.config := by
  obtain ⟨_, _, -, -, -, hvalid⟩ := (Settings.read_ok_iff ..).1 h
  exact SimulationConfig.validate_validated hvalid

theorem valid_of_readAutomaton {c : SimulationConfig} (h : Settings.readAutomaton a line = .ok c) :
    c.validate a.size = .ok c := by
  unfold Settings.readAutomaton at h
  obtain ⟨fields, -, h⟩ := (Result.bind_ok_iff ..).1 h
  split at h
  · obtain rfl := (Result.pure_ok_iff ..).1 h
    exact SimulationConfig.validate_standard a.size
  · obtain ⟨config, -, h⟩ := (Result.bind_ok_iff ..).1 h
    -- a count of 0 skips the further fields, but not the validation
    split at h
    all_goals
      simp only [Result.bind_ok_iff, Line.check_ok_iff] at h
      obtain ⟨config', -, hvalid⟩ := h
      exact SimulationConfig.validate_validated hvalid

end Settings

theorem MachineDescription.Ending.valid {a : InputAlphabet} {number : Nat} {lines comments : List (List Char)}
    {s : Settings} (h : Ending a number lines s comments) : s.config.validate a.size = .ok s.config := by
  cases h with
  | absent => exact SimulationConfig.validate_standard a.size
  | empty => exact SimulationConfig.validate_standard a.size
  | settings _ hread => exact Settings.valid_of_read hread

theorem AutomatonDescription.Ending.valid {a : InputAlphabet} {number : Nat} {lines comments : List (List Char)}
    {c : SimulationConfig} (h : Ending a number lines c comments) : c.validate a.size = .ok c := by
  cases h with
  | absent => exact SimulationConfig.validate_standard a.size
  | empty => exact SimulationConfig.validate_standard a.size
  | settings _ hread => exact Settings.valid_of_readAutomaton hread

/-! ## Descriptions -/

/-- A configuration of a decider that validation accepts and leaves as it is, and whose simulation gives a report that
can be spelled over the decider's alphabet, the same to everyone who watches. -/
structure Simulable {α : Type} [Decider α] (d : α) (c : SimulationConfig) : Prop where
  valid : c.validateInPlace (Decider.inputAlphabet d).size = (.ok (), c)
  reports : ∃ r, simulate d c = .ok r ∧ (∃ json, r.toJson (Decider.inputAlphabet d) = .ok json) ∧
    ∀ {σ : Type} (observe : σ → Configuration → σ) (seen : σ),
      ∃ seen', watchSimulation observe d c seen = .ok (r, seen')

theorem Decider.Answers.simulable {α : Type} [Decider α] {d : α} {c : SimulationConfig} (h : Answers d)
    (hvalid : c.validate (inputAlphabet d).size = .ok c) : Simulable d c := by
  obtain ⟨-, reports, unobserved⟩ := h.simulates c
  obtain ⟨r, hr, hfaithful⟩ := reports c hvalid
  obtain ⟨json, -, hjson, -⟩ := hfaithful.spelled
  refine ⟨(SimulationConfig.validate_ok_iff_inPlace ..).1 hvalid, r, hr, ⟨json, hjson⟩, fun observe seen => ?_⟩
  have hwatch := unobserved observe seen
  rw [hr] at hwatch
  obtain ⟨⟨r', seen'⟩, hwatch, hsame⟩ := (Result.map_ok_iff ..).1 hwatch
  exact ⟨seen', hsame ▸ hwatch⟩

theorem MachineDescription.simulable_of_parse {mode : TapeMode} {text : String} {d : MachineDescription}
    (h : MachineDescription.parse mode text = .ok d) : Simulable d.machine d.config := by
  obtain ⟨-, lines, c, -, ⟨_, _, _, _, _, _, _, -, -, -, -, -, -, hending⟩, hd⟩ := (parse_ok_iff ..).1 h
  refine hd.reachable.answers.simulable ?_
  show d.config.validate d.machine.alphabet.input.size = _
  rw [hd.alphabet, hd.config]
  exact hending.valid

theorem AutomatonDescription.simulable_of_parse {text : String} {d : AutomatonDescription}
    (h : AutomatonDescription.parse text = .ok d) : Simulable d.automaton d.config := by
  obtain ⟨-, lines, c, -, ⟨_, _, _, _, _, _, -, -, -, -, -, -, hending⟩, hd⟩ := (parse_ok_iff ..).1 h
  refine hd.reachable.answers.simulable ?_
  show d.config.validate d.automaton.input.size = _
  rw [hd.input, hd.config]
  exact hending.valid

/-- **Whatever is read can be simulated as it is.** -/
theorem descriptions_simulable :
    (∀ mode text d, MachineDescription.parse mode text = .ok d → Simulable d.machine d.config) ∧
      ∀ text d, AutomatonDescription.parse text = .ok d → Simulable d.automaton d.config :=
  ⟨fun _ _ _ h => MachineDescription.simulable_of_parse h, fun _ _ h => AutomatonDescription.simulable_of_parse h⟩

/-- A word to be tested alone that is longer than its line allows makes bounds of its own, which stay; and a line that
asks for no words leaves a simulation that reports on none. -/
theorem lone_word_and_no_words_simulable :
    (∃ d, MachineDescription.parse .twoWay "3 3 2\n0 1\n0\n1 0 2 default 0110" = .ok d ∧
      d.config = ⟨0, 4, [0, 1, 1, 0], 1, .unbounded⟩ ∧ Simulable d.machine d.config) ∧
    ∃ d, AutomatonDescription.parse "1 1 0 0\na\n\n0 9 9" = .ok d ∧ d.config = ⟨0, 5, [], 0, .unbounded⟩ ∧
      Simulable d.automaton d.config := by
  obtain ⟨onMachines, onAutomata⟩ := descriptions_simulable
  have hmachine : MachineDescription.config <$> MachineDescription.readOver .twoWay ["0", "1"] 2 (.binary .twoWay)
      ⟨1, ["3 3 2", "0 1", "0", "1 0 2 default 0110"].map String.toList⟩ = .ok ⟨0, 4, [0, 1, 1, 0], 1, .unbounded⟩ := by
    decide +kernel
  obtain ⟨d, hd, hconfig⟩ := (Result.map_ok_iff ..).1 hmachine
  have hd := MachineDescription.parse_ok_of_readOver (Alphabet.ofList_binary .twoWay) (by decide) (by decide) hd
  have hinput : InputAlphabet.ofList ["a"] = .ok ⟨#["a"]⟩ :=
    Alphabet.ofListAvoiding_of_ordered _ rfl (by decide) rfl rfl
  have hwritten : AutomatonDescription.Written (["1 1 0 0", "a", "", "0 9 9"].map String.toList)
      ⟨1, ⟨#["a"]⟩, [], [], ⟨0, 5, [], 0, .unbounded⟩, []⟩ := by
    refine ⟨_, _, _, [], [_], 1, rfl, ⟨⟨"1", "1", "0", "0", ?_, ?_, ?_, ?_, ?_⟩, by decide, by decide⟩,
      ⟨["a"], ?_, rfl, hinput⟩, .none, .nil, List.nodup_nil, .settings [] (by decide +kernel)⟩
    all_goals first
      | exact (Text.fields?_eq_some_iff ..).1 (by decide +kernel)
      | exact (Text.numeral?_eq_some_iff ..).1 (by decide +kernel)
  have hautomaton : AutomatonDescription.parse "1 1 0 0\na\n\n0 9 9" = .ok _ :=
    hwritten.parse_ok (by decide) ((Text.lines_iff ..).2 (by decide +kernel))
  exact ⟨⟨d, hd, hconfig, onMachines _ _ d hd⟩, _, hautomaton, rfl, onAutomata _ _ hautomaton⟩

end BoundedTuring
