import BoundedTuring.Proofs.Bundled.Descriptions
import BoundedTuring.Proofs.CommandLine.Inputs
/-!
# A lone length bound

One length bound may be given on the command line and the other not, which is then that of the description.  The two
are put in order whichever is whose, so a lone bound that is past the other takes its place: what was to be the shortest
length becomes the longest, or the other way round.  So a lone lower bound is kept just if the description does not end
below it, and a lone upper one if the description does not start above it, or the count ends the simulation first
(`lone_bound_kept_iff`).
-/
namespace BoundedTuring
namespace CommandLine

/-! ## The bounds of the command -/

/-- The lower bound that is given, or else that of the configuration. -/
def Options.lower (o : Options) (c : SimulationConfig) : Nat := o.minLength.getD c.minLength

/-- The upper bound that is given, or else that of the configuration. -/
def Options.upper (o : Options) (c : SimulationConfig) : Nat := o.maxLength.getD c.maxLength

/-- The lengths that are tested: what a lone bound, or two of them, makes of the lengths and of the count. -/
structure Lengths (o : Options) (c : SimulationConfig) (base : Nat) (words : List Word) : Prop where
  tested : words = Word.enumerate base (max (o.lower c) (o.upper c)) (o.count.getD c.stringCount)
    (Word.least (min (o.lower c) (o.upper c)))
  within : ∀ w ∈ words, min (o.lower c) (o.upper c) ≤ w.length ∧ w.length ≤ max (o.lower c) (o.upper c)
  shortest : ∀ least, o.minLength = some least → o.maxLength = none →
    ((∀ w ∈ words, least ≤ w.length) ↔ least ≤ c.maxLength ∨ o.count.getD c.stringCount = 0)
  longest : ∀ most, o.minLength = none → o.maxLength = some most →
    ((∀ w ∈ words, w.length ≤ most) ↔ c.minLength ≤ most ∨ o.count.getD c.stringCount ≤ base ^ most)

theorem lengths_enumerate {base : Nat} (hbase : 1 ≤ base) (o : Options) (c : SimulationConfig) :
    Lengths o c base (Word.enumerate base (max (o.lower c) (o.upper c)) (o.count.getD c.stringCount)
      (Word.least (min (o.lower c) (o.upper c)))) := by
  refine ⟨rfl, fun w hw => ?within, fun least hleast hnone => ?shortest, fun most hnone hmost => ?longest⟩
  case within =>
    obtain ⟨-, hlow, hhigh, -⟩ := (Word.mem_enumerate_least_iff hbase ..).1 hw
    exact ⟨hlow, hhigh⟩
  case shortest =>
    rw [Word.forall_le_length_iff hbase (Nat.le_trans (Nat.min_le_left ..) (Nat.le_max_left ..))]
    simp only [Options.lower, Options.upper, hleast, hnone, Option.getD_some, Option.getD_none]
    omega
  case longest =>
    simp only [Options.lower, Options.upper, hnone, hmost, Option.getD_some, Option.getD_none]
    rcases Nat.le_total c.minLength most with hle | hle
    · refine iff_of_true (fun w hw => ?_) (.inl hle)
      obtain ⟨-, -, hhigh, -⟩ := (Word.mem_enumerate_least_iff hbase ..).1 hw
      exact Nat.max_eq_right hle ▸ hhigh
    · rw [Nat.min_eq_right hle, Nat.max_eq_left hle, Word.forall_length_le_iff hbase]

section

variable {α : Type} [Decider α] {o : Options} {d : α} {c c' : SimulationConfig} {a : InputAlphabet}
  {symbols : Array String} {comments : String}

/-- **A configuration with a length bound given, and no start, is one of the least word of the lesser bound.** -/
theorem exists_overridden (hstart : o.start = none) (hgiven : (o.minLength.isSome || o.maxLength.isSome) = true)
    (h : applyOverrides o a c = .ok c') : ∃ limits, c' = ⟨min (o.lower c) (o.upper c), max (o.lower c) (o.upper c),
      Word.least (min (o.lower c) (o.upper c)), o.count.getD c.stringCount, limits⟩ := by
  unfold applyOverrides at h
  rw [hstart, if_pos hgiven] at h
  obtain ⟨_, hinitial, h⟩ := (Result.bind_ok_iff ..).1 h
  cases hinitial
  -- a time bound is looked at only here, and concerns the limits alone
  dsimp only at h
  split at h
  · split at h
    · cases h
    · cases h
      exact ⟨_, rfl⟩
  · cases h
    exact ⟨_, rfl⟩

/-- **The words that are tested under a length bound.** -/
theorem lengths_of_validate (hbase : 1 ≤ (Decider.inputAlphabet d).size) (hstart : o.start = none)
    (hgiven : (o.minLength.isSome || o.maxLength.isSome) = true)
    (hc : applyOverrides o (Decider.inputAlphabet d) c = .ok c') {valid : SimulationConfig}
    (hvalid : c'.validate (Decider.inputAlphabet d).size = .ok valid) :
    Lengths o c (Decider.inputAlphabet d).size (valid.words (Decider.inputAlphabet d).size) := by
  obtain ⟨limits, rfl⟩ := exists_overridden hstart hgiven hc
  have hlength := Word.length_least (min (o.lower c) (o.upper c))
  have hle : min (o.lower c) (o.upper c) ≤ max (o.lower c) (o.upper c) := by omega
  have hsame := SimulationConfig.eq_of_validate hlength.ge (hlength.le.trans hle) hvalid
  rw [hsame]
  exact lengths_enumerate hbase o c

/-- Where the command succeeds in testing words, these are as its length bounds say. -/
def TestsLengths (o : Options) (d : α) (c : SimulationConfig) (trace : Bool) (symbols : Array String)
    (comments : String) : Prop :=
  ∀ output, answer (execute o d c trace symbols comments) = ⟨0, output, ""⟩ →
    ∃ c' r, applyOverrides o (Decider.inputAlphabet d) c = .ok c' ∧ simulate d c' = .ok r ∧
      Lengths o c (Decider.inputAlphabet d).size (r.records.map Prod.fst)

theorem testsLengths (htraced : Decider.Traced d) (ho : o.inputs = []) (hstart : o.start = none)
    (hgiven : (o.minLength.isSome || o.maxLength.isSome) = true) (trace : Bool) :
    TestsLengths o d c trace symbols comments := by
  intro output hprinted
  obtain ⟨c', hc⟩ := ok_of_answer_check_bind hprinted
  rw [execute_of_overridden ho hc] at hprinted
  obtain ⟨given, hwatch⟩ := ok_of_answer_check_bind hprinted
  obtain ⟨valid, hvalid, -⟩ := (Result.bind_ok_iff ..).1 hwatch
  obtain ⟨r, traces, hshows⟩ := htraced.exists_simulation hvalid
  refine ⟨c', r, hc, hshows.reported, ?_⟩
  rw [hshows.words]
  exact lengths_of_validate htraced.size_pos hstart hgiven hc hvalid

end

/-- **When a lone length bound is kept.**  Where the command succeeds without inputs and a start, and with a length
bound, it tests words of the lengths between that bound and the other, in whichever order they are.  A lower bound that
is given alone is kept just if the description ends at it or above, and an upper one just if the description starts at
it or below; otherwise only a count keeps it, of no words or of no more than there are of that length.  This is so for
all that is read and for whatever else is made of a machine or an automaton. -/
theorem lone_bound_kept_iff {o : Options} (ho : o.inputs = []) (hstart : o.start = none)
    (hgiven : (o.minLength.isSome || o.maxLength.isSome) = true) :
    (∀ mode text description, MachineDescription.parse mode text = .ok description →
      TestsLengths o description.machine description.config (o.trace || description.trace)
        description.machine.alphabet.symbols description.comments) ∧
    (∀ text description, AutomatonDescription.parse text = .ok description →
      TestsLengths o description.automaton description.config o.trace description.automaton.input.symbols
        description.comments) ∧
    (∀ m : Machine, m.Reachable → ∀ c trace symbols comments, TestsLengths o m c trace symbols comments) ∧
    ∀ d : Automaton, d.Reachable → ∀ c trace symbols comments, TestsLengths o d c trace symbols comments := by
  have onMachines : ∀ m : Machine, m.Reachable → ∀ c trace symbols comments,
      TestsLengths o m c trace symbols comments :=
    fun m hm c trace symbols comments => testsLengths hm.traced ho hstart hgiven trace
  have onAutomata : ∀ d : Automaton, d.Reachable → ∀ c trace symbols comments,
      TestsLengths o d c trace symbols comments :=
    fun d hd c trace symbols comments => testsLengths hd.traced ho hstart hgiven trace
  refine ⟨fun mode text description hread => ?_, fun text description hread => ?_, onMachines, onAutomata⟩
  · exact onMachines _ (MachineDescription.reachable_of_parse hread) _ _ _ _
  · exact onAutomata _ (AutomatonDescription.reachable_of_parse hread) _ _ _ _

/-! ## Bounds on both sides of a description -/

/-- What the first bundled text describes. -/
def oneFinder : MachineDescription :=
  ⟨Bundled.containsOne, ⟨0, 4, [], 100, ⟨1000, none⟩⟩, false, "Accepts binary strings containing at least one 1."⟩

theorem parse_oneFinder : MachineDescription.parse .leftEnd containsOneText = .ok oneFinder :=
  MachineDescription.parse_ok_of_readOver (Alphabet.ofList_binary .leftEnd) (by decide +kernel) (by decide +kernel)
    (by decide +kernel)

/-- The bundled machine from a length on that its description goes past, and parity up to a length below those of its
configuration, on as many words as there are of that length. -/
theorem lone_bounds_kept :
    let o : Options := { Options.unset with minLength := some 3, count := some 1 }
    let o' : Options := { Options.unset with maxLength := some 1, count := some 2 }
    let m := oneFinder.machine
    let c : SimulationConfig := ⟨2, 3, [0, 0], 9, .unbounded⟩
    let d := Automaton.parity
    MachineDescription.parse .leftEnd containsOneText = .ok oneFinder ∧
      (∃ c' r, applyOverrides o m.alphabet.input oneFinder.config = .ok c' ∧ simulate m c' = .ok r ∧
        Lengths o oneFinder.config m.alphabet.input.size (r.records.map Prod.fst) ∧
        ∀ w ∈ r.records.map Prod.fst, 3 ≤ w.length) ∧
      d.Reachable ∧
      ∃ c' r, applyOverrides o' d.input c = .ok c' ∧ simulate d c' = .ok r ∧
        Lengths o' c d.input.size (r.records.map Prod.fst) ∧ ∀ w ∈ r.records.map Prod.fst, w.length ≤ 1 := by
  intro o o' m c d
  have hmachine : answer (execute o m oneFinder.config false m.alphabet.symbols oneFinder.comments) =
      ⟨0, "000: rejected after 4 step(s)\n\nTested 000: rejected after 4 step(s)\n\n" ++
        "Accepts binary strings containing at least one 1.\n", ""⟩ := by decide +kernel
  have hautomaton : answer (execute o' d c false d.input.symbols "") =
      ⟨0, "a: accepted after 1 step(s)\nb: rejected after 1 step(s)\n\n" ++
        "Tested 2 strings in 0 ms: 1 accepted, 1 rejected, 0 exceeded the step bound, 0 exceeded the time bound\n",
        ""⟩ := by decide +kernel
  obtain ⟨onRead, -⟩ := lone_bound_kept_iff (o := o) rfl rfl rfl
  obtain ⟨-, -, -, onAutomata⟩ := lone_bound_kept_iff (o := o') rfl rfl rfl
  obtain ⟨c₁, r₁, hc₁, hr₁, hlengths₁⟩ := onRead _ _ _ parse_oneFinder _ hmachine
  obtain ⟨c₂, r₂, hc₂, hr₂, hlengths₂⟩ := onAutomata d Automaton.reachable_parity c _ _ _ _ hautomaton
  have hfew : o'.count.getD c.stringCount ≤ d.input.size ^ 1 := by decide +kernel
  exact ⟨parse_oneFinder, ⟨c₁, r₁, hc₁, hr₁, hlengths₁, (hlengths₁.shortest 3 rfl rfl).2 (.inl (by decide))⟩,
    Automaton.reachable_parity, c₂, r₂, hc₂, hr₂, hlengths₂, (hlengths₂.longest 1 rfl rfl).2 (.inr hfew)⟩

/-- From length 9 on the bundled machine is tested on a word of length 4, at which its description ends; up to length 1
parity is tested on one of length 2. -/
theorem lone_bounds_passed :
    let o : Options := { Options.unset with minLength := some 9, count := some 1 }
    let o' : Options := { Options.unset with maxLength := some 1, count := some 3 }
    let m := oneFinder.machine
    let c : SimulationConfig := ⟨2, 3, [0, 0], 9, .unbounded⟩
    let d := Automaton.parity
    MachineDescription.parse .leftEnd containsOneText = .ok oneFinder ∧
      answer (execute o m oneFinder.config false m.alphabet.symbols oneFinder.comments) =
        ⟨0, "0000: rejected after 5 step(s)\n\nTested 0000: rejected after 5 step(s)\n\n" ++
          "Accepts binary strings containing at least one 1.\n", ""⟩ ∧
      (∃ c' r, applyOverrides o m.alphabet.input oneFinder.config = .ok c' ∧ simulate m c' = .ok r ∧
        ¬ ∀ w ∈ r.records.map Prod.fst, 9 ≤ w.length) ∧
      d.Reachable ∧
      answer (execute o' d c false d.input.symbols "") =
        ⟨0, "a: accepted after 1 step(s)\nb: rejected after 1 step(s)\naa: accepted after 2 step(s)\n\n" ++
          "Tested 3 strings in 0 ms: 2 accepted, 1 rejected, 0 exceeded the step bound, 0 exceeded the time bound\n",
          ""⟩ ∧
      ∃ c' r, applyOverrides o' d.input c = .ok c' ∧ simulate d c' = .ok r ∧
        ¬ ∀ w ∈ r.records.map Prod.fst, w.length ≤ 1 := by
  intro o o' m c d
  have hm : m.Reachable := MachineDescription.reachable_of_parse parse_oneFinder
  have hd : d.Reachable := Automaton.reachable_parity
  have hmachine : answer (execute o m oneFinder.config false m.alphabet.symbols oneFinder.comments) =
      ⟨0, "0000: rejected after 5 step(s)\n\nTested 0000: rejected after 5 step(s)\n\n" ++
        "Accepts binary strings containing at least one 1.\n", ""⟩ := by decide +kernel
  have hautomaton : answer (execute o' d c false d.input.symbols "") =
      ⟨0, "a: accepted after 1 step(s)\nb: rejected after 1 step(s)\naa: accepted after 2 step(s)\n\n" ++
        "Tested 3 strings in 0 ms: 2 accepted, 1 rejected, 0 exceeded the step bound, 0 exceeded the time bound\n",
        ""⟩ := by decide +kernel
  obtain ⟨c₁, r₁, hc₁, hr₁, hlengths₁⟩ := testsLengths hm.traced rfl rfl rfl false _ hmachine
  obtain ⟨c₂, r₂, hc₂, hr₂, hlengths₂⟩ := testsLengths hd.traced rfl rfl rfl false _ hautomaton
  have hshorter : ¬ (9 ≤ oneFinder.config.maxLength ∨ o.count.getD oneFinder.config.stringCount = 0) := by decide
  have hlonger : ¬ (c.minLength ≤ 1 ∨ o'.count.getD c.stringCount ≤ d.input.size ^ 1) := by decide +kernel
  exact ⟨parse_oneFinder, hmachine, ⟨c₁, r₁, hc₁, hr₁, fun h => hshorter ((hlengths₁.shortest 9 rfl rfl).1 h)⟩, hd,
    hautomaton, c₂, r₂, hc₂, hr₂, fun h => hlonger ((hlengths₂.longest 1 rfl rfl).1 h)⟩

end CommandLine
end BoundedTuring
