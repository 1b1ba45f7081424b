import BoundedTuring.Proofs.Automaton.Trace
import BoundedTuring.Proofs.Simulation.Runs
/-!
# Traces of simulations

A simulation hands what one run has shown to the next, so its trace is the traces of its runs one after the other
(`watchWords_shows`).
-/
namespace BoundedTuring

/-- A decider that shows a trace of every word over its alphabet. -/
structure Decider.Traced {α : Type} [Decider α] (d : α) : Prop where
  size_pos : 1 ≤ (inputAlphabet d).size
  shows : ∀ w, Word.IsOver (inputAlphabet d).size w → ∀ limits, ∃ report cs, Shows d w limits report cs

theorem Machine.Reachable.traced {m : Machine} (h : m.Reachable) : Decider.Traced m where
  size_pos := h.answers.size_pos
  shows w hw limits := by
    obtain ⟨_, report, cs, _, hrun⟩ := h.shows hw limits
    exact ⟨report, cs, hrun.shows⟩

theorem Automaton.Reachable.traced {d : Automaton} (h : d.Reachable) : Decider.Traced d where
  size_pos := h.answers.size_pos
  shows w hw limits := by
    obtain ⟨report, cs, _, hrun⟩ := h.shows hw limits
    exact ⟨report, cs, hrun.shows⟩

section

variable {α : Type} [Decider α] {d : α} {c c' : SimulationConfig} {records : List TestRecord}
  {traces : List (List Configuration)}

/-- The trace of a record: what the run on its word shows, which reports what is recorded. -/
def IsTraceOf (d : α) (limits : Limits) (record : TestRecord) (cs : List Configuration) : Prop :=
  Decider.Shows d record.1 limits record.2 cs

/-- **Watched one after the other, runs show their traces one after the other.** -/
theorem watchWords_shows {σ : Type} (observe : σ → Configuration → σ) (d : α) (limits : Limits) :
    ∀ {records : List TestRecord} {traces : List (List Configuration)},
      List.Forall₂ (IsTraceOf d limits) records traces → ∀ (done : List TestRecord) (seen : σ),
      watchWords observe d limits done (records.map Prod.fst) seen =
        .ok (done.reverse ++ records, traces.flatten.foldl observe seen)
  | [], [], .nil, done, seen => by
    rw [List.append_nil]
    rfl
  | record :: records, cs :: traces, .cons hshows htraces, done, seen => by
    have ih := watchWords_shows observe d limits htraces (record :: done) (cs.foldl observe seen)
    rw [List.map_cons, watchWords, hshows.watched]
    dsimp only
    rw [ih, List.reverse_cons, List.append_assoc, List.singleton_append, List.flatten_cons, List.foldl_append]

theorem Decider.Traced.exists_traces (h : Traced d) (limits : Limits) : ∀ words : List Word,
    (∀ w ∈ words, Word.IsOver (inputAlphabet d).size w) →
    ∃ records traces, List.map Prod.fst records = words ∧ List.Forall₂ (IsTraceOf d limits) records traces
  | [], _ => ⟨[], [], rfl, .nil⟩
  | w :: words, hover => by
    obtain ⟨hw, hwords⟩ := List.forall_mem_cons.1 hover
    obtain ⟨report, cs, hshows⟩ := h.shows w hw limits
    obtain ⟨records, traces, hmap, htraces⟩ := exists_traces h limits words hwords
    exact ⟨(w, report) :: records, cs :: traces, congrArg (w :: ·) hmap, .cons hshows htraces⟩

/-- What a simulation shows: the traces of its records one after the other, to everyone who watches, and the report it
gives unwatched. -/
structure ShowsSimulation (d : α) (c c' : SimulationConfig) (r : SimulationReport)
    (traces : List (List Configuration)) : Prop where
  words : r.records.map Prod.fst = c'.words (Decider.inputAlphabet d).size
  runs : List.Forall₂ (IsTraceOf d c'.limits) r.records traces
  reported : simulate d c = .ok r
  watched : ∀ {σ : Type} (observe : σ → Configuration → σ) (seen : σ),
    watchSimulation observe d c seen = .ok (r, traces.flatten.foldl observe seen)
  collected : watchSimulation collect d c #[] = .ok (r, traces.flatten.toArray)

theorem Decider.Traced.exists_simulation (h : Traced d) (hvalid : c.validate (inputAlphabet d).size = .ok c') :
    ∃ r traces, ShowsSimulation d c c' r traces := by
  obtain ⟨records, traces, hmap, htraces⟩ := h.exists_traces c'.limits (c'.words (inputAlphabet d).size)
    fun _ hw => (SimulationConfig.isOver_of_mem_words h.size_pos hvalid hw).1
  have hwatch : ∀ {σ : Type} (observe : σ → Configuration → σ) (seen : σ),
      watchSimulation observe d c seen = .ok (.ofRecords records, traces.flatten.foldl observe seen) := by
    intro σ observe seen
    have hwords := watchWords_shows observe d c'.limits htraces [] seen
    rw [hmap] at hwords
    exact (Result.bind_ok_iff ..).2 ⟨c', hvalid, (Result.bind_ok_iff ..).2 ⟨_, hwords, rfl⟩⟩
  have hcollect := hwatch collect #[]
  rw [foldl_collect] at hcollect
  exact ⟨.ofRecords records, traces, hmap, htraces, (Result.bind_ok_iff ..).2 ⟨_, hwatch _ (), rfl⟩, hwatch, hcollect⟩

end

/-- **A trace is the run.**  Whatever was done to a machine or to an automaton, it shows a trace of every word over its
alphabet within all limits, and watching it changes nothing; a simulation of it shows the traces of its records one after
the other. -/
theorem traces_are_runs :
    (∀ m : Machine, m.Reachable →
      (∀ w, Word.IsOver m.alphabet.inputSize w → ∀ limits,
        ∃ tape report cs last, m.ShowsRun w limits tape report cs last) ∧
      ∀ c c', c.validate (Decider.inputAlphabet m).size = .ok c' → ∃ r traces, ShowsSimulation m c c' r traces) ∧
    ∀ d : Automaton, d.Reachable →
      (∀ w, Word.IsOver d.input.size w → ∀ limits, ∃ report cs last, d.ShowsRun w limits report cs last) ∧
      ∀ c c', c.validate (Decider.inputAlphabet d).size = .ok c' → ∃ r traces, ShowsSimulation d c c' r traces :=
  ⟨fun _ h => ⟨fun _ hw limits => h.shows hw limits, fun _ _ hvalid => h.traced.exists_simulation hvalid⟩,
    fun _ h => ⟨fun _ hw limits => h.shows hw limits, fun _ _ hvalid => h.traced.exists_simulation hvalid⟩⟩

/-- The shuttle shows its start and the two steps it may take.  Parity shows no more than its start of a word that it
does not read, since all of its states accept, and when one does not, a simulation of it shows what it reads word by
word. -/
theorem shuttle_and_parity_traced :
    let m := Machine.shuttle .twoWay
    let d := Automaton.parity.edit (.setAccepting 1 true)
    let c : SimulationConfig := ⟨0, 1, [0], 2, ⟨5, none⟩⟩
    m.Reachable ∧ Word.IsOver m.alphabet.inputSize [1] ∧
      (∃ tape last, m.ShowsRun [1] ⟨2, some 7⟩ tape ⟨.stepBoundExceeded, 2, some 0⟩
        [⟨0, #[1], 0, 0⟩, ⟨0, #[2, 0], 0, 1⟩, ⟨1, #[0, 0], 1, 2⟩] last) ∧
      d.Reachable ∧ Word.IsOver d.input.size [1, 0] ∧
      (∃ last, d.ShowsRun [1, 0] ⟨5, none⟩ ⟨.accepted, 0, none⟩ [⟨0, #[1, 0], 0, 0⟩] last) ∧
      Automaton.parity.Reachable ∧ c.validate (Decider.inputAlphabet Automaton.parity).size = .ok c ∧
      ∃ r traces, ShowsSimulation Automaton.parity c c r traces ∧
        traces.flatten = [⟨0, #[0], 0, 0⟩, ⟨0, #[0], 1, 1⟩, ⟨0, #[1], 0, 0⟩, ⟨1, #[1], 1, 1⟩] := by
  intro m d c
  obtain ⟨onMachines, onAutomata⟩ := traces_are_runs
  have hm : m.Reachable := Machine.reachable_shuttle .twoWay
  have hd : d.Reachable := Automaton.reachable_parity.edit (.setAccepting 1 true)
  have hvalid : c.validate (Decider.inputAlphabet Automaton.parity).size = .ok c := by decide +kernel
  have hone : Word.IsOver m.alphabet.inputSize [1] := by decide +kernel
  have htwo : Word.IsOver d.input.size [1, 0] := by decide +kernel
  obtain ⟨tape, report, cs, last, hrun⟩ := (onMachines m hm).1 [1] hone ⟨2, some 7⟩
  obtain ⟨report', cs', last', hrun'⟩ := (onAutomata d hd).1 [1, 0] htwo ⟨5, none⟩
  obtain ⟨r, traces, hsimulation⟩ := (onAutomata _ Automaton.reachable_parity).2 c c hvalid
  have hcollect : Decider.watchInput collect m [1] ⟨2, some 7⟩ #[] = .ok (⟨.stepBoundExceeded, 2, some 0⟩,
      #[⟨0, #[1], 0, 0⟩, ⟨0, #[2, 0], 0, 1⟩, ⟨1, #[0, 0], 1, 2⟩]) := by decide +kernel
  have hcollect' : Decider.watchInput collect d [1, 0] ⟨5, none⟩ #[] =
      .ok (⟨.accepted, 0, none⟩, #[⟨0, #[1, 0], 0, 0⟩]) := by decide +kernel
  have hflatten : Prod.snd <$> watchSimulation collect Automaton.parity c #[] =
      .ok #[⟨0, #[0], 0, 0⟩, ⟨0, #[0], 1, 1⟩, ⟨0, #[1], 0, 0⟩, ⟨1, #[1], 1, 1⟩] := by decide +kernel
  obtain ⟨rfl, rfl⟩ := hrun.shows.eq_of_collected hcollect
  obtain ⟨rfl, rfl⟩ := hrun'.shows.eq_of_collected hcollect'
  rw [hsimulation.collected] at hflatten
  exact ⟨hm, hone, ⟨tape, last, hrun⟩, hd, htwo, ⟨last', hrun'⟩, Automaton.reachable_parity, hvalid, r, traces,
    hsimulation, List.toArray_inj (Except.ok.inj hflatten)⟩

end BoundedTuring
