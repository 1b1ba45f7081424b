import BoundedTuring.Proofs.Automaton.Verdict
import BoundedTuring.Proofs.Execution.Trace
/-!
# Traces of automata

An automaton shows its input as the tape and reads it from left to right, so the configurations of its trace are numbered
by where the head is (`Sound.isTrace_path`).  An answer that is given without reading shows the start only, and the start
state accepts just if the answer does: that is what the counts settle (`Sound.accepts?_of_settled`).
-/
namespace BoundedTuring
namespace Automaton

/-- One configuration after another: the symbol under the head is read, by the transition in force. -/
def Successor (d : Automaton) (c c' : Configuration) : Prop :=
  ∃ symbol, c.tape[c.head]? = some symbol ∧ d.nextState ⟨c.state, symbol⟩ = .ok c'.state ∧
    c' = ⟨c'.state, c.tape, c.head + 1, c.step + 1⟩

section

variable {d : Automaton} {input : Word}

/-- **What is read makes a trace.** -/
theorem Sound.isTrace_path (h : d.Sound) {tape : Array Nat} : ∀ (rest : Word) {state head : Nat},
    (∀ s ∈ rest, s < d.input.size) → state < d.stateCount → (∀ i, tape[head + i]? = rest[i]?) →
    IsTrace d.Successor (snapshot tape state head) (snapshot tape (d.reach state rest) (head + rest.length)) rest.length
      (snapshot tape state head :: d.path tape state head rest)
  | [], _, _, _, _, _ => .single ..
  | symbol :: rest, state, head, hrest, hstate, htape => by
    obtain ⟨hsymbol, hrest⟩ := List.forall_mem_cons.1 hrest
    have hk : d.InRange ⟨state, symbol⟩ := ⟨hstate, hsymbol⟩
    have hnext : d.Successor (snapshot tape state head) (snapshot tape (d.lookup ⟨state, symbol⟩) (head + 1)) :=
      ⟨symbol, htape 0, (nextState_ok_iff ..).2 ⟨hk, rfl⟩, rfl⟩
    have hshift : ∀ i, tape[head + 1 + i]? = rest[i]? := fun i => by
      rw [Nat.add_assoc, Nat.add_comm 1, htape, List.getElem?_cons_succ]
    have ih := Sound.isTrace_path h rest hrest (h.lookup_lt hk) hshift
    rw [Nat.add_assoc, Nat.add_comm 1] at ih
    exact .cons hnext ih

/-- What an automaton shows of an input: a trace over the input from the first state, to a state that accepts just if
that is what is reported. -/
structure ShowsRun (d : Automaton) (w : Word) (limits : Limits) (report : RunReport) (cs : List Configuration)
    (last : Configuration) : Prop where
  shows : Decider.Shows d w limits report cs
  isTrace : IsTrace d.Successor ⟨0, w.toArray, 0, 0⟩ last report.stepCount cs
  numbered : ∀ i (c : Configuration), cs[i]? = some c → c.step = i ∧ c.head = i ∧ c.tape = w.toArray
  decided : ∃ accepted, d.isAccepting last.state = .ok accepted ∧ report.outcome = outcome accepted

/-- **However its answer is found, an automaton shows a trace**, and the answer is right for the state it ends in. -/
theorem Sound.isTrace_shown (h : d.Sound) (hinput : ∀ s ∈ input, s < d.input.size) : ∃ last,
    IsTrace d.Successor (snapshot input.toArray 0 0) last (if d.Settled then 0 else input.length) (d.shown input) ∧
      d.isAccepting last.state = .ok (d.accepts? (d.reach 0 input)) := by
  unfold shown
  by_cases hsettled : d.Settled
  · rw [if_pos hsettled, if_pos hsettled]
    exact ⟨_, .single .., (isAccepting_ok_iff ..).2 ⟨h.states, (h.accepts?_of_settled hsettled hinput).symm⟩⟩
  · rw [if_neg hsettled, if_neg hsettled]
    have htape : ∀ i, input.toArray[0 + i]? = input[i]? := fun i => by rw [Nat.zero_add, List.getElem?_toArray]
    exact ⟨_, h.isTrace_path input hinput h.states htape,
      (isAccepting_ok_iff ..).2 ⟨h.reach_lt input hinput h.states, rfl⟩⟩

theorem Reachable.shows (h : d.Reachable) {w : Word} (hw : Word.IsOver d.input.size w) (limits : Limits) :
    ∃ report cs last, d.ShowsRun w limits report cs last := by
  obtain ⟨last, htrace, hlast⟩ := h.sound.isTrace_shown hw
  refine ⟨_, d.shown w, last, .of_watched fun observe seen => h.sound.watchInput_eq observe hw limits seen, htrace, ?_,
    _, hlast, rfl⟩
  refine htrace.getElem?_induct (P := fun i (c : Configuration) => c.step = i ∧ c.head = i ∧ c.tape = w.toArray)
    ⟨rfl, rfl, rfl⟩ ?_
  rintro i c c' ⟨_, _, _, hc'⟩ ⟨hstep, hhead, htape⟩
  rw [hc']
  exact ⟨congrArg (· + 1) hstep, congrArg (· + 1) hhead, htape⟩

end

end Automaton
end BoundedTuring
