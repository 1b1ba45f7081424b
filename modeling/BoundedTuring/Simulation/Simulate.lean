import BoundedTuring.Decider
import BoundedTuring.Simulation.Config
import BoundedTuring.Simulation.Report
/-!
# Simulating a decider

A simulation validates its configuration, lists the words and runs the decider on each.  It fails only if the
configuration is not valid.  A watched simulation folds one observer over all the runs, in order.
-/
namespace BoundedTuring

variable {α : Type} [Decider α]

def SimulationConfig.words (c : SimulationConfig) (base : Nat) : List Word :=
  Word.enumerate base c.maxLength c.stringCount c.initial

/-- Runs a decider on some words; `done` holds the records so far, last first. -/
def watchWords {σ : Type} (observe : σ → Configuration → σ) (d : α) (limits : Limits) (done : List TestRecord) :
    List Word → σ → Result (List TestRecord × σ)
  | [], seen => .ok (done.reverse, seen)
  | w :: rest, seen =>
    match Decider.watchInput observe d w limits seen with
    | .error e => .error e
    | .ok (report, seen) => watchWords observe d limits ((w, report) :: done) rest seen

/-- Runs a decider on every word of a configuration and watches. -/
def watchSimulation {σ : Type} (observe : σ → Configuration → σ) (d : α) (c : SimulationConfig) (seen : σ) :
    Result (SimulationReport × σ) := do
  let base := (Decider.inputAlphabet d).size
  let c ← c.validate base
  let (records, seen) ← watchWords observe d c.limits [] (c.words base) seen
  return (.ofRecords records, seen)

def simulate (d : α) (c : SimulationConfig) : Result SimulationReport := do
  return (← watchSimulation (fun _ _ => ()) d c ()).1

end BoundedTuring
