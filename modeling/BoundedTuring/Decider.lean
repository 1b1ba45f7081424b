import BoundedTuring.Execution
/-!
# Deciders

A decider runs on words over an input alphabet, within limits, and can be watched while it does.  Machines and
finite automata are deciders.
-/
namespace BoundedTuring

class Decider (α : Type) where
  inputAlphabet : α → InputAlphabet
  /-- Runs on a word and folds an observer over the configurations. -/
  watchInput : {σ : Type} → (σ → Configuration → σ) → α → Word → Limits → σ → Result (RunReport × σ)

namespace Decider

variable {α : Type} [Decider α]

def runInput (d : α) (input : Word) (limits : Limits) : Result RunReport := do
  return (← watchInput (fun _ _ => ()) d input limits ()).1

end Decider

def collect (seen : Array Configuration) (c : Configuration) : Array Configuration := seen.push c

instance : Decider Machine where
  inputAlphabet m := m.alphabet.input
  watchInput observe m input limits seen := do return m.watch observe limits (← m.execution input) seen

end BoundedTuring
