import BoundedTuring.Machine
import BoundedTuring.Run
/-!
# Executions

An execution is a machine's state, tape and step count in the middle of a run.  A run goes on until the machine
halts or a bound stops it: the step bound before a step, so that exactly as many steps were made, and the time
bound after one, so that the step that crosses it counts.

A run can be watched: `watch` folds an observer over the configurations, the one before the first step and the
one after every step.  `run` watches nothing and `trace` collects them.
-/
namespace BoundedTuring

structure Execution where
  state : Nat
  tape : Tape
  stepCount : Nat
  deriving DecidableEq, Repr, Inhabited

def Execution.start (state : Nat) (tape : Tape) : Execution := ⟨state, tape, 0⟩

def Execution.configuration (e : Execution) : Configuration :=
  ⟨e.state, e.tape.cells, e.tape.head, e.stepCount⟩

inductive StepResult where
  | continued
  | halted (outcome : Outcome)
  deriving DecidableEq, Repr

namespace Machine

/-- The outcome, once the machine has entered a state that halts. -/
def halted? (m : Machine) (e : Execution) : Option Outcome :=
  if e.state = m.acceptState then some .accepted
  else if e.state = m.rejectState then some .rejected
  else none

/-- Makes the transition in force, whether or not the machine has halted. -/
def advance (m : Machine) : Execution → Execution
  | ⟨state, tape, stepCount⟩ =>
    let transition := m.table.lookup ⟨state, tape.current⟩
    ⟨transition.next, tape.apply transition.write transition.direction m.table.stillAllowed, stepCount + 1⟩

def next (m : Machine) (e : Execution) : Execution :=
  if (m.halted? e).isSome then e else m.advance e

def stepResult (m : Machine) (e : Execution) : StepResult :=
  match m.halted? e with
  | some outcome => .halted outcome
  | none => .continued

/-- The rest of a watched run that may make so many more steps: how it ends, where, and what was seen. -/
def watchFrom {σ : Type} (observe : σ → Configuration → σ) (m : Machine) (limits : Limits) :
    Nat → Execution → σ → Outcome × Execution × σ
  | 0, e, seen =>
    match m.halted? e with
    | some outcome => (outcome, e, seen)
    | none => (.stepBoundExceeded, e, seen)
  | stepsLeft + 1, e, seen =>
    match m.halted? e with
    | some outcome => (outcome, e, seen)
    | none =>
      let e := m.advance e
      let seen := observe seen e.configuration
      if limits.stepCrossesTime then (.timeBoundExceeded, e, seen)
      else watchFrom observe m limits stepsLeft e seen

def watch {σ : Type} (observe : σ → Configuration → σ) (m : Machine) (limits : Limits) (e : Execution)
    (seen : σ) : RunReport × σ :=
  let (outcome, e, seen) :=
    watchFrom observe m limits (limits.maxSteps - e.stepCount) e (observe seen e.configuration)
  (⟨outcome, e.stepCount, limits.elapsed⟩, seen)

def run (m : Machine) (limits : Limits) (e : Execution) : RunReport :=
  (m.watch (fun _ _ => ()) limits e ()).1

/-- An execution on a word, from the first state and the canonical head. -/
def execution (m : Machine) (input : Word) : Result Execution := do
  return .start 0 (← m.tapeFor input)

def runText (m : Machine) (limits : Limits) (text : String) : Result RunReport := do
  return m.run limits (← m.execution (← m.alphabet.tokenize text))

/-- An execution on a word, from an ordinary state and a head position. -/
def executionFrom (m : Machine) (input : Word) (state head : Nat) : Result Execution := do
  if m.acceptState ≤ state then Result.fail (.startStateOutOfRange state (m.acceptState - 1))
  return .start state ((← m.tapeFor input).withHead head)

end Machine
end BoundedTuring
