import BoundedTuring.Automaton
import BoundedTuring.Description.Settings
/-!
# Automaton descriptions

A finite automaton is described by a line with the numbers of states, input symbols, accepting states and
transitions, a line with the input symbols, a line with the accepting states, which is empty when there are none,
and a line `state read next` for each transition.  A settings line may follow, and after it any lines of comment.
-/
namespace BoundedTuring

/-- An automaton with what its description says about simulating it. -/
structure AutomatonDescription where
  automaton : Automaton
  config : SimulationConfig
  comments : String
  deriving DecidableEq, Repr, Inhabited

namespace AutomatonDescription

structure Header where
  states : Nat
  inputSize : Nat
  acceptingCount : Nat
  transitionCount : Nat
  deriving DecidableEq, Repr

def readHeader (line : Line) : Reading Header := do
  match ← line.fields with
  | [states, inputSize, acceptingCount, transitionCount] =>
    let states ← line.readNumber "number of states" states
    let inputSize ← line.readNumber "input alphabet size" inputSize
    let acceptingCount ← line.readNumber "number of accepting states" acceptingCount
    let transitionCount ← line.readNumber "number of transitions" transitionCount
    line.check (checkAutomatonStates states)
    if states < acceptingCount then line.refuse (.acceptingCountOutOfRange acceptingCount states)
    else return ⟨states, inputSize, acceptingCount, transitionCount⟩
  | fields => line.refuseLayout (.fieldCount 4 "header" fields.length)

/-- The automaton without its accepting states and transitions. -/
def readSymbols (header : Header) (line : Line) : Reading Automaton := do
  let symbols ← line.fieldsOf "input alphabet" header.inputSize
  line.check (Automaton.ofSymbols header.states symbols)

/-- Makes states accepting, each of them once. -/
def acceptEach (line : Line) : Automaton → List String → Reading Automaton
  | d, [] => .ok d
  | d, text :: rest => do
    let state ← line.readNumber "accepting state" text
    if ← line.check (d.isAccepting state) then line.refuse (.acceptingTwice state)
    else
      let d ← line.check (d.setAccepting state true)
      acceptEach line d rest

def readAccepting (d : Automaton) (count : Nat) (line : Line) : Reading Automaton :=
  if count = 0 then
    if line.text.isEmpty then .ok d else line.refuseLayout .noAcceptingStates
  else do acceptEach line d (← line.fieldsOf "accepting states" count)

def readTransition (d : Automaton) (line : Line) : Reading Automaton := do
  match ← line.fields with
  | [state, read, next] =>
    let state ← line.readNumber "initial state" state
    let next ← line.readNumber "next state" next
    line.check (d.putByName state read next false)
  | fields => line.refuseLayout (.fieldCount 3 "transition" fields.length)

def readTransitions : Nat → Automaton → Remaining → Reading (Automaton × Remaining)
  | 0, d, rest => .ok (d, rest)
  | count + 1, d, rest => do
    let (line, rest) ← rest.line "transition"
    let d ← readTransition d line
    readTransitions count d rest

def readSettings (a : InputAlphabet) (rest : Remaining) : Reading (SimulationConfig × Remaining) :=
  match rest.line? with
  | some (line, rest) => do return (← Settings.readAutomaton a line, rest)
  | none => .ok (.standard, rest)

def read (rest : Remaining) : Reading AutomatonDescription := do
  let (line, rest) ← rest.line "header"
  let header ← readHeader line
  let (line, rest) ← rest.line "input alphabet"
  let d ← readSymbols header line
  let (line, rest) ← rest.line "accepting states"
  let d ← readAccepting d header.acceptingCount line
  let (d, rest) ← readTransitions header.transitionCount d rest
  let (config, rest) ← readSettings d.input rest
  return ⟨d, config, rest.comments⟩

def parse (text : String) : Result AutomatonDescription := readDescription read text

end AutomatonDescription
end BoundedTuring
