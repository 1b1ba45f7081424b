import BoundedTuring.Description.Settings
import BoundedTuring.Machine
/-!
# Machine descriptions

A machine is described by a line with the numbers of states, tape symbols and input symbols, a line with the user
symbols, input symbols first, a line with the number of transitions, and a line `state read next write direction`
for each of them.  A settings line may follow, and after it any lines of comment.

The number of tape symbols counts the special symbols, which the symbol line leaves out.
-/
namespace BoundedTuring

/-- A machine with what its description says about simulating it. -/
structure MachineDescription where
  machine : Machine
  config : SimulationConfig
  trace : Bool
  comments : String
  deriving DecidableEq, Repr, Inhabited

namespace MachineDescription

structure Header where
  states : Nat
  userSize : Nat
  inputSize : Nat
  deriving DecidableEq, Repr

def readHeader (mode : TapeMode) (line : Line) : Reading Header := do
  match ← line.fields with
  | [states, tapeSize, inputSize] =>
    let states ← line.readNumber "number of states" states
    let tapeSize ← line.readNumber "tape alphabet size" tapeSize
    let inputSize ← line.readNumber "input alphabet size" inputSize
    line.check (checkStateCount states)
    let specials := mode.specialSymbols.length
    if tapeSize < specials then line.refuse (.noRoomForSpecials tapeSize specials)
    else return ⟨states, tapeSize - specials, inputSize⟩
  | fields => line.refuseLayout (.fieldCount 3 "header" fields.length)

/-- The machine without its transitions. -/
def readSymbols (mode : TapeMode) (header : Header) (line : Line) : Reading Machine := do
  let symbols ← line.fieldsOf "tape symbols" header.userSize
  line.check (Machine.empty header.states symbols header.inputSize mode)

def readCount (line : Line) : Reading Nat := do
  match ← line.fields with
  | [count] => line.readNumber "number of transitions" count
  | fields => line.refuseLayout (.fieldCount 1 "transition count" fields.length)

def readTransition (m : Machine) (line : Line) : Reading Machine := do
  match ← line.fields with
  | [state, read, next, write, direction] =>
    let state ← line.readNumber "initial state" state
    let next ← line.readNumber "next state" next
    let (_, m) ← line.check (m.putByName state read next write direction false)
    return m
  | fields => line.refuseLayout (.fieldCount 5 "transition" fields.length)

def readTransitions : Nat → Machine → Remaining → Reading (Machine × Remaining)
  | 0, m, rest => .ok (m, rest)
  | count + 1, m, rest => do
    let (line, rest) ← rest.line "transition"
    let m ← readTransition m line
    readTransitions count m rest

def readSettings (a : InputAlphabet) (rest : Remaining) : Reading (Settings × Remaining) :=
  match rest.line? with
  | some (line, rest) => do return (← Settings.read a line, rest)
  | none => .ok (.standard, rest)

def read (mode : TapeMode) (rest : Remaining) : Reading MachineDescription := do
  let (line, rest) ← rest.line "header"
  let header ← readHeader mode line
  let (line, rest) ← rest.line "tape symbols"
  let m ← readSymbols mode header line
  let (line, rest) ← rest.line "transition count"
  let count ← readCount line
  let (m, rest) ← readTransitions count m rest
  let (settings, rest) ← readSettings m.alphabet.input rest
  return ⟨m, settings.config, settings.trace, rest.comments⟩

def parse (mode : TapeMode) (text : String) : Result MachineDescription := readDescription (read mode) text

end MachineDescription
end BoundedTuring
