import BoundedTuring.Table
import BoundedTuring.Tape
/-!
# Machines

A machine is a tape alphabet and a transition table over it.  State 0 starts; the last two states accept and
reject.
-/
namespace BoundedTuring

structure Machine where
  alphabet : Alphabet
  table : Table
  deriving DecidableEq, Repr, Inhabited

namespace Machine

/-- A machine with no transition defined, which may stand still. -/
def empty (states : Nat) (userSymbols : List String) (inputSize : Nat) (mode : TapeMode) : Result Machine := do
  let alphabet ← Alphabet.ofList userSymbols inputSize mode
  let table ← Table.empty states alphabet true
  return ⟨alphabet, table⟩

def mode (m : Machine) : TapeMode := m.alphabet.mode

def stateCount (m : Machine) : Nat := m.table.stateCount

def acceptState (m : Machine) : Nat := m.table.acceptState

def rejectState (m : Machine) : Nat := m.table.rejectState

/-! ## Changing the table -/

/-- What a change of the table gave, and the machine with the changed table. -/
def withTable {α : Type} (m : Machine) (changed : α × Table) : α × Machine :=
  (changed.1, { m with table := changed.2 })

def put : Machine → Key → Transition → Bool → Result Machine
  | ⟨alphabet, table⟩, key, transition, replace => do return ⟨alphabet, ← table.put key transition replace⟩

def reset (m : Machine) (key : Key) : Result (Transition × Machine) := m.withTable <$> m.table.reset key

def resetState (m : Machine) (state : Nat) : Result (List Entry × Machine) := m.withTable <$> m.table.resetState state

def resetAll (m : Machine) : List Entry × Machine := m.withTable m.table.resetAll

def resize (m : Machine) (states : Nat) (preserve : Bool) : Result Machine := do
  return { m with table := ← m.table.resize states preserve }

def setStillAllowed (m : Machine) (allowed : Bool) : List Entry × Machine :=
  m.withTable (m.table.setStillAllowed allowed)

/-! ## Transitions by name -/

def symbolIndex (m : Machine) (symbol : String) : Result Nat :=
  match m.alphabet.indexOf? symbol with
  | some index => .ok index
  | none => Result.fail (.notTapeSymbol symbol)

/-- Defines a transition given by symbol names and a direction letter. -/
def putByName (m : Machine) (state : Nat) (read : String) (next : Nat) (write direction : String)
    (replace : Bool) : Result (Key × Machine) := do
  let read ← m.symbolIndex read
  let write ← m.symbolIndex write
  match Direction.ofLetter? direction with
  | none => Result.fail (.notDirection direction)
  | some direction =>
    let m ← m.put ⟨state, read⟩ ⟨next, write, direction⟩ replace
    return (⟨state, read⟩, m)

/-- A transition as descriptions write it. -/
def describe (m : Machine) (key : Key) (transition : Transition) : Result String := do
  let read ← m.alphabet.symbol key.symbol
  let write ← m.alphabet.symbol transition.write
  return s!"{key.state} {read} {transition.next} {write} {transition.direction.letter}"

/-- The transition in force for a key, as descriptions write it. -/
def describeKey (m : Machine) (key : Key) : Result String := do m.describe key (← m.table.get key)

/-- The defined transitions in key order, as descriptions write them. -/
def describeAll (m : Machine) : Result (List String) := m.table.entries.mapM (fun (key, transition) =>
  m.describe key transition)

def tapeFor (m : Machine) (input : Word) : Result Tape := Tape.ofInput input m.alphabet

end Machine
end BoundedTuring
