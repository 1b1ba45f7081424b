import BoundedTuring.Alphabet.Tape
import BoundedTuring.Transition
/-!
# Transition tables

A table has a cell for every ordinary state and every tape symbol.  A cell nobody defined holds the identity
transition of its key, so a table always gives a transition; which cells are defined is marked beside them and
matters only when transitions are registered.  The counts, of all defined cells, of those of each state and of
those that stand still, are kept so that asking for one never walks the table.

The last two states accept and reject, and have no cells.
-/
namespace BoundedTuring

/-- The smallest machine has one ordinary state besides the two that halt. -/
def minStateCount : Nat := 3

def maxStateCount : Nat := 10000

def checkStateCount (states : Nat) : Result Unit :=
  if minStateCount ≤ states ∧ states ≤ maxStateCount then .ok ()
  else Result.fail (.stateCountOutOfRange states minStateCount maxStateCount)

structure Table where
  stateCount : Nat
  /-- How many symbols the tape alphabet has. -/
  alphabetSize : Nat
  marker : Option Nat
  stillAllowed : Bool
  /-- The transitions in force, state by state and in each state symbol by symbol. -/
  cells : Array Transition
  /-- Which of the cells somebody defined. -/
  defined : Array Bool
  definedPerState : Array Nat
  definedCount : Nat
  stillCount : Nat
  deriving DecidableEq, Repr, Inhabited

namespace Table

/-- The key of the cell at a place, over an alphabet of some size. -/
def keyOf (alphabetSize slot : Nat) : Key := ⟨slot / alphabetSize, slot % alphabetSize⟩

/-- A table with no cell defined. -/
def blankSlate (states alphabetSize : Nat) (marker : Option Nat) (stillAllowed : Bool) : Table :=
  let total := (states - 2) * alphabetSize
  ⟨states, alphabetSize, marker, stillAllowed,
    Array.ofFn (n := total) (fun slot => .identity (keyOf alphabetSize slot)),
    Array.replicate total false, Array.replicate (states - 2) 0, 0, 0⟩

def empty (states : Nat) (a : Alphabet) (stillAllowed : Bool) : Result Table := do
  checkStateCount states
  return blankSlate states a.size a.marker? stillAllowed

def acceptState (t : Table) : Nat := t.stateCount - 2

def rejectState (t : Table) : Nat := t.stateCount - 1

def total (t : Table) : Nat := t.cells.size

/-- The directions a transition may have at present. -/
def directions (t : Table) : List Direction :=
  if t.stillAllowed then [.left, .right, .still] else [.left, .right]

/-! ## Cells -/

def slot (t : Table) (key : Key) : Nat := key.state * t.alphabetSize + key.symbol

def keyAt (t : Table) (slot : Nat) : Key := keyOf t.alphabetSize slot

def cellAt (t : Table) (slot : Nat) : Transition := t.cells.getD slot (.identity (t.keyAt slot))

def definedAt (t : Table) (slot : Nat) : Bool := t.defined.getD slot false

/-- The transition in force for a key.  A symbol that is not of the alphabet is looked up where its key's place
falls, in the cells of a later state. -/
def lookup (t : Table) (key : Key) : Transition := t.cellAt (t.slot key)

def checkState (t : Table) (state : Nat) : Result Unit :=
  if state < t.acceptState then .ok () else Result.fail (.keyStateOutOfRange state (t.acceptState - 1))

def checkKey (t : Table) (key : Key) : Result Unit := do
  t.checkState key.state
  if t.alphabetSize ≤ key.symbol then Result.fail (.keySymbolOutOfRange key.symbol (t.alphabetSize - 1))

def get (t : Table) (key : Key) : Result Transition := do
  t.checkKey key
  return t.lookup key

def isDefined (t : Table) (key : Key) : Result Bool := do
  t.checkKey key
  return t.definedAt (t.slot key)

def stateDefinedCount (t : Table) (state : Nat) : Result Nat := do
  t.checkState state
  return t.definedPerState.getD state 0

/-- The defined transitions at the first places of the table, in front of those in `rest`. -/
def entriesBelow (t : Table) : Nat → List Entry → List Entry
  | 0, rest => rest
  | slot + 1, rest =>
    if t.definedAt slot then entriesBelow t slot ((t.keyAt slot, t.cellAt slot) :: rest)
    else entriesBelow t slot rest

/-- The defined transitions in key order. -/
def entries (t : Table) : List Entry := t.entriesBelow t.defined.size []

/-! ## Registering transitions -/

/-- Checks a transition against the present bounds, the allowed directions and, where the marker is read, the
rule that it is written back with a move to the right. -/
def validate (t : Table) (key : Key) (transition : Transition) : Result Unit := do
  t.checkKey key
  if t.stateCount ≤ transition.next then
    Result.fail (.nextStateOutOfRange transition.next t.rejectState)
  if t.alphabetSize ≤ transition.write then
    Result.fail (.writtenSymbolOutOfRange transition.write (t.alphabetSize - 1))
  if transition.direction ∉ t.directions then
    Result.fail (.directionNotAllowed transition.direction t.directions)
  if t.marker = some key.symbol ∧ (transition.write ≠ key.symbol ∨ transition.direction ≠ .right) then
    Result.fail (.markerTransition key.state)

def define (t : Table) (key : Key) (transition : Transition) : Table :=
  let slot := t.slot key
  { t with
    cells := t.cells.setIfInBounds slot transition
    defined := t.defined.setIfInBounds slot true
    definedPerState := t.definedPerState.modify key.state (· + 1)
    definedCount := t.definedCount + 1
    stillCount := if transition.isStill then t.stillCount + 1 else t.stillCount }

def overwrite (t : Table) (key : Key) (transition : Transition) : Table :=
  let slot := t.slot key
  let old := t.cellAt slot
  { t with
    cells := t.cells.setIfInBounds slot transition
    stillCount := match old.isStill, transition.isStill with
      | false, true => t.stillCount + 1
      | true, false => t.stillCount - 1
      | _, _ => t.stillCount }

/-- Defines the transition for a key.  One that is defined already is overwritten only on request. -/
def put (t : Table) (key : Key) (transition : Transition) (replace : Bool) : Result Table := do
  t.validate key transition
  if t.definedAt (t.slot key) then
    if replace then return t.overwrite key transition else Result.fail (.alreadyDefined key)
  else return t.define key transition

/-- Puts the identity back into the cell of a key, which is then not defined. -/
def undefine (t : Table) (key : Key) : Table :=
  let slot := t.slot key
  let old := t.cellAt slot
  if t.definedAt slot then
    { t with
      cells := t.cells.setIfInBounds slot (.identity key)
      defined := t.defined.setIfInBounds slot false
      definedPerState := t.definedPerState.modify key.state (· - 1)
      definedCount := t.definedCount - 1
      stillCount := if old.isStill then t.stillCount - 1 else t.stillCount }
  else { t with cells := t.cells.setIfInBounds slot (.identity key) }

/-- Undefines a key that is in range, and gives the transition that was in force. -/
def clear (t : Table) (key : Key) : Transition × Table := (t.lookup key, t.undefine key)

def reset (t : Table) (key : Key) : Result (Transition × Table) := do
  t.checkKey key
  return t.clear key

/-- Undefines the keys of some entries, and gives the transitions that were in force; `done` holds those given
so far, last first. -/
def clearAll (t : Table) (done : List Entry) : List Entry → List Entry × Table
  | [] => (done.reverse, t)
  | (key, _) :: rest =>
    let (old, t) := t.clear key
    clearAll t ((key, old) :: done) rest

def resetState (t : Table) (state : Nat) : Result (List Entry × Table) := do
  t.checkState state
  return t.clearAll [] (t.entries.filter (·.1.state == state))

def resetAll (t : Table) : List Entry × Table :=
  (t.entries, blankSlate t.stateCount t.alphabetSize t.marker t.stillAllowed)

def putValid (t : Table) (entries : List Entry) : Table :=
  entries.foldl (fun t (key, transition) =>
    match t.put key transition false with
    | .ok t => t
    | .error _ => t) t

/-- Changes the number of states.  A change that preserves keeps the transitions that are still valid; any other
change, but not a change to the number there is, drops them all. -/
def resize (t : Table) (states : Nat) (preserve : Bool) : Result Table := do
  checkStateCount states
  if states = t.stateCount then return t
  let kept := if preserve then t.entries else []
  return (blankSlate states t.alphabetSize t.marker t.stillAllowed).putValid kept

/-- Allows or forbids standing still.  Forbidding it undefines the transitions that do, and gives them. -/
def setStillAllowed (t : Table) (allowed : Bool) : List Entry × Table :=
  let t := { t with stillAllowed := allowed }
  if allowed ∨ t.stillCount = 0 then ([], t)
  else t.clearAll [] (t.entries.filter (·.2.direction == .still))

end Table
end BoundedTuring
