import BoundedTuring.Decider
/-!
# Finite automata

A deterministic finite automaton over an input alphabet.  A transition nobody defined loops on its state.  As for
machines, the states in force are stored for all keys, which keys are defined is marked beside them, and the numbers
of defined transitions and of accepting states are kept.

An automaton whose answer can't depend on the input gives it without reading: when no state accepts, when all do,
and when no transition is defined.
-/
namespace BoundedTuring

def minAutomatonStates : Nat := 1

def checkAutomatonStates (states : Nat) : Result Unit :=
  if minAutomatonStates ≤ states ∧ states ≤ maxStateCount then .ok ()
  else Result.fail (.stateCountOutOfRange states minAutomatonStates maxStateCount)

structure Automaton where
  input : InputAlphabet
  accepting : Array Bool
  acceptingCount : Nat
  /-- The next states in force, state by state and in each state symbol by symbol. -/
  next : Array Nat
  /-- Which of the transitions somebody defined. -/
  defined : Array Bool
  definedCount : Nat
  deriving DecidableEq, Repr, Inhabited

namespace Automaton

/-- An automaton in which no state accepts and no transition is defined. -/
def blankSlate (states : Nat) (input : InputAlphabet) : Automaton :=
  let total := states * input.size
  ⟨input, Array.replicate states false, 0, Array.ofFn (n := total) (fun slot => slot / input.size),
    Array.replicate total false, 0⟩

def ofSymbols (states : Nat) (symbols : List String) : Result Automaton := do
  checkAutomatonStates states
  let input ← InputAlphabet.ofList symbols
  return blankSlate states input

def stateCount (d : Automaton) : Nat := d.accepting.size

def checkState (d : Automaton) (state : Nat) : Result Unit :=
  if state < d.stateCount then .ok () else Result.fail (.stateOutOfRange state (d.stateCount - 1))

/-! ## Accepting states -/

def accepts? (d : Automaton) (state : Nat) : Bool := d.accepting.getD state false

def isAccepting (d : Automaton) (state : Nat) : Result Bool := do
  d.checkState state
  return d.accepts? state

def mark (d : Automaton) (state : Nat) (accept : Bool) : Automaton :=
  if d.accepts? state = accept then d
  else { d with
    accepting := d.accepting.setIfInBounds state accept
    acceptingCount := if accept then d.acceptingCount + 1 else d.acceptingCount - 1 }

def setAccepting (d : Automaton) (state : Nat) (accept : Bool) : Result Automaton := do
  d.checkState state
  return d.mark state accept

def acceptingStates (d : Automaton) : List Nat := (List.range d.stateCount).filter d.accepts?

/-! ## Transitions -/

def slot (d : Automaton) (key : Key) : Nat := key.state * d.input.size + key.symbol

def definedAt (d : Automaton) (slot : Nat) : Bool := d.defined.getD slot false

def stateAt (d : Automaton) (slot : Nat) : Nat := d.next.getD slot (slot / d.input.size)

/-- The state in force for a key. -/
def lookup (d : Automaton) (key : Key) : Nat := d.stateAt (d.slot key)

def checkKey (d : Automaton) (key : Key) : Result Unit := do
  d.checkState key.state
  if d.input.size ≤ key.symbol then Result.fail (.readSymbolOutOfRange key.symbol (d.input.size - 1))

def nextState (d : Automaton) (key : Key) : Result Nat := do
  d.checkKey key
  return d.lookup key

/-- Sets the state a key leads to.  The key is defined from then on. -/
def define (d : Automaton) (key : Key) (next : Nat) : Automaton :=
  let slot := d.slot key
  let old := d.definedAt slot
  { d with
    next := d.next.setIfInBounds slot next
    defined := d.defined.setIfInBounds slot true
    definedCount := if old then d.definedCount else d.definedCount + 1 }

/-- Defines the transition for a key.  One that is defined already is overwritten only on request. -/
def put (d : Automaton) (key : Key) (next : Nat) (replace : Bool) : Result Automaton := do
  d.checkKey key
  if d.stateCount ≤ next then Result.fail (.nextStateOutOfRange next (d.stateCount - 1))
  if d.definedAt (d.slot key) = true ∧ replace = false then Result.fail (.alreadyDefined key)
  return d.define key next

def putByName (d : Automaton) (state : Nat) (read : String) (next : Nat) (replace : Bool) : Result Automaton :=
  match d.input.indexOf? read with
  | none => Result.fail (.notInputSymbol read)
  | some symbol => d.put ⟨state, symbol⟩ next replace

/-- Makes a key loop on its state again, and no longer defined. -/
def undefine (d : Automaton) (key : Key) : Automaton :=
  let slot := d.slot key
  let old := d.definedAt slot
  { d with
    next := d.next.setIfInBounds slot key.state
    defined := d.defined.setIfInBounds slot false
    definedCount := if old then d.definedCount - 1 else d.definedCount }

/-- Undefines a key, and gives the state it led to. -/
def reset (d : Automaton) (key : Key) : Result (Nat × Automaton) := do
  d.checkKey key
  return (d.lookup key, d.undefine key)

/-! ## Reading -/

def checkInput (d : Automaton) (input : Word) : Result Unit :=
  if d.input.containsAll input then .ok () else Result.fail (.foreignInput input d.input.size)

/-- The input as a tape, with the head on the next symbol. -/
def snapshot (input : Array Nat) (state head : Nat) : Configuration := ⟨state, input, head, head⟩

/-- Reads the rest of an input from a state and a head position: the state reached, and what was seen. -/
def watchRest {σ : Type} (observe : σ → Configuration → σ) (d : Automaton) (input : Array Nat) :
    Nat → Nat → Word → σ → Nat × σ
  | state, _, [], seen => (state, seen)
  | state, head, symbol :: rest, seen =>
    let state := d.lookup ⟨state, symbol⟩
    watchRest observe d input state (head + 1) rest (observe seen (snapshot input state (head + 1)))

/-- Reads a whole input from a state: whether it is accepted, how many symbols were read, and what was seen. -/
def watchAll {σ : Type} (observe : σ → Configuration → σ) (d : Automaton) (input : Word) (state : Nat)
    (seen : σ) : (Bool × Nat) × σ :=
  let tape := input.toArray
  let (last, seen) := watchRest observe d tape state 0 input (observe seen (snapshot tape state 0))
  ((d.accepts? last, input.length), seen)

/-- The answer, if it can't depend on the input. -/
def foregone? (d : Automaton) : Option Bool :=
  if d.acceptingCount = 0 then some false
  else if d.acceptingCount = d.stateCount then some true
  else if d.definedCount = 0 then some (d.accepts? 0)
  else none

/-- Decides an input, reading it only if the answer can depend on it. -/
def watch {σ : Type} (observe : σ → Configuration → σ) (d : Automaton) (input : Word) (seen : σ) :
    Result ((Bool × Nat) × σ) := do
  d.checkInput input
  match d.foregone? with
  | some answer => return ((answer, 0), observe seen (snapshot input.toArray 0 0))
  | none => return d.watchAll observe input 0 seen

def accepts (d : Automaton) (input : Word) : Result (Bool × Nat) := do
  return (← d.watch (fun _ _ => ()) input ()).1

/-- The same, but always reading, and from any state. -/
def acceptsFrom (d : Automaton) (input : Word) (state : Nat) : Result (Bool × Nat) := do
  d.checkState state
  d.checkInput input
  return (d.watchAll (fun _ _ => ()) input state ()).1

/-- An automaton always halts at the end of its input, so limits don't apply. -/
instance : Decider Automaton where
  inputAlphabet d := d.input
  watchInput observe d input _ seen := do
    let ((answer, read), seen) ← d.watch observe input seen
    return (⟨if answer then .accepted else .rejected, read, none⟩, seen)

end Automaton
end BoundedTuring
