import BoundedTuring.Error
import BoundedTuring.Run
/-!
# What a simulation tests

A simulation tests the words from an initial one on, in shortlex order, up to a length and a count, each within
the same limits.  `validate` puts the length bounds in order and refuses an initial word outside them, except
that a lone word may have any length and then makes its own bounds.
-/
namespace BoundedTuring

/-- How many words a simulation tests if it isn't told. -/
def defaultStringCount : Nat := 100

/-- The most words that may be left to test when the count does not bound them by itself. -/
def maxStringCount : Nat := 100000

def defaultMinLength : Nat := 0

def defaultMaxLength : Nat := 5

structure SimulationConfig where
  minLength : Nat
  maxLength : Nat
  initial : Word
  stringCount : Nat
  limits : Limits
  deriving DecidableEq, Repr

namespace SimulationConfig

def standard : SimulationConfig :=
  ⟨defaultMinLength, defaultMaxLength, [], defaultStringCount, .unbounded⟩

instance : Inhabited SimulationConfig := ⟨standard⟩

/-- Sets the length bounds, in either order, and starts at the first word of the least length. -/
def withLengthRange (c : SimulationConfig) (a b : Nat) : SimulationConfig :=
  { c with minLength := min a b, maxLength := max a b, initial := Word.least (min a b) }

def ordered (c : SimulationConfig) : SimulationConfig :=
  { c with minLength := min c.minLength c.maxLength, maxLength := max c.minLength c.maxLength }

def startsInRange (c : SimulationConfig) : Bool :=
  c.minLength ≤ c.initial.length && c.initial.length ≤ c.maxLength

/-- Widens the bounds to the lengths up to that of the initial word. -/
def widened (c : SimulationConfig) : SimulationConfig :=
  { c with minLength := 0, maxLength := c.initial.length }

/-- Refuses a simulation of too many words.  They are counted only when their number is not bounded anyway. -/
def checkCount (c : SimulationConfig) (base : Nat) : Result Unit :=
  let estimate := Word.estimate base c.initial.length c.maxLength
  if maxStringCount < c.stringCount ∧ maxStringCount < estimate then
    Result.fail (.tooManyStrings estimate maxStringCount)
  else .ok ()

/-- The result of validation and the configuration it leaves behind, also when it fails. -/
def validateInPlace (c : SimulationConfig) (base : Nat) : Result Unit × SimulationConfig :=
  match c.initial.find? (fun s => base ≤ s) with
  | some symbol => (Result.fail (.foreignInitial symbol base), c)
  | none =>
    let c := c.ordered
    if c.startsInRange then (c.checkCount base, c)
    else if 1 < c.stringCount then
      (Result.fail (.initialLengthOutOfRange c.initial.length c.minLength c.maxLength), c)
    else (c.widened.checkCount base, c.widened)

/-- The configuration with its bounds in order and around the initial word, for an alphabet of `base` symbols. -/
def validate (c : SimulationConfig) (base : Nat) : Result SimulationConfig :=
  match c.validateInPlace base with
  | (.ok (), c) => .ok c
  | (.error e, _) => .error e

end SimulationConfig
end BoundedTuring
