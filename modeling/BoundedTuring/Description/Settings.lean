import BoundedTuring.Alphabet.Input
import BoundedTuring.Description.Reading
import BoundedTuring.Simulation.Config
/-!
# Settings lines

The line after the transitions says what a simulation tests.  It reads

    stringCount [maxLength | minLength maxLength [maxSteps [initial [trace [timed [maxTime]]]]]]

for a machine, and `stringCount [maxLength | minLength maxLength [initial]]` for an automaton.  Any field may be
`default`, an empty line keeps every default, and a count of 0 ignores the fields after it.  As the last of seven
fields the time bound may stand in the place of the flag.
-/
namespace BoundedTuring

def maxMachineSettings : Nat := 8

def maxAutomatonSettings : Nat := 4

/-- The time bound in milliseconds of a line that asks for one and doesn't give it: an hour. -/
def defaultMaxTime : Nat := 3600000

structure Settings where
  config : SimulationConfig
  trace : Bool
  deriving DecidableEq, Repr, Inhabited

namespace Settings

def standard : Settings := ⟨.standard, false⟩

def asciiLower (text : String) : List Char := text.toList.map Char.toLower

def isDefault (field : String) : Bool := asciiLower field == "default".toList

def flag? (field : String) : Option Bool :=
  let lower := asciiLower field
  if lower == ['t'] || lower == "true".toList then some true
  else if lower == ['f'] || lower == "false".toList then some false
  else none

/-- The field at a place, if there is one and it isn't `default`. -/
def field? (fields : List String) (index : Nat) : Option String :=
  fields[index]?.filter (fun field => !isDefault field)

def numberAt (line : Line) (fields : List String) (index : Nat) (name : String) (standard : Nat) :
    Reading Nat :=
  match field? fields index with
  | some text => line.readNumber name text
  | none => .ok standard

/-- The fields of a settings line; an empty line has none. -/
def readFields (line : Line) (most : Nat) : Reading (List String) :=
  if line.text.isEmpty then .ok []
  else do
    let fields ← line.fields
    if most < fields.length then line.refuseLayout (.settings most fields.length)
    else return fields

def readRange (line : Line) (fields : List String) : Reading SimulationConfig := do
  let stringCount ← numberAt line fields 0 "max string count" defaultStringCount
  let config := { SimulationConfig.standard with stringCount }
  if stringCount = 0 then return config
  else if fields.length = 2 then
    let maxLength ← numberAt line fields 1 "max length" defaultMaxLength
    return { config with maxLength }
  else if 3 ≤ fields.length then
    let first ← numberAt line fields 1 "first length bound" defaultMinLength
    let second ← numberAt line fields 2 "second length bound" defaultMaxLength
    return config.withLengthRange first second
  else return config

/-- The initial word, if there is one at a place. -/
def readInitial (a : InputAlphabet) (line : Line) (fields : List String) (index : Nat)
    (config : SimulationConfig) : Reading SimulationConfig :=
  match field? fields index with
  | some text => do
    let initial ← line.check (a.tokenize text)
    return { config with initial }
  | none => .ok config

def readTrace (line : Line) (fields : List String) : Reading Bool :=
  match field? fields 5 with
  | some text =>
    match flag? text with
    | some trace => .ok trace
    | none => line.refuse (.notTraceFlag text)
  | none => .ok false

/-- The time bound asked for by the flag and the number after it, or by a number in place of the flag. -/
def readTimeBound (line : Line) (fields : List String) : Reading (Option Nat) :=
  match field? fields 6 with
  | none => .ok none
  | some text =>
    match flag? text with
    | some true => some <$> numberAt line fields 7 "max process time" defaultMaxTime
    | some false => .ok none
    | none =>
      if fields.length = 7 then some <$> line.readNumber "max process time" text
      else line.refuse (.notTimeFlag text)

def checkTimeBound (line : Line) : Option Nat → Reading Unit
  | some time =>
    if maxTimeBound < time then line.refuse (.timeOutOfRange time maxTimeBound) else .ok ()
  | none => .ok ()

def readFurther (a : InputAlphabet) (line : Line) (fields : List String) (config : SimulationConfig) :
    Reading Settings := do
  let maxSteps ← numberAt line fields 3 "max steps" defaultMaxSteps
  let config ← readInitial a line fields 4 config
  let trace ← readTrace line fields
  let maxTime ← readTimeBound line fields
  checkTimeBound line maxTime
  return ⟨{ config with limits := ⟨maxSteps, maxTime⟩ }, trace⟩

def read (a : InputAlphabet) (line : Line) : Reading Settings := do
  let fields ← readFields line maxMachineSettings
  if fields.isEmpty then return standard
  let config ← readRange line fields
  let settings ← if config.stringCount = 0 then pure ⟨config, false⟩ else readFurther a line fields config
  let config ← line.check (settings.config.validate a.size)
  return { settings with config }

def readAutomaton (a : InputAlphabet) (line : Line) : Reading SimulationConfig := do
  let fields ← readFields line maxAutomatonSettings
  if fields.isEmpty then return .standard
  let config ← readRange line fields
  let config ← if config.stringCount = 0 then pure config else readInitial a line fields 3 config
  line.check (config.validate a.size)

end Settings
end BoundedTuring
