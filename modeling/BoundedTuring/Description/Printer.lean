import BoundedTuring.Description.Machine
/-!
# Writing descriptions

The text of a machine's description and the text of a settings line.  Reading what was written gives the machine,
and the settings, back.
-/
namespace BoundedTuring

/-- The lines of a machine's description, up to its transitions. -/
def Machine.descriptionLines (m : Machine) : Result (List String) := do
  let transitions ← m.describeAll
  return s!"{m.stateCount} {m.alphabet.size} {m.alphabet.inputSize}"
    :: " ".intercalate m.alphabet.userSymbols
    :: toString m.table.definedCount
    :: transitions

/-- A machine's description, each of its lines ended by a line feed. -/
def Machine.description (m : Machine) : Result String := do
  return String.join ((← m.descriptionLines).map (· ++ "\n"))

/-- The line that some fields make up, with a space between any two. -/
def Line.ofFields (number : Nat) (fields : List String) : Line := ⟨number, (" ".intercalate fields).toList⟩

namespace Settings

def writeFlag (flag : Bool) : String := if flag then "t" else "f"

/-- The field of the initial word, which is `default` if it is the first of the least length. -/
def writeInitial (a : InputAlphabet) (c : SimulationConfig) : Result String :=
  if c.initial = Word.least c.minLength then return "default" else a.render c.initial

/-- The fields of a settings line up to the trace flag. -/
def writeLeading (a : InputAlphabet) (s : Settings) : Result (List String) := do
  let initial ← writeInitial a s.config
  return [toString s.config.stringCount, toString s.config.minLength, toString s.config.maxLength,
    toString s.config.limits.maxSteps, initial, writeFlag s.trace]

/-- The fields of a settings line, with a flag for the time bound and then the bound. -/
def write (a : InputAlphabet) (s : Settings) : Result (List String) := do
  let leading ← writeLeading a s
  match s.config.limits.maxTime with
  | none => return leading ++ ["f"]
  | some time => return leading ++ ["t", toString time]

/-- The fields of a settings line with the time bound in the place of its flag. -/
def writeShort (a : InputAlphabet) (s : Settings) (time : Nat) : Result (List String) := do
  return (← writeLeading a s) ++ [toString time]

end Settings
end BoundedTuring
